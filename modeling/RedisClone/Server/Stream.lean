import RedisClone.Hub.Mailboxes
import RedisClone.Server.Conversation

/-!
This module contains the proof that a client can take the stream of a connection apart: replies, confirmations
and messages of other connections stay whole, however they come to be written.
-/

namespace RedisClone

open Resp2 (Encodes)

/--
The value a client finds in place of a frame.
-/
def Frame.Tells : Frame → Resp2.Value → Prop
  | .reply text, value => Resp2.parse (asBytes text) = some value
  | .confirmation kind channel count, value =>
    value = .array
      [.bulk (asBytes kind), .bulk (asBytes channel), .integer (Int64.ofNat count).toInt]
  | .push text, value =>
    ∃ channel payload, text = PubSub.message channel payload
      ∧ value = .array [.bulk (asBytes "message"), .bulk (asBytes channel), .bulk (asBytes payload)]

/--
A frame is one value on its own. Only the reply to a blank line is empty, and it is not written at all.
-/
def Frame.Whole (frame : Frame) : Prop :=
  frame.text = "" ∨ ∃ value, Encodes 3 (asBytes frame.text) value ∧ frame.Tells value

theorem Frame.whole_reply {text : String} (h : text = "" ∨ Framed 3 text) : (Frame.reply text).Whole := by
  rcases h with h | ⟨value, hvalue⟩
  . exact .inl h
  . exact .inr ⟨value, hvalue, Resp2.parse_of_encodes hvalue (by omega)⟩

theorem Frame.whole_confirmation (kind channel : String) (count : Nat)
    : (Frame.confirmation kind channel count).Whole := by
  refine .inr ⟨_, ?_, rfl⟩
  exact (Session.encodes_subscriptionReply kind channel count).mono (by omega)

theorem Frame.whole_push (channel payload : String)
    : (Frame.push (PubSub.message channel payload)).Whole := by
  refine .inr ⟨_, ?_, channel, payload, rfl, rfl⟩
  exact (encodes_array 0 ["message", channel, payload]).mono (by omega)

theorem chunks_of_frames {frames : List Frame} (h : ∀ frame ∈ frames, frame.Whole)
    : ∃ chunks values, List.Forall₂ (Encodes 3) chunks values
        ∧ List.Forall₂ Frame.Tells (frames.filter fun frame => frame.text != "") values
        ∧ asBytes (String.join (frames.map Frame.text)) = chunks.flatten := by
  induction frames with
  | nil => exact ⟨[], [], .nil, .nil, rfl⟩
  | cons frame frames ih =>
    rw [List.forall_mem_cons] at h
    obtain ⟨chunks, values, hencodes, htells, hbytes⟩ := ih h.2
    rw [List.map_cons, String.join_cons, asBytes_append, hbytes]
    rcases h.1 with hempty | ⟨value, hvalue, htold⟩
    . refine ⟨chunks, values, hencodes, ?_, ?_⟩
      . rw [List.filter_cons_of_neg (by simp [hempty])]
        exact htells
      . rw [hempty, asBytes_empty, List.nil_append]
    . have hwritten : frame.text ≠ "" := by
        intro hempty
        rw [hempty, asBytes_empty] at hvalue
        exact absurd hvalue.length (by simp)
      refine ⟨asBytes frame.text :: chunks, value :: values, .cons hvalue hencodes, ?_, rfl⟩
      rw [List.filter_cons_of_pos (by simpa using hwritten)]
      exact .cons htold htells

/--
The stream of whole frames is taken apart into the values of those that are written.
-/
theorem parseMany_frames {frames : List Frame} (h : ∀ frame ∈ frames, frame.Whole)
    : let written := frames.filter fun frame => frame.text != ""
      ∃ values, List.Forall₂ Frame.Tells written values
        ∧ Resp2.parseMany written.length (asBytes (String.join (frames.map Frame.text)))
          = some values := by
  intro written
  obtain ⟨chunks, values, hencodes, htells, hbytes⟩ := chunks_of_frames h
  refine ⟨values, htells, ?_⟩
  have hlength : written.length = chunks.length := by
    rw [htells.length_eq, hencodes.length_eq]
  rw [hbytes, hlength]
  cases chunks with
  | nil =>
    cases hencodes
    rfl
  | cons chunk chunks =>
    apply Resp2.parseMany_of_encodes hencodes (List.cons_ne_nil _ _)
    omega

theorem Session.mailboxes_oneOf (kind channel : String) (session : Session) (db : Database)
    : (Session.oneOf kind channel session db).2.1.pubsub.mailboxes = db.pubsub.mailboxes := by
  unfold Session.oneOf
  split
  . exact (Session.subscribeOne_keeps channel session db).2.2
  . exact (Session.unsubscribeOne_keeps channel session db).2.2

namespace ConnectionTask

/--
What the task has written and what it is about to write are whole frames, and so is what is in the mailboxes.
-/
structure Legible (task : ConnectionTask) : Prop where
  posted : task.hub.db.pubsub.Posted
  written : ∀ frame ∈ task.written, frame.Whole
  pending : ∀ frame ∈ task.pending, frame.Whole

variable {id : UInt64} {task next : ConnectionTask} {event : TaskEvent}

theorem legible_new {hub : Hub} (h : hub.db.pubsub.Posted) : (new hub).Legible where
  posted := h
  written := by simp [new]
  pending := by simp [new]

/--
The reply to a request without confirmations is empty or one value.
-/
theorem whole_handle {session : Session} {envs : Nat → Env} {tokens : List String}
    (h : session.confirms (envs 0) tokens = none) (db : Database)
    : (Frame.reply (session.handle envs tokens db).2.2).Whole := by
  apply Frame.whole_reply
  cases tokens with
  | nil => exact .inl rfl
  | cons first args => exact .inr (Session.framed_handle envs session (List.cons_ne_nil _ _) h db)

theorem Legible.serve (h : task.Legible) {envs : Nat → Env}
    (hstep : task.step id (.serve envs) = some next)
    : next.Legible := by
  simp only [step] at hstep
  split at hstep
  . next tokens requests connection hserving hrequests hconnection =>
    split at hstep
    . cases hstep
      exact ⟨h.posted, h.written, h.pending⟩
    . next hconfirms =>
      cases hstep
      obtain ⟨events, hevents⟩ := Hub.run_handle hconnection envs tokens
      constructor
      . exact Hub.run_posted h.posted hevents
      . rw [List.forall_mem_append, List.forall_mem_singleton]
        exact ⟨h.written, whole_handle hconfirms task.hub.db⟩
      . exact h.pending
  . cases hstep

theorem Legible.channel (h : task.Legible) (hstep : task.step id .channel = some next)
    : next.Legible := by
  simp only [step] at hstep
  split at hstep
  . next kind channel channels connection hserving hconnection =>
    cases hstep
    constructor
    . apply h.posted.of_mailboxes
      exact Session.mailboxes_oneOf kind channel connection.session task.hub.db
    . exact h.written
    . rw [List.forall_mem_append, List.forall_mem_singleton]
      exact ⟨h.pending, Frame.whole_confirmation _ _ _⟩
  . cases hstep

theorem Legible.receive (h : task.Legible) (hstep : task.step id .receive = some next)
    : next.Legible := by
  simp only [step] at hstep
  split at hstep
  . next connection hserving hconnection =>
    rw [Option.map_eq_some_iff] at hstep
    obtain ⟨⟨text, pubsub⟩, hrecv, rfl⟩ := hstep
    obtain ⟨⟨channel, payload, rfl⟩, hposted⟩ := h.posted.recv hrecv
    constructor
    . exact hposted
    . rw [List.forall_mem_append, List.forall_mem_singleton]
      exact ⟨h.written, Frame.whole_push channel payload⟩
    . exact h.pending
  . cases hstep

theorem Legible.step (h : task.Legible) (hstep : task.step id event = some next) : next.Legible := by
  cases event with
  | arrive tokens =>
    cases hstep
    exact ⟨h.posted, h.written, h.pending⟩
  | others event =>
    simp only [ConnectionTask.step, Option.ite_none_left_eq_some, Option.map_eq_some_iff] at hstep
    obtain ⟨-, hub, hhub, rfl⟩ := hstep
    exact ⟨Hub.step_posted h.posted hhub, h.written, h.pending⟩
  | serve envs => exact h.serve hstep
  | channel => exact h.channel hstep
  | reply =>
    simp only [ConnectionTask.step] at hstep
    split at hstep
    . cases hstep
      constructor
      . exact h.posted
      . rw [List.forall_mem_append]
        exact ⟨h.written, h.pending⟩
      . simp
    . cases hstep
  | receive => exact h.receive hstep

end ConnectionTask

namespace Conversation

variable {id : UInt64} {self next : Conversation} {event : ConversationEvent}
  {answer : Option (Call × String)}

/--
What an event is to the task.
-/
def taskEvent (self : Conversation) : ConversationEvent → Option TaskEvent
  | .read => none
  | .send => self.inHand.map .arrive
  | .task event => some event

/--
A step of the conversation is one of the task, or leaves it alone.
-/
theorem task_of_step (hstep : step id self event = some (next, answer))
    : (self.taskEvent event = none ∧ next.task = self.task)
        ∨ ∃ event', self.taskEvent event = some event'
          ∧ self.task.step id event' = some next.task := by
  cases event with
  | read =>
    simp only [step, Option.ite_none_right_eq_some] at hstep
    left
    refine ⟨rfl, ?_⟩
    split at hstep
    . cases hstep.2
      rfl
    . cases hstep.2
      rfl
    . cases hstep.2
      rfl
  | send =>
    simp only [step] at hstep
    split at hstep
    . next tokens hinHand =>
      rw [Option.ite_none_right_eq_some, Option.map_eq_some_iff] at hstep
      obtain ⟨-, task, htask, heq⟩ := hstep
      cases heq
      exact .inr ⟨_, congrArg (Option.map TaskEvent.arrive) hinHand, htask⟩
    . cases hstep
  | task event =>
    right
    refine ⟨event, rfl, ?_⟩
    cases event with
    | arrive tokens => cases hstep
    | serve envs =>
      simp only [step] at hstep
      split at hstep
      . obtain ⟨task, htask, heq⟩ := Option.map_eq_some_iff.mp hstep
        split at heq
        . cases heq
          exact htask
        . cases heq
          exact htask
      . cases hstep
    | channel | reply | receive | others =>
      obtain ⟨task, htask, heq⟩ := Option.map_eq_some_iff.mp hstep
      cases heq
      exact htask

/--
The stream of a connection can always be taken apart into one value for each piece that was written: the
replies, one confirmation for each channel, and the messages of other connections, which are in between but
never inside of another value.
-/
theorem stream_decodes {hub opened : Hub} (hreachable : hub.Reachable) {input : List UInt8}
    {events : List ConversationEvent} {last : Conversation} {answers : List (Call × String)}
    (hopened : hub.step .connect = some opened)
    (hrun : (system (Session.new hub.db).1.id).run events (new opened input) = some (last, answers))
    : let written := last.task.written.filter fun frame => frame.text != ""
      ∃ values, List.Forall₂ Frame.Tells written values
        ∧ Resp2.parseMany written.length
            (asBytes (String.join (last.task.written.map Frame.text)))
          = some values := by
  have hlegible : last.task.Legible := by
    apply Linearize.System.run_invariant _ (fun _ _ => trivial) _ hrun
    . intro self event next answer _ h hstep
      rcases task_of_step hstep with ⟨-, hsame⟩ | ⟨event, -, htask⟩
      . rw [hsame]
        exact h
      . exact h.step htask
    . apply ConnectionTask.legible_new
      exact Hub.step_posted (Hub.posted_of_reachable hreachable) hopened
  exact parseMany_frames hlegible.written

/--
A message that looks like replies arrives in the middle of a `SUBSCRIBE`, before a blank line and a `PING`.
-/
theorem stream_decodes_subscribing
    : let env := envAt startOfClock
      let hub := Hub.new (.new env.now)
      let id := (Session.new hub.db).1.id
      let input := asBytes "SUBSCRIBE a b\n\nPING\n"
      let events : List ConversationEvent :=
        [.read, .send, .task (.serve fun _ => env), .read, .send, .task .channel,
          .task (.others (.dispatch env ["PUBLISH", "a", "x\r\n+OK\r\n"])), .task .channel,
          .task .reply, .task .receive, .task (.serve fun _ => env), .read, .send,
          .task (.serve fun _ => env)]
      ∃ opened last answers values, hub.step .connect = some opened
        ∧ (system id).run events (new opened input) = some (last, answers)
        ∧ List.Forall₂ Frame.Tells (last.task.written.filter fun frame => frame.text != "") values
        ∧ values.length = 4
        ∧ Resp2.parseMany 4 (asBytes (String.join (last.task.written.map Frame.text)))
          = some values := by
  intro env hub id input events
  have hreachable : hub.Reachable := ⟨_, [], rfl, rfl⟩
  have hopened : hub.step .connect
      = some (hub.update id ⟨(Session.new hub.db).1, [], none⟩ (Session.new hub.db).2) := by
    rfl
  have hrun : (((hub.step .connect).bind fun opened => (system id).run events (new opened input)).any
      fun run => (run.1.task.written.filter fun frame => frame.text != "").length == 4) = true := by
    decide
  rw [hopened, Option.bind_some, Option.any_eq_true] at hrun
  obtain ⟨⟨last, answers⟩, hrun, hwritten⟩ := hrun
  obtain ⟨values, htells, hparse⟩ := stream_decodes hreachable hopened hrun
  rw [beq_iff_eq.mp hwritten] at hparse
  have hlength := htells.length_eq
  rw [beq_iff_eq.mp hwritten] at hlength
  exact ⟨_, last, answers, values, hopened, hrun, htells, hlength.symm, hparse⟩

end Conversation
end RedisClone
