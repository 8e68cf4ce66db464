import RedisClone.Lib.Linearize
import RedisClone.Server.RoundTrip
import RedisClone.Server.Window
import RedisClone.Session.Modes

/-!
This module contains both tasks of a connection: one reads requests off the socket and sends them over a
bounded channel, the other takes them out and answers them, amid everything the other connections do.
-/

namespace RedisClone

/--
A request in the surroundings and with the database its session handles it in.
-/
structure Call where
  envs : Nat → Env
  tokens : List String
  db : Database

/--
A session that handles its requests one after the other.
-/
def Session.answering : Linearize.Object Session Call String :=
  ⟨fun call session =>
    let handled := session.handle call.envs call.tokens call.db
    (handled.1, handled.2.2)⟩

/--
The requests the channel between the two tasks holds at most.
-/
def requestCapacity : Nat := 16

/--
A connection: what the client sends and has not been read, the request the reader has in hand until there is
space in the channel, the task with the channel, and the request it is serving.
-/
structure Conversation where
  input : List UInt8
  reading : Bool
  inHand : Option (List String)
  task : ConnectionTask
  call : Option Call

inductive ConversationEvent where
  | read
  | send
  | task (event : TaskEvent)

def Frame.isPush : Frame → Bool
  | .push _ => true
  | _ => false

namespace Conversation

def new (hub : Hub) (input : List UInt8) : Conversation := ⟨input, true, none, .new hub, none⟩

/--
What was written in a step.
-/
def said (self : Conversation) (task : ConnectionTask) : String :=
  String.join ((task.written.drop self.task.written.length).map Frame.text)

def step (id : UInt64) (self : Conversation)
    : ConversationEvent → Option (Conversation × Option (Call × String))
  | .read =>
    if self.reading && self.inHand.isNone then
      match readRequest self.input with
      | .ok (some (tokens, input)) => some ({ self with input, inHand := some tokens }, none)
      | .ok none => some ({ self with reading := false }, none)
      | .error _ => some ({ self with reading := false }, none)
    else
      none
  | .send =>
    match self.inHand with
    | some tokens =>
      if self.task.requests.length < requestCapacity then
        (self.task.step id (.arrive tokens)).map fun task =>
          ({ self with inHand := none, task }, none)
      else
        none
    | none => none
  | .task event =>
    match event with
    | .arrive _ => none
    | .serve envs =>
      match self.task.requests with
      | tokens :: _ =>
        (self.task.step id (.serve envs)).map fun task =>
          let call : Call := ⟨envs, tokens, self.task.hub.db⟩
          if task.serving.isSome then
            ({ self with task, call := some call }, none)
          else
            ({ self with task }, some (call, self.said task))
      | [] => none
    | .reply =>
      (self.task.step id .reply).map fun task =>
        ({ self with task, call := none }, self.call.map fun call => (call, self.said task))
    | event => (self.task.step id event).map fun task => ({ self with task }, none)

def system (id : UInt64) : Linearize.System Conversation ConversationEvent Call String := ⟨step id⟩

/--
The loop ends when the reader has stopped and the channel is empty.
-/
def Over (self : Conversation) : Prop :=
  self.reading = false ∧ self.inHand = none ∧ self.task.requests = [] ∧ self.task.serving = none

instance (self : Conversation) : Decidable self.Over :=
  inferInstanceAs (Decidable (_ = _ ∧ _ = _ ∧ _ = _ ∧ _ = _))

/--
Once the reader has stopped, there is no further request in what the client has sent.
-/
def Ended (self : Conversation) : Prop := self.reading = false → requestsOf self.input = []

/--
The requests that have not been answered, on their way from the socket to the reply.
-/
def unanswered (self : Conversation) : List (List String) :=
  self.call.toList.map Call.tokens ++ self.task.requests ++ self.inHand.toList
    ++ requestsOf self.input

/--
What was written in reply to requests.
-/
def replies (self : Conversation) : String :=
  String.join ((self.task.written.filter fun frame => !frame.isPush).map Frame.text)

/--
The session of the connection, and the one that has handled the requests answered so far: they are the same
between two requests, and in a `SUBSCRIBE` or `UNSUBSCRIBE` some of the channels have been gone through.
-/
inductive Talks (id : UInt64) (conversation : Conversation) (session : Session) : Prop where
  | idle {connection : Connection} (serving : conversation.task.serving = none)
    (pending : conversation.task.pending = []) (current : conversation.call = none)
    (connected : conversation.task.hub.serving id = some connection)
    (same : connection.session = session)
  | confirming {connection : Connection} {call : Call} {kind : String} {done channels : List String}
    (serving : conversation.task.serving = some (kind, channels))
    (pending : conversation.task.pending.map Frame.text
      = Session.confirmations kind done session.channels)
    (frames : ∀ frame ∈ conversation.task.pending, frame.isPush = false)
    (current : conversation.call = some call)
    (connected : conversation.task.hub.serving id = some connection)
    (confirms : Session.confirms (call.envs 0) session call.tokens = some (kind, done ++ channels))
    (same : connection.session
      = { session with channels := done.foldl (Session.changeOf kind) session.channels })

end Conversation

theorem Session.confirmations_concat (kind channel : String) (done : List String)
    (channels : Std.ExtTreeSet String)
    : confirmations kind (done ++ [channel]) channels
        =
      confirmations kind done channels
        ++ [subscriptionReply kind channel
          ((done ++ [channel]).foldl (changeOf kind) channels).size] := by
  induction done generalizing channels with
  | nil => rfl
  | cons target done ih =>
    rw [List.cons_append, confirmations, ih]
    rfl

namespace Conversation

variable {id : UInt64} {self next : Conversation} {session : Session} {event : ConversationEvent}
  {answer : Option (Call × String)}

/--
What a step does: it answers the request that is next, if any, as the session does, and writes the reply.
-/
structure Exchange (id : UInt64) (conversation : Conversation) (session : Session)
    (next : Conversation) (answer : Option (Call × String)) : Prop where
  talks : Talks id next (answer.elim session fun answer => (Session.answering.call answer.1 session).1)
  reply : ∀ call reply, answer = some (call, reply) → reply = (Session.answering.call call session).2
  unanswered : (answer.map fun answer => answer.1.tokens).toList ++ next.unanswered
    = conversation.unanswered
  replies : next.replies = conversation.replies ++ (answer.map Prod.snd).getD ""
  capacity : conversation.task.requests.length ≤ requestCapacity
    → next.task.requests.length ≤ requestCapacity
  ended : conversation.Ended → next.Ended

theorem Talks.connected (h : Talks id self session)
    : ∃ connection, self.task.hub.serving id = some connection := by
  cases h with
  | idle serving pending current connected same => exact ⟨_, connected⟩
  | confirming serving pending frames current connected confirms same => exact ⟨_, connected⟩

/--
A step of the reader, which changes nothing of the task but its channel.
-/
theorem Talks.of_reader (h : Talks id self session) (hserving : next.task.serving = self.task.serving)
    (hpending : next.task.pending = self.task.pending) (hhub : next.task.hub = self.task.hub)
    (hcall : next.call = self.call)
    : Talks id next session := by
  cases h with
  | idle serving pending current connected same =>
    rw [← hhub] at connected
    exact .idle (hserving.trans serving) (hpending.trans pending) (hcall.trans current) connected same
  | confirming serving pending frames current connected confirms same =>
    rw [← hpending] at pending frames
    rw [← hhub] at connected
    exact .confirming (hserving.trans serving) pending frames (hcall.trans current) connected confirms
      same

theorem Talks.read (h : Talks id self session) (hstep : step id self .read = some (next, answer))
    : Exchange id self session next answer := by
  simp only [step, Option.ite_none_right_eq_some, Bool.and_eq_true, Option.isNone_iff_eq_none] at hstep
  obtain ⟨⟨hreading, hempty⟩, hstep⟩ := hstep
  have hstopped : requestsOf self.input = []
      → Exchange id self session { self with reading := false } none := by
    intro hnothing
    constructor
    . exact h.of_reader rfl rfl rfl rfl
    . rintro call reply ⟨⟩
    . rfl
    . simp [Conversation.replies]
    . exact fun hle => hle
    . exact fun _ _ => hnothing
  split at hstep
  . next tokens input hread =>
    cases hstep
    constructor
    . exact h.of_reader rfl rfl rfl rfl
    . rintro call reply ⟨⟩
    . simp [Conversation.unanswered, hempty, requestsOf_of_read hread]
    . simp [Conversation.replies]
    . exact fun hle => hle
    . intro _ hstopped
      rw [hreading] at hstopped
      cases hstopped
  . next hread =>
    cases hstep
    exact hstopped (requestsOf_of_end hread)
  . next hread =>
    cases hstep
    exact hstopped (requestsOf_of_error hread)

theorem Talks.send (h : Talks id self session) (hstep : step id self .send = some (next, answer))
    : Exchange id self session next answer := by
  simp only [step] at hstep
  split at hstep
  . next tokens hinHand =>
    rw [Option.ite_none_right_eq_some] at hstep
    obtain ⟨hspace, hstep⟩ := hstep
    cases hstep
    constructor
    . exact h.of_reader rfl rfl rfl rfl
    . rintro call reply ⟨⟩
    . simp [Conversation.unanswered, hinHand]
    . simp [Conversation.replies]
    . intro _
      rw [List.length_append]
      exact hspace
    . exact fun hended => hended
  . cases hstep

/--
A request with confirmations is begun.
-/
theorem Talks.begin {connection : Connection} {call : Call} {kind : String} {channels : List String}
    (hserving : self.task.serving = some (kind, channels)) (hpending : self.task.pending = [])
    (hcall : self.call = some call) (hconnected : self.task.hub.serving id = some connection)
    (hconfirms : Session.confirms (call.envs 0) connection.session call.tokens = some (kind, channels))
    : Talks id self connection.session := by
  have htexts : self.task.pending.map Frame.text
      = Session.confirmations kind [] connection.session.channels := by
    rw [hpending]
    rfl
  have hframes : ∀ frame ∈ self.task.pending, frame.isPush = false := by
    rw [hpending]
    simp
  have hconfirms : Session.confirms (call.envs 0) connection.session call.tokens
      = some (kind, [] ++ channels) := hconfirms
  exact .confirming hserving htexts hframes hcall hconnected hconfirms rfl

/--
The task begins with a request, and ends with it unless it is one with confirmations.
-/
theorem Talks.serve (h : Talks id self session) {envs : Nat → Env}
    (hstep : step id self (.task (.serve envs)) = some (next, answer))
    : Exchange id self session next answer := by
  simp only [step] at hstep
  split at hstep
  . next tokens requests hrequests =>
    obtain ⟨task, htask, heq⟩ := Option.map_eq_some_iff.mp hstep
    cases h with
    | confirming serving pending frames current connected confirms same =>
      simp only [ConnectionTask.step, serving] at htask
      cases htask
    | idle serving pending current connected same =>
      simp only [ConnectionTask.step, serving, hrequests, connected] at htask
      subst same
      split at htask
      . next request hconfirms =>
        cases htask
        cases heq
        obtain ⟨kind, channels⟩ := request
        constructor
        . exact Talks.begin rfl pending rfl connected hconfirms
        . rintro call reply ⟨⟩
        . simp [Conversation.unanswered, hrequests, current]
        . simp [Conversation.replies]
        . intro hle
          rw [hrequests] at hle
          exact Nat.le_of_succ_le hle
        . exact fun hended => hended
      . next hconfirms =>
        cases htask
        cases heq
        have hleaving := (Hub.serving_eq_some.mp connected).2
        constructor
        . exact .idle rfl pending current (Hub.serving_update hleaving) rfl
        . rintro call reply ⟨⟩
          simp [said, Session.answering, Frame.text]
        . simp [Conversation.unanswered, hrequests, current]
        . simp [Conversation.replies, said, Frame.text, Frame.isPush]
        . intro hle
          rw [hrequests] at hle
          exact Nat.le_of_succ_le hle
        . exact fun hended => hended
  . cases hstep

theorem Talks.channel (h : Talks id self session)
    (hstep : step id self (.task .channel) = some (next, answer))
    : Exchange id self session next answer := by
  obtain ⟨task, htask, heq⟩ := Option.map_eq_some_iff.mp hstep
  cases heq
  cases h with
  | idle serving pending current connected same =>
    simp only [ConnectionTask.step, serving] at htask
    cases htask
  | @confirming connection call kind done channels serving pending frames current connected confirms
      same =>
    cases channels with
    | nil =>
      simp only [ConnectionTask.step, serving] at htask
      cases htask
    | cons channel channels =>
      rw [ConnectionTask.step_channel serving connected] at htask
      cases htask
      have hleaving := (Hub.serving_eq_some.mp connected).2
      have hkind := (Session.handle_of_confirms confirms self.task.hub.db).2.1
      have hsession : (Session.oneOf kind channel connection.session self.task.hub.db).1
          = { session with channels :=
                (done ++ [channel]).foldl (Session.changeOf kind) session.channels } := by
        rw [Session.oneOf_session hkind, same, List.foldl_append]
        rfl
      have hconfirms : Session.confirms (call.envs 0) session call.tokens
          = some (kind, (done ++ [channel]) ++ channels) := by
        rw [confirms, List.append_assoc]
        rfl
      constructor
      . refine .confirming rfl ?_ ?_ current (Hub.serving_update hleaving) hconfirms hsession
        . dsimp only
          rw [List.map_append, pending, Session.confirmations_concat, hsession]
          rfl
        . dsimp only
          rw [List.forall_mem_append, List.forall_mem_singleton]
          exact ⟨frames, rfl⟩
      . rintro call reply ⟨⟩
      . rfl
      . simp [Conversation.replies]
      . exact fun hle => hle
      . exact fun hended => hended

theorem Talks.finish (h : Talks id self session)
    (hstep : step id self (.task .reply) = some (next, answer))
    : Exchange id self session next answer := by
  obtain ⟨task, htask, heq⟩ := Option.map_eq_some_iff.mp hstep
  cases heq
  cases h with
  | idle serving pending current connected same =>
    simp only [ConnectionTask.step, serving] at htask
    cases htask
  | @confirming connection call kind done channels serving pending frames current connected confirms
      same =>
    cases channels with
    | cons channel channels =>
      simp only [ConnectionTask.step, serving] at htask
      cases htask
    | nil =>
      simp only [ConnectionTask.step, serving] at htask
      cases htask
      rw [List.append_nil] at confirms
      obtain ⟨pubsub, hhandle⟩ := Session.handle_of_confirms_eq confirms call.db
      constructor
      . rw [current]
        refine .idle rfl rfl rfl connected ?_
        dsimp only [Option.map_some, Option.elim_some, Session.answering]
        rw [hhandle, same]
      . rw [current]
        rintro call' reply ⟨⟩
        simp [said, Session.answering, hhandle, pending]
      . simp [Conversation.unanswered, current]
      . have hfilter : self.task.pending.filter (fun frame => !frame.isPush) = self.task.pending := by
          rw [List.filter_eq_self]
          intro frame hmem
          simp [frames frame hmem]
        simp [Conversation.replies, said, current, hfilter]
      . exact fun hle => hle
      . exact fun hended => hended

theorem Talks.receive (h : Talks id self session)
    (hstep : step id self (.task .receive) = some (next, answer))
    : Exchange id self session next answer := by
  obtain ⟨task, htask, heq⟩ := Option.map_eq_some_iff.mp hstep
  cases heq
  cases h with
  | confirming serving pending frames current connected confirms same =>
    simp only [ConnectionTask.step, serving] at htask
    cases htask
  | idle serving pending current connected same =>
    simp only [ConnectionTask.step, serving, connected, Option.map_eq_some_iff] at htask
    obtain ⟨⟨message, pubsub⟩, -, rfl⟩ := htask
    have hleaving := (Hub.serving_eq_some.mp connected).2
    constructor
    . exact .idle rfl pending current (Hub.serving_update hleaving) same
    . rintro call reply ⟨⟩
    . rfl
    . simp [Conversation.replies, Frame.isPush]
    . exact fun hle => hle
    . exact fun hended => hended

theorem Talks.others (h : Talks id self session) {event : HubEvent}
    (hstep : step id self (.task (.others event)) = some (next, answer))
    : Exchange id self session next answer := by
  obtain ⟨task, htask, heq⟩ := Option.map_eq_some_iff.mp hstep
  cases heq
  simp only [ConnectionTask.step, Option.ite_none_left_eq_some, Option.map_eq_some_iff] at htask
  obtain ⟨hconcerns, hub, hhub, rfl⟩ := htask
  have hsame : ∀ connection, self.task.hub.serving id = some connection
      → hub.serving id = some connection := by
    intro connection hconnection
    rw [Hub.serving_eq_some] at hconnection ⊢
    refine ⟨?_, hconnection.2⟩
    exact Hub.connections_of_others (by simpa using hconcerns) hconnection.1 hhub
  constructor
  . cases h with
    | idle serving pending current connected same =>
      exact .idle serving pending current (hsame _ connected) same
    | confirming serving pending frames current connected confirms same =>
      exact .confirming serving pending frames current (hsame _ connected) confirms same
  . rintro call reply ⟨⟩
  . rfl
  . simp [Conversation.replies]
  . exact fun hle => hle
  . exact fun hended => hended

theorem Talks.step (h : Talks id self session)
    (hstep : Conversation.step id self event = some (next, answer))
    : Exchange id self session next answer := by
  cases event with
  | read => exact h.read hstep
  | send => exact h.send hstep
  | task event =>
    cases event with
    | arrive tokens => cases hstep
    | serve envs => exact h.serve hstep
    | channel => exact h.channel hstep
    | reply => exact h.finish hstep
    | receive => exact h.receive hstep
    | others event => exact h.others hstep

/--
When the loop ends, nothing is left to be answered.
-/
theorem Talks.unanswered_of_over (h : Talks id self session) (hended : self.Ended) (hover : self.Over)
    : self.unanswered = [] := by
  obtain ⟨hreading, hinHand, hrequests, hserving⟩ := hover
  have hcall : self.call = none := by
    cases h with
    | idle serving pending current connected same => exact current
    | confirming serving pending frames current connected confirms same =>
      rw [serving] at hserving
      cases hserving
  rw [unanswered, hcall, hrequests, hinHand, hended hreading]
  rfl

theorem refines_answering (id : UInt64)
    : Linearize.Refines (system id) Session.answering (fun _ => True) (Talks id)
        fun _ reply reply' => reply = reply' := by
  constructor
  . intro self event next session _ h hstep
    exact (h.step hstep).talks
  . intro self event next call reply session _ h hstep
    have hexchange := h.step hstep
    exact ⟨hexchange.talks, hexchange.reply call reply rfl⟩

theorem talks_new {hub opened : Hub} (hopened : hub.step .connect = some opened)
    (input : List UInt8)
    : Talks (Session.new hub.db).1.id (new opened input) (Session.new hub.db).1 := by
  simp only [Hub.step] at hopened
  split at hopened
  . cases hopened
    exact .idle rfl rfl rfl (Hub.serving_update rfl) rfl
  . cases hopened

/--
What a run leaves unanswered, and what it writes.
-/
theorem Talks.run {events : List ConversationEvent} {last : Conversation}
    {answers : List (Call × String)} (h : Talks id self session)
    (hrun : (system id).run events self = some (last, answers))
    : (answers.map fun answer => answer.1.tokens) ++ last.unanswered = self.unanswered
        ∧ last.replies = self.replies ++ String.join (answers.map Prod.snd)
        ∧ (self.task.requests.length ≤ requestCapacity
          → last.task.requests.length ≤ requestCapacity)
        ∧ (self.Ended → last.Ended) := by
  induction events generalizing self session answers with
  | nil =>
    cases hrun
    exact ⟨rfl, by simp, fun hle => hle, fun hended => hended⟩
  | cons event events ih =>
    obtain ⟨next, answer, rest, hstep, hrest, rfl⟩ := Linearize.System.run_cons hrun
    have hexchange := h.step hstep
    obtain ⟨hunanswered, hreplies, hcapacity, hended⟩ := ih hexchange.talks hrest
    refine ⟨?_, ?_, ?_, ?_⟩
    . rw [← hexchange.unanswered, ← hunanswered, List.map_append, List.append_assoc]
      cases answer <;> rfl
    . rw [hreplies, hexchange.replies, String.append_assoc]
      cases answer <;> simp
    . intro hle
      exact hcapacity (hexchange.capacity hle)
    . intro hstart
      exact hended (hexchange.ended hstart)

/--
A step of one of the two tasks, which serves requests in given surroundings.
-/
def Own (envs : Nat → Env) : ConversationEvent → Prop
  | .read | .send | .task .channel | .task .reply => True
  | .task (.serve envs') => envs' = envs
  | _ => False

/--
A conversation some steps later, in which the reader has not moved.
-/
structure Later (id : UInt64) (envs : Nat → Env) (conversation last : Conversation) : Prop where
  leads : (system id).Leads (Own envs) conversation last
  talks : ∃ session, Talks id last session
  input : last.input = conversation.input
  reading : last.reading = conversation.reading
  inHand : last.inHand = conversation.inHand

variable {envs : Nat → Env} {last : Conversation}

theorem leads_of_step (hstep : step id self event = some (next, answer)) (hevent : Own envs event)
    (h : (system id).Leads (Own envs) next last)
    : (system id).Leads (Own envs) self last := by
  exact .cons hevent hstep h

theorem Later.refl (h : Talks id self session) : Later id envs self self where
  leads := .refl self
  talks := ⟨session, h⟩
  input := rfl
  reading := rfl
  inHand := rfl

theorem Later.trans {middle : Conversation} (h : Later id envs self middle)
    (h' : Later id envs middle last)
    : Later id envs self last where
  leads := h.leads.trans h'.leads
  talks := h'.talks
  input := h'.input.trans h.input
  reading := h'.reading.trans h.reading
  inHand := h'.inHand.trans h.inHand

theorem Later.of_step (h : Later id envs next last)
    (hstep : step id self event = some (next, answer)) (hevent : Own envs event)
    (hinput : next.input = self.input) (hreading : next.reading = self.reading)
    (hinHand : next.inHand = self.inHand)
    : Later id envs self last where
  leads := leads_of_step hstep hevent h.leads
  talks := h.talks
  input := h.input.trans hinput
  reading := h.reading.trans hreading
  inHand := h.inHand.trans hinHand

theorem step_reply {kind : String} (hserving : self.task.serving = some (kind, []))
    : let task := { self.task with
        serving := none
        pending := []
        written := self.task.written ++ self.task.pending }
      Conversation.step id self (.task .reply)
        =
      some ({ self with task, call := none }, self.call.map fun call => (call, self.said task)) := by
  simp only [Conversation.step, ConnectionTask.step, hserving]
  rfl

theorem step_channel {kind channel : String} {channels : List String} {connection : Connection}
    (hserving : self.task.serving = some (kind, channel :: channels))
    (hconnected : self.task.hub.serving id = some connection)
    : ∃ task, Conversation.step id self (.task .channel) = some ({ self with task }, none)
        ∧ task.serving = some (kind, channels) ∧ task.requests = self.task.requests := by
  refine ⟨_, congrArg (Option.map _) (ConnectionTask.step_channel hserving hconnected), ?_, ?_⟩
  . rfl
  . rfl

theorem step_serve {tokens : List String} {requests : List (List String)} (envs : Nat → Env)
    {connection : Connection} (hserving : self.task.serving = none)
    (hrequests : self.task.requests = tokens :: requests)
    (hconnected : self.task.hub.serving id = some connection)
    : ∃ next answer, Conversation.step id self (.task (.serve envs)) = some (next, answer)
        ∧ next.task.requests = requests ∧ next.input = self.input ∧ next.reading = self.reading
        ∧ next.inHand = self.inHand := by
  cases hconfirms : connection.session.confirms (envs 0) tokens with
  | none =>
    simp only [Conversation.step, ConnectionTask.step, hserving, hrequests, hconnected, hconfirms]
    exact ⟨_, _, rfl, rfl, rfl, rfl, rfl⟩
  | some request =>
    simp only [Conversation.step, ConnectionTask.step, hserving, hrequests, hconnected, hconfirms]
    exact ⟨_, _, rfl, rfl, rfl, rfl, rfl⟩

/--
The request that is being served is answered.
-/
theorem Talks.later_idle (h : Talks id self session) (envs : Nat → Env)
    : ∃ last, Later id envs self last ∧ last.task.serving = none
        ∧ last.task.requests = self.task.requests := by
  cases hserving : self.task.serving with
  | none => exact ⟨self, .refl h, hserving, rfl⟩
  | some request =>
    obtain ⟨kind, channels⟩ := request
    induction channels generalizing self session with
    | nil =>
      have hstep := @step_reply id self kind hserving
      have hlater := @Later.refl id _ _ envs (h.step hstep).talks
      exact ⟨_, hlater.of_step hstep trivial rfl rfl rfl, rfl, rfl⟩
    | cons channel channels ih =>
      obtain ⟨connection, hconnected⟩ := h.connected
      obtain ⟨task, hstep, hnext, hsame⟩ := step_channel hserving hconnected
      obtain ⟨last, hlater, hidle, hrequests⟩ := ih (h.step hstep).talks hnext
      exact ⟨last, hlater.of_step hstep trivial rfl rfl rfl, hidle, hrequests.trans hsame⟩

/--
The requests in the channel are answered.
-/
theorem Talks.later_empty (h : Talks id self session) (envs : Nat → Env)
    : ∃ last, Later id envs self last ∧ last.task.serving = none ∧ last.task.requests = [] := by
  generalize hrequests : self.task.requests = requests
  induction requests generalizing self session with
  | nil =>
    obtain ⟨last, hlater, hidle, hsame⟩ := h.later_idle envs
    exact ⟨last, hlater, hidle, hsame.trans hrequests⟩
  | cons tokens requests ih =>
    obtain ⟨middle, hmiddle, hidle, hsame⟩ := h.later_idle envs
    obtain ⟨session', htalks⟩ := hmiddle.talks
    obtain ⟨connection, hconnected⟩ := htalks.connected
    obtain ⟨next, answer, hstep, hnext, hinput, hreading, hinHand⟩ :=
      step_serve envs hidle (hsame.trans hrequests) hconnected
    obtain ⟨last, hlater, hempty⟩ := ih (htalks.step hstep).talks hnext
    exact ⟨last, hmiddle.trans (hlater.of_step hstep rfl hinput hreading hinHand), hempty⟩

/--
The request in hand is sent and answered as well.
-/
theorem Talks.leads_drained (h : Talks id self session) (envs : Nat → Env)
    : ∃ last session', (system id).Leads (Own envs) self last ∧ Talks id last session'
        ∧ last.task.serving = none ∧ last.task.requests = [] ∧ last.inHand = none
        ∧ last.input = self.input ∧ last.reading = self.reading := by
  obtain ⟨middle, hmiddle, hidle, hempty⟩ := h.later_empty envs
  obtain ⟨session', htalks⟩ := hmiddle.talks
  cases hinHand : middle.inHand with
  | none =>
    exact ⟨middle, session', hmiddle.leads, htalks, hidle, hempty, hinHand, hmiddle.input,
      hmiddle.reading⟩
  | some tokens =>
    have hstep : Conversation.step id middle .send
        = some
          ({ middle with
              inHand := none
              task := { middle.task with requests := middle.task.requests ++ [tokens] } },
            none) := by
      simp [Conversation.step, ConnectionTask.step, hinHand, hempty, requestCapacity]
    obtain ⟨last, hlast, hidle, hempty⟩ := (htalks.step hstep).talks.later_empty envs
    obtain ⟨session', htalks⟩ := hlast.talks
    have hleads := hmiddle.leads.trans (leads_of_step hstep trivial hlast.leads)
    exact ⟨last, session', hleads, htalks, hidle, hempty, hlast.inHand,
      hlast.input.trans hmiddle.input, hlast.reading.trans hmiddle.reading⟩

/--
The two tasks come to their end, by induction on what has not been read.
-/
theorem Talks.leads_over (h : Talks id self session) (envs : Nat → Env)
    : ∃ last, (system id).Leads (Own envs) self last ∧ last.Over := by
  generalize hlength : self.input.length = length
  induction length using Nat.strongRecOn generalizing self session with
  | ind length ih =>
    obtain ⟨middle, session', hleads, htalks, hidle, hempty, hinHand, hinput, -⟩ :=
      h.leads_drained envs
    cases hreading : middle.reading with
    | false => exact ⟨middle, hleads, hreading, hinHand, hempty, hidle⟩
    | true =>
      have hstopped : Conversation.step id middle .read
            = some ({ middle with reading := false }, none)
          → ∃ last, (system id).Leads (Own envs) self last ∧ last.Over := by
        intro hstep
        exact ⟨_, hleads.trans (leads_of_step hstep trivial (.refl _)), rfl, hinHand, hempty, hidle⟩
      cases hread : readRequest middle.input with
      | error error =>
        apply hstopped
        simp [Conversation.step, hreading, hinHand, hread]
      | ok request =>
        cases request with
        | none =>
          apply hstopped
          simp [Conversation.step, hreading, hinHand, hread]
        | some request =>
          obtain ⟨tokens, rest⟩ := request
          have hstep : Conversation.step id middle .read
              = some ({ middle with input := rest, inHand := some tokens }, none) := by
            simp [Conversation.step, hreading, hinHand, hread]
          have hshorter : rest.length < length := by
            rw [← hlength, ← hinput]
            exact length_readRequest hread
          obtain ⟨last, hrest, hover⟩ := ih rest.length hshorter (htalks.step hstep).talks rfl
          exact ⟨last, hleads.trans (leads_of_step hstep trivial hrest), hover⟩

/--
Whatever has happened to a connection, its two tasks can answer all requests of the client without waiting
for any other connection, and then the loop ends.
-/
theorem can_always_finish {hub opened : Hub} {input : List UInt8} {events : List ConversationEvent}
    {last : Conversation} {answers : List (Call × String)}
    (hopened : hub.step .connect = some opened)
    (hrun : (system (Session.new hub.db).1.id).run events (new opened input) = some (last, answers))
    (envs : Nat → Env)
    : ∃ rest final more, (∀ event ∈ rest, Own envs event)
        ∧ (system (Session.new hub.db).1.id).run rest last = some (final, more)
        ∧ final.Over
        ∧ ((answers ++ more).map fun answer => answer.1.tokens) = requestsOf input := by
  have hnew := talks_new hopened input
  obtain ⟨htalks, -⟩ := (refines_answering _).run (fun _ _ => trivial) hnew hrun
  obtain ⟨hunanswered, -, -, hended⟩ := hnew.run hrun
  obtain ⟨final, ⟨rest, more, hown, hrest⟩, hover⟩ := htalks.leads_over envs
  obtain ⟨hremaining, -, -, hended'⟩ := htalks.run hrest
  obtain ⟨hfinal, -⟩ := (refines_answering _).run (fun _ _ => trivial) htalks hrest
  refine ⟨rest, final, more, hown, hrest, hover, ?_⟩
  rw [hfinal.unanswered_of_over (hended' (hended (by rintro ⟨⟩))) hover, List.append_nil] at hremaining
  rw [List.map_append, hremaining]
  exact hunanswered

theorem can_always_finish_waiting
    : let env := envAt startOfClock
      let hub := Hub.new (.new env.now)
      let id := (Session.new hub.db).1.id
      let input := asBytes "SUBSCRIBE a b\nPING\n"
      let events : List ConversationEvent := [.read, .send, .task (.serve fun _ => env), .read]
      ∃ opened last answers, hub.step .connect = some opened
        ∧ (system id).run events (new opened input) = some (last, answers)
        ∧ ∃ rest final more, (∀ event ∈ rest, Own (fun _ => env) event)
          ∧ (system id).run rest last = some (final, more)
          ∧ final.Over
          ∧ ((answers ++ more).map fun answer => answer.1.tokens) = requestsOf input := by
  intro env hub id input events
  have hopened : hub.step .connect
      = some (hub.update id ⟨(Session.new hub.db).1, [], none⟩ (Session.new hub.db).2) := by
    rfl
  have hrun : ((hub.step .connect).bind fun opened =>
      (system id).run events (new opened input)).isSome = true := by
    decide
  rw [hopened, Option.bind_some] at hrun
  obtain ⟨⟨last, answers⟩, hrun⟩ := Option.isSome_iff_exists.mp hrun
  exact ⟨_, last, answers, hopened, hrun, can_always_finish hopened hrun fun _ => env⟩

end Conversation
end RedisClone
