import RedisClone.Server.Stream

/-!
This module contains the proof that what is published reaches the sockets of the subscribers: each message
once, in the order of publication, and nothing else.
-/

namespace RedisClone

namespace Hub

variable {hub : Hub} {id : UInt64} {connection : Connection}

theorem history_eq (hub : Hub) (connection : Connection)
    : hub.history connection = connection.received ++ hub.queued connection := by
  rfl

/--
A connection that is subscribed to nothing hears nothing of the requests that are dispatched.
-/
theorem history_dispatches (h : hub.Consistent) (hconnection : hub.connections[id]? = some connection)
    (hnone : ∀ channel, connection.subscribed channel = false) (requests : List (Env × List String))
    : let next : Hub := { hub with db := Session.dispatchEnvs requests hub.db }
      next.Consistent ∧ next.history connection = hub.history connection := by
  induction requests generalizing hub with
  | nil => exact ⟨h, rfl⟩
  | cons request requests ih =>
    have hstep : hub.step (.dispatch request.1 request.2)
        = some { hub with db := (RedisClone.dispatch request.1 request.2 hub.db).1 } := by
      rfl
    have hheard : heardAt id hub (.dispatch request.1 request.2) = [] := by
      unfold heardAt
      dsimp only
      split
      . rw [subscribed, hconnection, Option.any_some, hnone]
        rfl
      . rfl
    obtain ⟨hconsistent, hhistory⟩ := ih (step_consistent h hstep) hconnection
    have hone := step_history h hstep hconnection hconnection
    rw [hheard, List.append_nil] at hone
    exact ⟨hconsistent, hhistory.trans hone⟩

end Hub

namespace ConnectionTask

def pushes (task : ConnectionTask) : List String :=
  (task.written.filter Frame.isPush).map Frame.text

/--
The message that an event of the others puts into the mailbox of the connection.
-/
def overheard (id : UInt64) (task : ConnectionTask) : TaskEvent → List String
  | .others event => Hub.heardAt id task.hub event
  | _ => []

/--
The messages the connection has taken out of its mailbox are those it has written.
-/
structure Delivers (id : UInt64) (task : ConnectionTask) (connection : Connection) : Prop where
  consistent : task.hub.Consistent
  serving : task.hub.serving id = some connection
  exclusive : connection.session.Exclusive
  kind : ∀ kind channels, task.serving = some (kind, channels)
    → (kind = "subscribe" ∨ kind = "unsubscribe") ∧ connection.session.transaction = none
  pushes : task.pushes = connection.received
  pending : ∀ frame ∈ task.pending, frame.isPush = false

variable {id : UInt64} {task next : ConnectionTask} {connection : Connection} {event : TaskEvent}

theorem pushes_of_written {frames : List Frame} (h : next.written = task.written ++ frames)
    : next.pushes = task.pushes ++ (frames.filter Frame.isPush).map Frame.text := by
  unfold ConnectionTask.pushes
  rw [h, List.filter_append, List.map_append]

/--
A step that delivers, and adds to the history of the connection what it overhears.
-/
def Kept (id : UInt64) (task : ConnectionTask) (connection : Connection) (event : TaskEvent)
    (next : ConnectionTask) : Prop :=
  ∃ connection', next.Delivers id connection'
    ∧ next.hub.history connection' = task.hub.history connection ++ task.overheard id event

theorem Delivers.begin (h : task.Delivers id connection) {kind : String} {channels : List String}
    (hkind : kind = "subscribe" ∨ kind = "unsubscribe")
    (htransaction : connection.session.transaction = none) (requests : List (List String))
    : { task with requests, serving := some (kind, channels) }.Delivers id connection where
  consistent := h.consistent
  serving := h.serving
  exclusive := h.exclusive
  kind := by
    rintro kind channels ⟨⟩
    exact ⟨hkind, htransaction⟩
  pushes := h.pushes
  pending := h.pending

/--
The connection changes its session by a request without confirmations, and hears nothing of what it publishes
itself.
-/
theorem Delivers.handle (h : task.Delivers id connection) {envs : Nat → Env} {tokens : List String}
    (hconfirms : connection.session.confirms (envs 0) tokens = none)
    : let handled := connection.session.handle envs tokens task.hub.db
      let hub := task.hub.update id { connection with session := handled.1 } handled.2.1
      hub.Consistent ∧ hub.history { connection with session := handled.1 }
        = task.hub.history connection := by
  intro handled hub
  have hserving := Hub.serving_eq_some.mp h.serving
  cases hsubscribed : connection.session.isSubscribed with
  | true =>
    have hsame := Session.handle_of_subscribed hsubscribed (h.exclusive hsubscribed) hconfirms
      task.hub.db
    have hhub : hub = task.hub := by
      unfold hub handled
      rw [hsame.1, hsame.2]
      exact Hub.update_self hserving.1 _
    have hsession : handled.1 = connection.session := hsame.1
    rw [hhub, hsession]
    exact ⟨h.consistent, rfl⟩
  | false =>
    obtain ⟨transaction, dispatched, hsession, hdb⟩ :=
      Session.handle_of_not_confirms hconfirms task.hub.db
    let connection' : Connection :=
      { connection with session := { connection.session with transaction } }
    have hconsistent := Hub.consistent_transact h.consistent h.serving transaction
    have hfound : (task.hub.update id connection' task.hub.db).connections[id]? = some connection' := by
      rw [Hub.getElem?_update, if_pos rfl]
    have hnone : ∀ channel, connection'.subscribed channel = false := by
      intro channel
      have hleaving : connection'.leaving = none := hserving.2
      rw [Hub.subscribed_of_serving hleaving]
      simp only [Session.isSubscribed, Bool.not_eq_false', Std.ExtTreeSet.isEmpty_iff] at hsubscribed
      simp [connection', hsubscribed]
    obtain ⟨hnext, hhistory⟩ := Hub.history_dispatches hconsistent hfound hnone dispatched
    unfold hub handled
    rw [hsession, hdb]
    exact ⟨hnext, hhistory⟩

theorem Delivers.serve (h : task.Delivers id connection) {envs : Nat → Env}
    (hstep : task.step id (.serve envs) = some next)
    : task.Kept id connection (.serve envs) next := by
  simp only [step] at hstep
  split at hstep
  . next tokens requests found hserving hrequests hfound =>
    rw [h.serving] at hfound
    cases hfound
    split at hstep
    . next request hconfirms =>
      cases hstep
      obtain ⟨kind, channels⟩ := request
      have hkind := (Session.handle_of_confirms hconfirms task.hub.db).2.1
      have htransaction := (Session.name_of_confirms hconfirms).1
      exact ⟨connection, h.begin hkind htransaction requests, (List.append_nil _).symm⟩
    . next hconfirms =>
      cases hstep
      obtain ⟨hconsistent, hhistory⟩ := h.handle hconfirms
      let changed : Connection :=
        { connection with session := (connection.session.handle envs tokens task.hub.db).1 }
      refine ⟨changed, ⟨hconsistent, ?_, ?_, ?_, ?_, h.pending⟩, ?_⟩
      . exact Hub.serving_update (Hub.serving_eq_some.mp h.serving).2
      . exact Session.exclusive_handle h.exclusive envs tokens task.hub.db
      . intro kind channels heq
        rw [hserving] at heq
        cases heq
      . rw [@pushes_of_written task _ _ rfl, h.pushes]
        exact List.append_nil _
      . exact hhistory.trans (List.append_nil _).symm
  . cases hstep

/--
A channel of a request in progress is an event of the hub that nobody hears.
-/
theorem step_hub_channel {kind : String} (hkind : kind = "subscribe" ∨ kind = "unsubscribe")
    (hserving : task.hub.serving id = some connection) (channel : String)
    : let changed := Session.oneOf kind channel connection.session task.hub.db
      ∃ event, Hub.heardAt id task.hub event = []
        ∧ task.hub.step event
          = some (task.hub.update id { connection with session := changed.1 } changed.2.1) := by
  rcases hkind with rfl | rfl
  . exact ⟨.subscribe id channel, rfl, Hub.step_subscribe hserving channel⟩
  . exact ⟨.unsubscribe id channel, rfl, Hub.step_unsubscribe hserving channel⟩

theorem Delivers.channel (h : task.Delivers id connection)
    (hstep : task.step id .channel = some next)
    : task.Kept id connection .channel next := by
  simp only [step] at hstep
  split at hstep
  . next kind channel channels found hserving hfound =>
    rw [h.serving] at hfound
    cases hfound
    cases hstep
    obtain ⟨hkind, htransaction⟩ := h.kind kind _ hserving
    obtain ⟨event, hheard, hevent⟩ := step_hub_channel hkind h.serving channel
    have hconnection := Hub.serving_eq_some.mp h.serving
    let changed : Connection :=
      { connection with
        session := (Session.oneOf kind channel connection.session task.hub.db).1 }
    have hsession : changed.session = { connection.session with
        channels := Session.changeOf kind connection.session.channels channel } :=
      Session.oneOf_session hkind channel connection.session task.hub.db
    have hfound : (task.hub.update id changed (Session.oneOf kind channel connection.session
        task.hub.db).2.1).connections[id]? = some changed := by
      rw [Hub.getElem?_update, if_pos rfl]
    refine ⟨changed, ⟨Hub.step_consistent h.consistent hevent, ?_, ?_, ?_, h.pushes, ?_⟩, ?_⟩
    . exact Hub.serving_update hconnection.2
    . rw [hsession]
      exact fun _ => htransaction
    . rintro kind' channels' ⟨⟩
      rw [hsession]
      exact ⟨hkind, htransaction⟩
    . rw [List.forall_mem_append, List.forall_mem_singleton]
      exact ⟨h.pending, rfl⟩
    . have hhistory := Hub.step_history h.consistent hevent hconnection.1 hfound
      rw [hheard] at hhistory
      exact hhistory
  . cases hstep

theorem Delivers.reply (h : task.Delivers id connection) (hstep : task.step id .reply = some next)
    : task.Kept id connection .reply next := by
  simp only [step] at hstep
  split at hstep
  . cases hstep
    refine ⟨connection, ⟨h.consistent, h.serving, h.exclusive, ?_, ?_, ?_⟩, ?_⟩
    . rintro kind channels ⟨⟩
    . have hnone : task.pending.filter Frame.isPush = [] := by
        rw [List.filter_eq_nil_iff]
        intro frame hmem
        simp [h.pending frame hmem]
      rw [@pushes_of_written task _ _ rfl, hnone, h.pushes]
      exact List.append_nil _
    . simp
    . exact (List.append_nil _).symm
  . cases hstep

theorem Delivers.receive (h : task.Delivers id connection)
    (hstep : task.step id .receive = some next)
    : task.Kept id connection .receive next := by
  simp only [step] at hstep
  split at hstep
  . next found hserving hfound =>
    rw [h.serving] at hfound
    cases hfound
    rw [Option.map_eq_some_iff] at hstep
    obtain ⟨⟨message, pubsub⟩, hrecv, rfl⟩ := hstep
    have hconnection := Hub.serving_eq_some.mp h.serving
    have hchanges := Hub.changes_receive hconnection.1 hrecv
    let changed : Connection := { connection with received := connection.received ++ [message] }
    refine ⟨changed, ⟨Hub.consistent_receive h.consistent h.serving hrecv, ?_, h.exclusive, ?_, ?_,
      h.pending⟩, ?_⟩
    . exact Hub.serving_update hconnection.2
    . intro kind channels heq
      rw [hserving] at heq
      cases heq
    . rw [@pushes_of_written task _ _ rfl, h.pushes]
      rfl
    . exact hchanges.history.trans (List.append_nil _).symm
  . cases hstep

theorem Delivers.others (h : task.Delivers id connection) {event : HubEvent}
    (hstep : task.step id (.others event) = some next)
    : task.Kept id connection (.others event) next := by
  simp only [step, Option.ite_none_left_eq_some, Option.map_eq_some_iff] at hstep
  obtain ⟨hconcerns, hub, hhub, rfl⟩ := hstep
  have hserving := Hub.serving_eq_some.mp h.serving
  have hconnection := Hub.connections_of_others (by simpa using hconcerns) hserving.1 hhub
  refine ⟨connection, ⟨Hub.step_consistent h.consistent hhub, ?_, h.exclusive, h.kind, h.pushes,
    h.pending⟩, ?_⟩
  . exact Hub.serving_eq_some.mpr ⟨hconnection, hserving.2⟩
  . exact Hub.step_history h.consistent hhub hserving.1 hconnection

theorem Delivers.step (h : task.Delivers id connection) (hstep : task.step id event = some next)
    : task.Kept id connection event next := by
  cases event with
  | arrive tokens =>
    cases hstep
    refine ⟨connection, ⟨h.consistent, h.serving, h.exclusive, h.kind, h.pushes, h.pending⟩, ?_⟩
    exact (List.append_nil _).symm
  | others event => exact h.others hstep
  | serve envs => exact h.serve hstep
  | channel => exact h.channel hstep
  | reply => exact h.reply hstep
  | receive => exact h.receive hstep

end ConnectionTask

namespace Conversation

variable {id : UInt64} {self next last : Conversation} {connection : Connection}
  {event : ConversationEvent} {events : List ConversationEvent} {answer : Option (Call × String)}
  {answers : List (Call × String)}

def overheardAt (id : UInt64) (self : Conversation) (event : ConversationEvent) : List String :=
  ((self.taskEvent event).map (self.task.overheard id)).getD []

/--
The messages published during a run by others on channels that the connection was then subscribed to.
-/
def overheard (id : UInt64) : List ConversationEvent → Conversation → List String
  | [], _ => []
  | event :: events, self =>
    self.overheardAt id event
      ++ ((step id self event).map fun next => overheard id events next.1).getD []

/--
Every step but those of other connections.
-/
def Quiet (event : ConversationEvent) : Prop := ∀ other, event ≠ .task (.others other)

theorem overheardAt_of_quiet (h : Quiet event) (self : Conversation) : self.overheardAt id event = [] := by
  cases event with
  | read => rfl
  | send =>
    unfold overheardAt taskEvent
    cases self.inHand <;> rfl
  | task event =>
    cases event with
    | others other => exact absurd rfl (h other)
    | arrive | serve | channel | reply | receive => rfl

theorem overheard_of_quiet (h : ∀ event ∈ events, Quiet event) (self : Conversation)
    : overheard id events self = [] := by
  induction events generalizing self with
  | nil => rfl
  | cons event events ih =>
    rw [List.forall_mem_cons] at h
    rw [overheard, overheardAt_of_quiet h.1, List.nil_append]
    cases step id self event with
    | none => rfl
    | some next => exact ih h.2 next.1

theorem delivers_step (h : self.task.Delivers id connection)
    (hstep : step id self event = some (next, answer))
    : ∃ connection', next.task.Delivers id connection'
        ∧ next.task.hub.history connection'
          = self.task.hub.history connection ++ self.overheardAt id event := by
  unfold overheardAt
  rcases task_of_step hstep with ⟨hevent, hsame⟩ | ⟨event', hevent, htask⟩
  . rw [hevent, hsame]
    exact ⟨connection, h, (List.append_nil _).symm⟩
  . rw [hevent]
    exact h.step htask

theorem delivers_run (h : self.task.Delivers id connection)
    (hrun : (system id).run events self = some (last, answers))
    : ∃ connection', last.task.Delivers id connection'
        ∧ last.task.hub.history connection'
          = self.task.hub.history connection ++ overheard id events self := by
  induction events generalizing self connection answers with
  | nil =>
    cases hrun
    exact ⟨connection, h, (List.append_nil _).symm⟩
  | cons event events ih =>
    obtain ⟨next, answer, rest, hstep, hrest, -⟩ := Linearize.System.run_cons hrun
    have hnext : step id self event = some (next, answer) := hstep
    obtain ⟨between, hbetween, hhistory⟩ := delivers_step h hnext
    obtain ⟨connection', hlast, hhistory'⟩ := ih hbetween hrest
    refine ⟨connection', hlast, ?_⟩
    rw [hhistory', hhistory, overheard, hnext, List.append_assoc]
    rfl

theorem delivers_leads (h : self.task.Delivers id connection)
    (hleads : (system id).Leads Quiet self last)
    : ∃ connection', last.task.Delivers id connection'
        ∧ last.task.hub.history connection' = self.task.hub.history connection := by
  obtain ⟨events, answers, hquiet, hrun⟩ := hleads
  obtain ⟨connection', hlast, hhistory⟩ := delivers_run h hrun
  rw [overheard_of_quiet hquiet, List.append_nil] at hhistory
  exact ⟨connection', hlast, hhistory⟩

theorem delivers_new {hub opened : Hub} (h : hub.Consistent) (hopened : hub.step .connect = some opened)
    (input : List UInt8)
    : ∃ connection, (new opened input).task.Delivers (Session.new hub.db).1.id connection
        ∧ opened.history connection = [] := by
  have hconsistent := Hub.step_consistent h hopened
  simp only [Hub.step] at hopened
  split at hopened
  . cases hopened
    refine ⟨⟨(Session.new hub.db).1, [], none⟩, ⟨hconsistent, Hub.serving_update rfl, ?_, ?_, rfl, ?_⟩, ?_⟩
    . exact Session.exclusive_new hub.db
    . rintro kind channels ⟨⟩
    . simp [new, ConnectionTask.new]
    . have hempty : (Session.new hub.db).2.pubsub.mailboxes
          = hub.db.pubsub.mailboxes.insert (Session.new hub.db).1.mailbox [] := rfl
      simp [Hub.history, Hub.update, hempty]
  . cases hopened

theorem step_receive {message : String} {queued : List String}
    (hconnected : self.task.hub.serving id = some connection) (hidle : self.task.serving = none)
    (hqueued : self.task.hub.queued connection = message :: queued)
    : ∃ task, self.task.step id .receive = some task ∧ task.serving = self.task.serving
        ∧ task.written = self.task.written ++ [.push message] := by
  have hmailbox : self.task.hub.db.pubsub.mailboxes[connection.session.mailbox]?
      = some (message :: queued) := by
    unfold Hub.queued at hqueued
    cases hfound : self.task.hub.db.pubsub.mailboxes[connection.session.mailbox]? with
    | none =>
      rw [hfound] at hqueued
      cases hqueued
    | some found =>
      rw [hfound, Option.getD_some] at hqueued
      rw [hqueued]
  simp only [ConnectionTask.step, hidle, hconnected, PubSub.recv, hmailbox]
  exact ⟨_, rfl, rfl, rfl⟩

/--
Between two requests the task can empty its mailbox, by induction on what is in there.
-/
theorem leads_emptied (h : self.task.Delivers id connection) (hidle : self.task.serving = none)
    : ∃ last, (system id).Leads Quiet self last
        ∧ ∀ connection', last.task.hub.serving id = some connection'
          → last.task.hub.queued connection' = [] := by
  generalize hqueued : self.task.hub.queued connection = queued
  induction queued generalizing self connection with
  | nil =>
    refine ⟨self, .refl self, ?_⟩
    intro connection' hserving
    rw [h.serving] at hserving
    cases hserving
    exact hqueued
  | cons message queued ih =>
    obtain ⟨task, htask, hserving, hwritten⟩ := step_receive h.serving hidle hqueued
    have hstep : step id self (.task .receive) = some ({ self with task }, none) := by
      exact congrArg (Option.map _) htask
    have hquiet : Quiet (.task .receive) := by
      rintro other ⟨⟩
    obtain ⟨between, hbetween, hhistory⟩ := delivers_step h hstep
    have hrest : task.hub.queued between = queued := by
      have hreceived : between.received = connection.received ++ [message] := by
        rw [← hbetween.pushes, ConnectionTask.pushes_of_written hwritten, h.pushes]
        rfl
      rw [overheardAt_of_quiet hquiet, List.append_nil, Hub.history_eq, Hub.history_eq, hqueued,
        hreceived, List.append_assoc] at hhistory
      exact List.append_cancel_left (List.append_cancel_left hhistory)
    obtain ⟨last, hleads, hlast⟩ := ih hbetween (hserving.trans hidle) hrest
    exact ⟨last, .cons hquiet hstep hleads, hlast⟩

/--
What is published reaches the socket. The messages that a connection has written, and then those in its
mailbox, are the ones that others published on the channels it was subscribed to at that time, each once and
in the order of publication. Without any other connection it can always come to write all of them.
-/
theorem pushes_are_published {hub opened : Hub} (hreachable : hub.Reachable) {input : List UInt8}
    {events : List ConversationEvent} {last : Conversation} {answers : List (Call × String)}
    (hopened : hub.step .connect = some opened)
    (hrun : (system (Session.new hub.db).1.id).run events (new opened input) = some (last, answers))
    : let id := (Session.new hub.db).1.id
      let published := overheard id events (new opened input)
      (∃ connection, last.task.hub.serving id = some connection
        ∧ last.task.pushes ++ last.task.hub.queued connection = published)
        ∧
      ∃ drained, (system id).Leads Quiet last drained ∧ drained.task.pushes = published := by
  intro id published
  obtain ⟨connection, hnew, hempty⟩ :=
    delivers_new (Hub.consistent_of_reachable hreachable) hopened input
  obtain ⟨connection', hlast, hhistory⟩ := delivers_run hnew hrun
  have hstart : (new opened input).task.hub.history connection = [] := hempty
  rw [hstart, List.nil_append] at hhistory
  constructor
  . refine ⟨connection', hlast.serving, ?_⟩
    rw [hlast.pushes]
    exact hhistory
  . obtain ⟨htalks, -⟩ := (refines_answering id).run (fun _ _ => trivial) (talks_new hopened input) hrun
    let env := envAt hub.db.startedAt
    obtain ⟨idle, hlater, hidle, -⟩ := htalks.later_idle fun _ => env
    have hquiet : (system id).Leads Quiet last idle := by
      apply hlater.leads.mono
      rintro event hown other rfl
      exact hown
    obtain ⟨between, hbetween, hsame⟩ := delivers_leads hlast hquiet
    obtain ⟨drained, hleads, hqueued⟩ := leads_emptied hbetween hidle
    obtain ⟨final, hfinal, hsame'⟩ := delivers_leads hbetween hleads
    refine ⟨drained, hquiet.trans hleads, ?_⟩
    rw [Hub.history_eq, hqueued final hfinal.serving, List.append_nil] at hsame'
    rw [hfinal.pushes, hsame', hsame, hhistory]

/--
Three publications reach a subscriber of the channel of two of them, and one of these waits in the mailbox.
-/
theorem pushes_are_published_waiting
    : let env := envAt startOfClock
      let hub := Hub.new (.new env.now)
      let id := (Session.new hub.db).1.id
      let input := asBytes "SUBSCRIBE a\n"
      let publish : String → String → ConversationEvent :=
        fun channel payload => .task (.others (.dispatch env ["PUBLISH", channel, payload]))
      let events : List ConversationEvent :=
        [.read, .send, publish "a" "early", .task (.serve fun _ => env), .task .channel,
          publish "a" "hello", publish "b" "x", .task .reply, .task .receive, publish "a" "bye"]
      ∃ opened last answers, hub.step .connect = some opened
        ∧ (system id).run events (new opened input) = some (last, answers)
        ∧ last.task.pushes = [PubSub.message "a" "hello"]
        ∧ overheard id events (new opened input)
          = [PubSub.message "a" "hello", PubSub.message "a" "bye"]
        ∧ ∃ drained, (system id).Leads Quiet last drained
          ∧ drained.task.pushes = overheard id events (new opened input) := by
  intro env hub id input publish events
  have hreachable : hub.Reachable := ⟨_, [], rfl, rfl⟩
  have hopened : hub.step .connect
      = some (hub.update id ⟨(Session.new hub.db).1, [], none⟩ (Session.new hub.db).2) := by
    rfl
  have hrun : (((hub.step .connect).bind fun opened => (system id).run events (new opened input)).any
      fun run => run.1.task.pushes == [PubSub.message "a" "hello"]) = true := by
    decide
  have hpublished : ((hub.step .connect).map fun opened => overheard id events (new opened input))
      = some [PubSub.message "a" "hello", PubSub.message "a" "bye"] := by
    decide
  rw [hopened, Option.bind_some, Option.any_eq_true] at hrun
  obtain ⟨⟨last, answers⟩, hrun, hpushes⟩ := hrun
  rw [hopened, Option.map_some, Option.some.injEq] at hpublished
  have hdrained := (pushes_are_published hreachable hopened hrun).2
  exact ⟨_, last, answers, hopened, hrun, beq_iff_eq.mp hpushes, hpublished, hdrained⟩

end Conversation
end RedisClone
