import RedisClone.Hub.Mailboxes

/-!
This module contains the loop that accepts connections and the tasks it spawns. A task counts its client,
opens a session, ends it and counts the client out again; the tasks interleave at these points.
-/

namespace RedisClone

/--
How far a spawned task is: it has not begun, its client is counted, it handles the connection of a session,
the connection has ended, and its client is not counted any more.
-/
inductive ClientTask where
  | spawned
  | connected
  | handling (id : UInt64)
  | ended
  | done
deriving DecidableEq

def ClientTask.isCounted : ClientTask → Bool
  | .spawned | .done => false
  | .connected | .handling _ | .ended => true

structure AcceptLoop where
  hub : Hub
  accepting : Bool
  tasks : List ClientTask

/--
What can happen next. The steps of the sessions themselves are those of the hub, but for the opening and
the end of a session.
-/
inductive AcceptEvent where
  | accept
  | shutdown
  | clientConnected (task : Nat)
  | handleConnection (task : Nat)
  | session (event : HubEvent)
  | connectionEnded (task : Nat)
  | clientDisconnected (task : Nat)

def HubEvent.isWithin : HubEvent → Bool
  | .connect | .close _ => false
  | _ => true

theorem dispatch_connectedClients (env : Env) (tokens : List String) (db : Database)
    : (dispatch env tokens db).1.connectedClients = db.connectedClients := by
  rcases command_or_rejected tokens with ⟨command, hparse⟩ | ⟨-, hrejected⟩
  . have hlog : ∀ (db : Database) entry,
        (db.logOptional entry).connectedClients = db.connectedClients := by
      intro db entry
      cases entry with
      | none => rfl
      | some entry =>
        simp only [Database.logOptional, Database.logWrite]
        split <;> rfl
    rw [dispatch_of_parse_ok hparse, hlog, execute_frame]
  . rw [hrejected]

namespace Hub

variable {hub hub' : Hub}

/--
A step that opens and ends no session: nobody is counted, and every mailbox stays with its session.
-/
structure Within (hub hub' : Hub) : Prop where
  clients : hub'.db.connectedClients = hub.db.connectedClients
  sessions : ∀ id : UInt64, hub'.connections[id]?.map (fun connection => connection.session.mailbox)
    = hub.connections[id]?.map fun connection => connection.session.mailbox
  mailboxes : ∀ mailbox : Mailbox, hub'.db.pubsub.mailboxes[mailbox]?.isSome
    = hub.db.pubsub.mailboxes[mailbox]?.isSome

theorem within_update {id : UInt64} {connection connection' : Connection} {db : Database}
    (hconnection : hub.connections[id]? = some connection)
    (hmailbox : connection'.session.mailbox = connection.session.mailbox)
    (hclients : db.connectedClients = hub.db.connectedClients)
    (hmailboxes : ∀ mailbox : Mailbox, db.pubsub.mailboxes[mailbox]?.isSome
      = hub.db.pubsub.mailboxes[mailbox]?.isSome)
    : hub.Within (hub.update id connection' db) where
  clients := hclients
  mailboxes := hmailboxes
  sessions id' := by
    rw [getElem?_update]
    split
    . next heq =>
      rw [← heq, hconnection, Option.map_some, Option.map_some, hmailbox]
    . rfl

theorem step_within {event : HubEvent} (hwithin : event.isWithin = true)
    (hstep : hub.step event = some hub')
    : hub.Within hub' := by
  cases event with
  | connect => cases hwithin
  | close id => cases hwithin
  | subscribe id channel =>
    simp only [step, Option.map_eq_some_iff, serving_eq_some] at hstep
    obtain ⟨connection, hconnection, rfl⟩ := hstep
    obtain ⟨hmailbox, hclients, hmailboxes⟩ :=
      Session.subscribeOne_keeps channel connection.session hub.db
    apply within_update hconnection.1 hmailbox hclients
    intro mailbox
    rw [hmailboxes]
  | unsubscribe id channel =>
    simp only [step, Option.map_eq_some_iff, serving_eq_some] at hstep
    obtain ⟨connection, hconnection, rfl⟩ := hstep
    obtain ⟨hmailbox, hclients, hmailboxes⟩ :=
      Session.unsubscribeOne_keeps channel connection.session hub.db
    apply within_update hconnection.1 hmailbox hclients
    intro mailbox
    rw [hmailboxes]
  | transact id transaction =>
    simp only [step, Option.map_eq_some_iff, serving_eq_some] at hstep
    obtain ⟨connection, hconnection, rfl⟩ := hstep
    exact within_update hconnection.1 rfl rfl fun _ => rfl
  | dispatch env tokens =>
    cases hstep
    constructor
    . exact dispatch_connectedClients env tokens hub.db
    . exact fun _ => rfl
    . intro mailbox
      dsimp only
      rw [dispatch_pubsub]
      split
      . exact PubSub.isSome_mailboxes_publish _ _ _ _
      . rfl
  | receive id =>
    simp only [step, Option.bind_eq_some_iff, Option.map_eq_some_iff, serving_eq_some] at hstep
    obtain ⟨connection, hconnection, ⟨message, pubsub⟩, hrecv, rfl⟩ := hstep
    exact within_update hconnection.1 rfl rfl (PubSub.isSome_mailboxes_recv hrecv)
  | hangUp id =>
    simp only [step, Option.map_eq_some_iff, serving_eq_some] at hstep
    obtain ⟨connection, hconnection, rfl⟩ := hstep
    exact within_update hconnection.1 rfl rfl fun _ => rfl
  | leave id =>
    simp only [step] at hstep
    split at hstep
    . next hconnection =>
      cases hstep
      apply within_update hconnection
      . rfl
      . rfl
      . intro mailbox
        exact congrArg (fun mailboxes => mailboxes[mailbox]?.isSome) PubSub.mailboxes_unsubscribe
    . cases hstep

end Hub

namespace AcceptLoop

def new (db : Database) : AcceptLoop := ⟨.new db, true, []⟩

def step (self : AcceptLoop) : AcceptEvent → Option AcceptLoop
  | .accept =>
    if self.accepting then
      some { self with tasks := self.tasks ++ [.spawned] }
    else
      none
  | .shutdown => if self.accepting then some { self with accepting := false } else none
  | .clientConnected task =>
    if self.tasks[task]? = some .spawned then
      some
        { self with
          hub := { self.hub with db := self.hub.db.clientConnected.1 }
          tasks := self.tasks.set task .connected }
    else
      none
  | .handleConnection task =>
    if self.tasks[task]? = some .connected then
      (self.hub.step .connect).map fun hub =>
        { self with hub, tasks := self.tasks.set task (.handling (Session.new self.hub.db).1.id) }
    else
      none
  | .session event =>
    if event.isWithin then (self.hub.step event).map fun hub => { self with hub } else none
  | .connectionEnded task =>
    match self.tasks[task]? with
    | some (.handling id) =>
      (self.hub.step (.close id)).map fun hub =>
        { self with hub, tasks := self.tasks.set task .ended }
    | _ => none
  | .clientDisconnected task =>
    if self.tasks[task]? = some .ended then
      some
        { self with
          hub := { self.hub with db := self.hub.db.clientDisconnected }
          tasks := self.tasks.set task .done }
    else
      none

def run : List AcceptEvent → AcceptLoop → Option AcceptLoop
  | [], self => some self
  | event :: events, self => (self.step event).bind (run events)

/--
The clients that are counted are those of the tasks between their begin and their end, and each session of
the hub is handled by one task.
-/
structure Sound (loop : AcceptLoop) : Prop where
  consistent : loop.hub.Consistent
  owned : ∀ mailbox : Mailbox, loop.hub.db.pubsub.mailboxes[mailbox]?.isSome
    → ∃ id : UInt64,
      loop.hub.connections[id]?.map (fun connection => connection.session.mailbox) = some mailbox
  counted : loop.hub.db.connectedClients = loop.tasks.countP ClientTask.isCounted
  handled : ∀ id : UInt64, loop.tasks.count (.handling id)
    = if loop.hub.connections[id]?.isSome then 1 else 0

variable {self next : AcceptLoop} {task : Nat}

theorem sound_new {db : Database} (hpubsub : db.pubsub = .new) (hclients : db.connectedClients = 0)
    : (new db).Sound where
  consistent := Hub.consistent_new hpubsub
  owned mailbox h := by
    simp [new, Hub.new, hpubsub, PubSub.new] at h
  counted := hclients
  handled id := by
    simp [new, Hub.new]

/--
Exchanging one task for another one, what is counted changes by these two only.
-/
theorem countP_set_task {tasks : List ClientTask} {old : ClientTask} (h : tasks[task]? = some old)
    (new : ClientTask) (p : ClientTask → Bool)
    : (tasks.set task new).countP p + (if p old then 1 else 0)
        =
      tasks.countP p + if p new then 1 else 0 := by
  obtain ⟨hlt, hget⟩ := List.getElem?_eq_some_iff.mp h
  rw [List.countP_set hlt, hget]
  have hpos : p old = true → 0 < tasks.countP p := by
    intro hold
    rw [List.countP_pos_iff]
    exact ⟨old, List.mem_of_getElem? h, hold⟩
  cases hold : p old with
  | true =>
    have hle := hpos hold
    simp only [if_true]
    omega
  | false => simp

theorem count_set_task {tasks : List ClientTask} {old : ClientTask} (h : tasks[task]? = some old)
    (new counted : ClientTask)
    : (tasks.set task new).count counted + (if old == counted then 1 else 0)
        =
      tasks.count counted + if new == counted then 1 else 0 := by
  exact countP_set_task h new (· == counted)

/--
A task goes on, with a hub that has the same sessions and mailboxes.
-/
theorem Sound.set {hub : Hub} {old new : ClientTask} (h : self.Sound)
    (hold : self.tasks[task]? = some old) (hconnections : hub.connections = self.hub.connections)
    (hpubsub : hub.db.pubsub = self.hub.db.pubsub)
    (hclients : hub.db.connectedClients + (if old.isCounted then 1 else 0)
      = self.hub.db.connectedClients + if new.isCounted then 1 else 0)
    (hneither : ∀ id, old ≠ .handling id ∧ new ≠ .handling id)
    : Sound { self with hub, tasks := self.tasks.set task new } := by
  obtain ⟨⟨db, connections⟩, accepting, tasks⟩ := self
  obtain ⟨db', connections'⟩ := hub
  dsimp only at hconnections hpubsub hclients hold
  subst hconnections
  constructor
  . obtain ⟨hregistered, hpruned, hids, hopened, hdistinct, hfresh, hleaving⟩ := h.consistent
    dsimp only at hregistered hpruned hids hopened hdistinct hfresh hleaving
    rw [← hpubsub] at hregistered hpruned hopened hfresh
    exact ⟨hregistered, hpruned, hids, hopened, hdistinct, hfresh, hleaving⟩
  . dsimp only
    rw [hpubsub]
    exact h.owned
  . have hcounted := h.counted
    have hset := countP_set_task hold new ClientTask.isCounted
    dsimp only at hcounted ⊢
    omega
  . intro id
    have hset := count_set_task hold new (.handling id)
    have hhandled := h.handled id
    rw [if_neg (by simpa using (hneither id).1), if_neg (by simpa using (hneither id).2)] at hset
    dsimp only at hhandled ⊢
    omega

theorem Sound.connect {hub : Hub} (h : self.Sound) (hold : self.tasks[task]? = some .connected)
    (hstep : self.hub.step .connect = some hub)
    : Sound
        { self with
          hub, tasks := self.tasks.set task (.handling (Session.new self.hub.db).1.id) } := by
  have hconsistent := Hub.step_consistent h.consistent hstep
  simp only [Hub.step] at hstep
  split at hstep
  . next hnone =>
    cases hstep
    constructor
    . exact hconsistent
    . intro mailbox hmailbox
      by_cases hnew : mailbox = (Session.new self.hub.db).1.mailbox
      . refine ⟨(Session.new self.hub.db).1.id, ?_⟩
        dsimp only
        rw [Hub.getElem?_update, if_pos rfl, hnew]
        rfl
      . have hmailbox : (self.hub.db.pubsub.mailboxes.insert self.hub.db.pubsub.nextMailbox
            [])[mailbox]?.isSome := hmailbox
        have hother : ¬ compare self.hub.db.pubsub.nextMailbox mailbox = .eq := by
          rw [Std.LawfulEqCmp.compare_eq_iff_eq]
          exact fun heq => hnew heq.symm
        rw [Std.ExtTreeMap.getElem?_insert, if_neg hother] at hmailbox
        obtain ⟨id, hid⟩ := h.owned mailbox hmailbox
        refine ⟨id, ?_⟩
        dsimp only
        rw [Hub.getElem?_update, if_neg]
        . exact hid
        . rintro rfl
          rw [hnone] at hid
          cases hid
    . have hset := countP_set_task hold (.handling (Session.new self.hub.db).1.id)
        ClientTask.isCounted
      exact h.counted.trans (Nat.add_right_cancel hset).symm
    . intro id
      have hset := count_set_task hold (.handling (Session.new self.hub.db).1.id) (.handling id)
      have hhandled := h.handled id
      rw [if_neg (by simp)] at hset
      dsimp only
      rw [Hub.getElem?_update]
      by_cases hid : (Session.new self.hub.db).1.id = id
      . subst hid
        rw [hnone] at hhandled
        rw [if_pos (by simp)] at hset
        rw [if_pos rfl]
        simpa [hhandled] using hset
      . rw [if_neg (by simpa using hid)] at hset
        rw [if_neg hid]
        simpa [hhandled] using hset
  . cases hstep

theorem Sound.close {hub : Hub} {id : UInt64} (h : self.Sound)
    (hold : self.tasks[task]? = some (.handling id))
    (hstep : self.hub.step (.close id) = some hub)
    : Sound { self with hub, tasks := self.tasks.set task .ended } := by
  have hconsistent := Hub.step_consistent h.consistent hstep
  simp only [Hub.step] at hstep
  split at hstep
  . next session received hconnection =>
    cases hstep
    constructor
    . exact hconsistent
    . intro mailbox hmailbox
      have hmailbox : (self.hub.db.pubsub.mailboxes.erase session.mailbox)[mailbox]?.isSome :=
        hmailbox
      rw [Std.ExtTreeMap.getElem?_erase] at hmailbox
      split at hmailbox
      . cases hmailbox
      . next hother =>
        rw [Std.LawfulEqCmp.compare_eq_iff_eq] at hother
        obtain ⟨id', hid'⟩ := h.owned mailbox hmailbox
        refine ⟨id', ?_⟩
        have hne : ¬ compare id id' = .eq := by
          rw [Std.LawfulEqCmp.compare_eq_iff_eq]
          rintro rfl
          rw [hconnection] at hid'
          exact hother (Option.some.inj hid')
        dsimp only
        rw [Std.ExtTreeMap.getElem?_erase, if_neg hne]
        exact hid'
    . have hset := countP_set_task hold .ended ClientTask.isCounted
      exact h.counted.trans (Nat.add_right_cancel hset).symm
    . intro id'
      have hset := count_set_task hold .ended (.handling id')
      have hhandled := h.handled id'
      dsimp only
      rw [Std.ExtTreeMap.getElem?_erase]
      by_cases hid : id = id'
      . subst hid
        rw [hconnection] at hhandled
        rw [if_pos (by simp)] at hset
        simpa [hhandled] using hset
      . have hne : ¬ compare id id' = .eq := by
          rwa [Std.LawfulEqCmp.compare_eq_iff_eq]
        rw [if_neg (by simpa using hid)] at hset
        rw [if_neg hne]
        simpa [hhandled] using hset
  . cases hstep

theorem Sound.step {event : AcceptEvent} (h : self.Sound) (hstep : self.step event = some next)
    : next.Sound := by
  cases event with
  | accept =>
    simp only [AcceptLoop.step, Option.ite_none_right_eq_some] at hstep
    obtain ⟨-, hstep⟩ := hstep
    cases hstep
    constructor
    . exact h.consistent
    . exact h.owned
    . rw [List.countP_append]
      exact h.counted
    . intro id
      rw [List.count_append]
      exact h.handled id
  | shutdown =>
    simp only [AcceptLoop.step, Option.ite_none_right_eq_some] at hstep
    obtain ⟨-, hstep⟩ := hstep
    cases hstep
    exact ⟨h.consistent, h.owned, h.counted, h.handled⟩
  | clientConnected task =>
    simp only [AcceptLoop.step, Option.ite_none_right_eq_some] at hstep
    obtain ⟨hold, hstep⟩ := hstep
    cases hstep
    exact h.set hold rfl rfl rfl fun _ => ⟨by simp, by simp⟩
  | handleConnection task =>
    simp only [AcceptLoop.step, Option.ite_none_right_eq_some, Option.map_eq_some_iff] at hstep
    obtain ⟨hold, hub, hconnect, rfl⟩ := hstep
    exact h.connect hold hconnect
  | session event =>
    simp only [AcceptLoop.step, Option.ite_none_right_eq_some, Option.map_eq_some_iff] at hstep
    obtain ⟨hwithin, hub, hstep, rfl⟩ := hstep
    have hsame := Hub.step_within hwithin hstep
    constructor
    . exact Hub.step_consistent h.consistent hstep
    . intro mailbox hmailbox
      dsimp only at hmailbox ⊢
      rw [hsame.mailboxes] at hmailbox
      obtain ⟨id, hid⟩ := h.owned mailbox hmailbox
      exact ⟨id, (hsame.sessions id).trans hid⟩
    . exact hsame.clients.trans h.counted
    . intro id
      have hsessions := congrArg Option.isSome (hsame.sessions id)
      rw [Option.isSome_map, Option.isSome_map] at hsessions
      dsimp only
      rw [hsessions]
      exact h.handled id
  | connectionEnded task =>
    simp only [AcceptLoop.step] at hstep
    split at hstep
    . next id hold =>
      rw [Option.map_eq_some_iff] at hstep
      obtain ⟨hub, hclose, rfl⟩ := hstep
      exact h.close hold hclose
    . cases hstep
  | clientDisconnected task =>
    simp only [AcceptLoop.step, Option.ite_none_right_eq_some] at hstep
    obtain ⟨hold, hstep⟩ := hstep
    cases hstep
    refine h.set hold rfl rfl ?_ fun _ => ⟨by simp, by simp⟩
    have hpos : 0 < self.hub.db.connectedClients := by
      rw [h.counted, List.countP_pos_iff]
      exact ⟨_, List.mem_of_getElem? hold, rfl⟩
    exact Nat.sub_add_cancel hpos

theorem Sound.run {events : List AcceptEvent} (h : self.Sound) (hrun : run events self = some next)
    : next.Sound := by
  induction events generalizing self with
  | nil =>
    cases hrun
    exact h
  | cons event events ih =>
    rw [AcceptLoop.run, Option.bind_eq_some_iff] at hrun
    obtain ⟨between, hstep, hrun⟩ := hrun
    exact ih (h.step hstep) hrun

/--
The number of clients `INFO` reports.
-/
theorem info_clients (now : Instant) (db : Database)
    : ∃ before after, db.info now
        = before ++ "connected_clients:" ++ toString db.connectedClients ++ "\r\n" ++ after := by
  refine ⟨"# Server\r\nserver_name:redis_clone\r\nuptime_in_seconds:"
      ++ toString (now.secsSince db.startedAt) ++ "\r\n\r\n# Clients\r\n",
    "\r\n# Keyspace\r\nkeys:" ++ toString (Db.dbsize now db.store) ++ "\r\n", ?_⟩
  unfold Database.info
  simp only [String.append_assoc]
  rfl

/--
The server counts its clients exactly and leaks nothing. However the tasks of the connections interleave,
the counter is the number of tasks that have counted their client in and not out, it never goes below zero,
`INFO` reports it, and every open session is handled by exactly one task. Once no task is under way, the
counter is zero and the hub has no session, no channel and no mailbox left.
-/
theorem nothing_leaks {db : Database} (hpubsub : db.pubsub = .new) (hclients : db.connectedClients = 0)
    {events : List AcceptEvent} (hrun : run events (new db) = some self)
    : let counted := self.tasks.countP ClientTask.isCounted
      self.hub.db.connectedClients = counted
        ∧ (∀ task next, self.step (.clientDisconnected task) = some next → 0 < counted)
        ∧ (∀ now, ∃ before after, self.hub.db.info now
          = before ++ "connected_clients:" ++ toString counted ++ "\r\n" ++ after)
        ∧ (∀ id, self.hub.connections[id]?.isSome → self.tasks.count (.handling id) = 1)
        ∧ (counted = 0 → self.hub.connections = ∅ ∧ self.hub.db.pubsub.channels = ∅
          ∧ self.hub.db.pubsub.mailboxes = ∅) := by
  intro counted
  have h := (sound_new hpubsub hclients).run hrun
  refine ⟨h.counted, ?_, ?_, ?_, ?_⟩
  . intro task next hstep
    simp only [AcceptLoop.step, Option.ite_none_right_eq_some] at hstep
    exact List.countP_pos_iff.mpr ⟨_, List.mem_of_getElem? hstep.1, rfl⟩
  . intro now
    have hinfo := info_clients now self.hub.db
    rwa [h.counted] at hinfo
  . intro id hid
    rw [h.handled id, if_pos hid]
  . intro hnobody
    have hsessions : ∀ id : UInt64, self.hub.connections[id]? = none := by
      intro id
      have hhandled := h.handled id
      have hzero : self.tasks.count (.handling id) = 0 := by
        rw [List.count_eq_zero]
        intro hmem
        have hpos := List.countP_eq_zero.mp hnobody _ hmem
        exact hpos rfl
      rw [hzero] at hhandled
      split at hhandled
      . cases hhandled
      . next hnone => simpa using hnone
    refine ⟨?_, ?_, ?_⟩
    . apply Std.ExtTreeMap.ext_getElem?
      intro id
      rw [hsessions id]
      rfl
    . apply Std.ExtTreeMap.ext_getElem?
      intro channel
      cases hchannel : self.hub.db.pubsub.channels[channel]? with
      | none => rfl
      | some subscribers =>
        have hempty : subscribers = ∅ := by
          apply Std.ExtTreeMap.ext_getElem?
          intro id
          have hnone := h.consistent.lookup_none (hsessions id) channel
          rw [PubSub.lookup, hchannel] at hnone
          exact hnone
        have hpruned := h.consistent.pruned channel subscribers hchannel
        rw [hempty] at hpruned
        cases hpruned
    . apply Std.ExtTreeMap.ext_getElem?
      intro mailbox
      cases hmailbox : self.hub.db.pubsub.mailboxes[mailbox]? with
      | none => rfl
      | some queue =>
        obtain ⟨id, hid⟩ := h.owned mailbox (by rw [hmailbox]; rfl)
        rw [hsessions id] at hid
        cases hid

/--
A client that subscribes and hangs up, while another one is still connected.
-/
theorem nothing_leaks_two
    : let db := Database.new startOfClock
      let events : List AcceptEvent :=
        [.accept, .accept, .clientConnected 0, .handleConnection 0, .clientConnected 1,
          .session (.subscribe 0 "news"), .session (.hangUp 0), .handleConnection 1, .shutdown,
          .session (.leave 0), .connectionEnded 0, .clientDisconnected 0, .session (.hangUp 1),
          .connectionEnded 1, .clientDisconnected 1]
      ∃ last, run events (new db) = some last
        ∧ last.hub.connections = ∅ ∧ last.hub.db.pubsub.channels = ∅
        ∧ last.hub.db.pubsub.mailboxes = ∅ := by
  intro db events
  have hrun : (run events (new db)).any
      (fun last => last.tasks.countP ClientTask.isCounted == 0) = true := by
    decide
  rw [Option.any_eq_true] at hrun
  obtain ⟨last, hrun, hnobody⟩ := hrun
  obtain ⟨-, -, -, -, hempty⟩ := nothing_leaks rfl rfl hrun
  exact ⟨last, hrun, hempty (by simpa using hnobody)⟩

end AcceptLoop

end RedisClone
