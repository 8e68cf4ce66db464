import RedisClone.Hub.Request
import RedisClone.Session.Framing

/-!
This module contains the task that serves one connection, amid everything the other connections do.
At each turn it takes the next request or the next message of its mailbox, and a `SUBSCRIBE` or
`UNSUBSCRIBE` goes through its channels one at a time before it is answered.
-/

namespace RedisClone

/--
What is written to the socket, in the pieces a client reads.
-/
inductive Frame where
  | reply (text : String)
  | confirmation (kind channel : String) (count : Nat)
  | push (message : String)

def Frame.text : Frame → String
  | .reply text => text
  | .confirmation kind channel count => subscriptionReply kind channel count
  | .push message => message

/--
The task of a connection: the requests read so far, the kind and the remaining channels of the request
in progress with the confirmations for its reply, and what has been written.
-/
structure ConnectionTask where
  hub : Hub
  requests : List (List String)
  serving : Option (String × List String)
  pending : List Frame
  written : List Frame

inductive TaskEvent where
  | arrive (tokens : List String)
  | others (event : HubEvent)
  | serve (envs : Nat → Env)
  | channel
  | reply
  | receive

/--
Whether an event is the doing of a connection, or of its session.
-/
def HubEvent.concerns (id : UInt64) : HubEvent → Bool
  | .connect | .dispatch _ _ => false
  | .subscribe other _ | .unsubscribe other _ | .transact other _ | .receive other | .hangUp other
  | .leave other | .close other => other == id

namespace ConnectionTask

/--
The task of a connection that has just been opened.
-/
def new (hub : Hub) : ConnectionTask := ⟨hub, [], none, [], []⟩

def step (id : UInt64) (task : ConnectionTask) : TaskEvent → Option ConnectionTask
  | .arrive tokens => some { task with requests := task.requests ++ [tokens] }
  | .others event =>
    if event.concerns id then
      none
    else
      (task.hub.step event).map fun hub => { task with hub }
  | .serve envs =>
    match task.serving, task.requests, task.hub.serving id with
    | none, tokens :: requests, some connection =>
      match connection.session.confirms (envs 0) tokens with
      | some request => some { task with requests, serving := some request }
      | none =>
        let (session, db, reply) := connection.session.handle envs tokens task.hub.db
        some
          { task with
            hub := task.hub.update id { connection with session } db
            requests := requests
            written := task.written ++ [.reply reply] }
    | _, _, _ => none
  | .channel =>
    match task.serving, task.hub.serving id with
    | some (kind, channel :: channels), some connection =>
      let (session, db, _) := Session.oneOf kind channel connection.session task.hub.db
      some
        { task with
          hub := task.hub.update id { connection with session } db
          serving := some (kind, channels)
          pending := task.pending ++ [.confirmation kind channel session.channels.size] }
    | _, _ => none
  | .reply =>
    match task.serving with
    | some (_, []) =>
      some { task with serving := none, pending := [], written := task.written ++ task.pending }
    | _ => none
  | .receive =>
    match task.serving, task.hub.serving id with
    | none, some connection =>
      (task.hub.db.pubsub.recv connection.session.mailbox).map fun (message, pubsub) =>
        { task with
          hub := task.hub.update id { connection with received := connection.received ++ [message] }
            { task.hub.db with pubsub }
          written := task.written ++ [.push message] }
    | _, _ => none

def run (id : UInt64) : List TaskEvent → ConnectionTask → Option ConnectionTask
  | [], task => some task
  | event :: events, task => (task.step id event).bind (run id events)

/-
A request that nothing comes between is what the session does with it.
-/

variable {id : UInt64} {task : ConnectionTask} {connection : Connection}

theorem step_channel {kind channel : String} {channels : List String}
    (hserving : task.serving = some (kind, channel :: channels))
    (hconnection : task.hub.serving id = some connection)
    : let changed := Session.oneOf kind channel connection.session task.hub.db
      task.step id .channel
        =
      some
        { task with
          hub := task.hub.update id { connection with session := changed.1 } changed.2.1
          serving := some (kind, channels)
          pending := task.pending ++ [.confirmation kind channel changed.1.channels.size] } := by
  simp only [step]
  rw [hserving, hconnection]

theorem run_channels {kind : String} (hkind : kind = "subscribe" ∨ kind = "unsubscribe")
    {channels : List String} (hserving : task.serving = some (kind, channels))
    (hconnection : task.hub.serving id = some connection) (reply : String)
    : let looped := channels.foldl
        (fun (session, db, reply) channel =>
          let (session, db, confirmation) := Session.oneOf kind channel session db
          (session, db, reply ++ confirmation))
        (connection.session, task.hub.db, reply)
      ∃ frames : List Frame, reply ++ String.join (frames.map Frame.text) = looped.2.2
        ∧ run id (channels.map fun _ => .channel) task
          = some
            { task with
              hub := task.hub.update id { connection with session := looped.1 } looped.2.1
              serving := some (kind, [])
              pending := task.pending ++ frames } := by
  induction channels generalizing task connection reply with
  | nil =>
    refine ⟨[], by simp, ?_⟩
    have hhub := (Hub.serving_eq_some.mp hconnection).1
    cases task
    cases hserving
    simp only [List.map_nil, run, List.foldl_nil, List.append_nil]
    rw [Hub.update_self hhub]
  | cons channel channels ih =>
    let changed := Session.oneOf kind channel connection.session task.hub.db
    let next : ConnectionTask :=
      { task with
        hub := task.hub.update id { connection with session := changed.1 } changed.2.1
        serving := some (kind, channels)
        pending := task.pending ++ [.confirmation kind channel changed.1.channels.size] }
    have hleaving := (Hub.serving_eq_some.mp hconnection).2
    have hnext : next.hub.serving id = some { connection with session := changed.1 } :=
      Hub.serving_update hleaving
    rcases @ih next _ rfl hnext (reply ++ changed.2.2) with ⟨frames, hframes, hrun⟩
    refine ⟨.confirmation kind channel changed.1.channels.size :: frames, ?_, ?_⟩
    . rw [List.map_cons, String.join_cons, ← String.append_assoc, Frame.text,
        ← Session.oneOf_reply hkind]
      exact hframes
    . rw [List.map_cons, run, step_channel hserving hconnection, Option.bind_some]
      rw [Hub.update_update, List.append_assoc] at hrun
      exact hrun

theorem run_append (events events' : List TaskEvent)
    : run id (events ++ events') task = (run id events task).bind (run id events') := by
  induction events generalizing task with
  | nil => rfl
  | cons event events ih =>
    rw [List.cons_append, run, run]
    cases task.step id event with
    | none => rfl
    | some next => exact ih

/--
A request that changes the subscriptions, served without anything in between, does what
`Session::handle` does and is answered with its reply.
-/
theorem run_request {envs : Nat → Env} {tokens : List String} {requests : List (List String)}
    {kind : String} {channels : List String} (hserving : task.serving = none)
    (hpending : task.pending = []) (hrequests : task.requests = tokens :: requests)
    (hconnection : task.hub.serving id = some connection)
    (hconfirms : connection.session.confirms (envs 0) tokens = some (kind, channels))
    : let handled := connection.session.handle envs tokens task.hub.db
      ∃ frames : List Frame, String.join (frames.map Frame.text) = handled.2.2
        ∧ run id (.serve envs :: (channels.map fun _ => .channel) ++ [.reply]) task
          = some
            { hub := task.hub.update id { connection with session := handled.1 } handled.2.1
              requests := requests
              serving := none
              pending := []
              written := task.written ++ frames } := by
  rcases Session.handle_of_confirms hconfirms task.hub.db with ⟨-, hkind, hhandle⟩
  let next : ConnectionTask := { task with requests, serving := some (kind, channels) }
  have hserve : task.step id (.serve envs) = some next := by
    simp only [step]
    rw [hserving, hrequests, hconnection]
    dsimp only
    rw [hconfirms]
  rcases @run_channels id next connection kind hkind channels rfl hconnection ""
    with ⟨frames, hframes, hrun⟩
  refine ⟨frames, ?_, ?_⟩
  . rw [hhandle]
    rw [String.empty_append] at hframes
    exact hframes
  . rw [List.cons_append, run, hserve, Option.bind_some, run_append, hrun, Option.bind_some, run,
      hhandle]
    simp only [next, hpending, List.nil_append]
    rfl

end ConnectionTask
end RedisClone
