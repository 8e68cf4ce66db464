import RedisClone.Session

/-!
This module contains the system of all connections and the registry they share. The registry is
locked for one channel at a time, so that is the size of a step: the requests of different
connections interleave between the channels they name.
-/

namespace RedisClone

/--
`drop(mailbox)`: the receiving end is gone.
-/
def PubSub.close (self : PubSub) (mailbox : Mailbox) : PubSub :=
  { self with mailboxes := self.mailboxes.erase mailbox }

/--
A connection task: its session, the messages it has taken out of its mailbox, and, once it has ended,
the channels its cleanup has yet to leave.
-/
structure Connection where
  session : Session
  received : List String
  leaving : Option (List String)

/--
The channels of an open session, and the rest of them during its cleanup.
-/
def Connection.subscribed (connection : Connection) (channel : String) : Bool :=
  match connection.leaving with
  | none => connection.session.channels.contains channel
  | some channels => channels.contains channel

structure Hub where
  db : Database
  connections : Std.ExtTreeMap UInt64 Connection

/--
What can happen next. A request is dispatched on behalf of any connection or of none; the channels of
a `SUBSCRIBE` or `UNSUBSCRIBE` are single events, and so is what a request does to the transaction of
its session.
-/
inductive HubEvent where
  | connect
  | subscribe (id : UInt64) (channel : String)
  | unsubscribe (id : UInt64) (channel : String)
  | transact (id : UInt64) (transaction : Option Transaction)
  | dispatch (env : Env) (tokens : List String)
  | receive (id : UInt64)
  | hangUp (id : UInt64)
  | leave (id : UInt64)
  | close (id : UInt64)

namespace Hub

def new (db : Database) : Hub := ⟨db, ∅⟩

/--
The connection of an id while it serves requests.
-/
def serving (hub : Hub) (id : UInt64) : Option Connection :=
  hub.connections[id]?.filter fun connection => connection.leaving.isNone

def update (hub : Hub) (id : UInt64) (connection : Connection) (db : Database) : Hub where
  db := db
  connections := hub.connections.insert id connection

/--
One event, unless it cannot happen. Ids are distinct: a new connection does not get the id of one
that is still there.
-/
def step (hub : Hub) : HubEvent → Option Hub
  | .connect =>
    let (session, db) := Session.new hub.db
    match hub.connections[session.id]? with
    | none => some (hub.update session.id ⟨session, [], none⟩ db)
    | some _ => none
  | .subscribe id channel =>
    (hub.serving id).map fun connection =>
      let (session, db, _) := Session.subscribeOne channel connection.session hub.db
      hub.update id { connection with session } db
  | .unsubscribe id channel =>
    (hub.serving id).map fun connection =>
      let (session, db, _) := Session.unsubscribeOne channel connection.session hub.db
      hub.update id { connection with session } db
  | .transact id transaction =>
    (hub.serving id).map fun connection =>
      hub.update id { connection with session := { connection.session with transaction } } hub.db
  | .dispatch env tokens => some { hub with db := (RedisClone.dispatch env tokens hub.db).1 }
  | .receive id =>
    (hub.serving id).bind fun connection =>
      (hub.db.pubsub.recv connection.session.mailbox).map fun (message, pubsub) =>
        hub.update id { connection with received := connection.received ++ [message] }
          { hub.db with pubsub }
  | .hangUp id =>
    (hub.serving id).map fun connection =>
      hub.update id { connection with leaving := some connection.session.channels.toList } hub.db
  | .leave id =>
    match hub.connections[id]? with
    | some ⟨session, received, some (channel :: channels)⟩ =>
      some (hub.update id ⟨session, received, some channels⟩ (hub.db.unsubscribe channel session.id))
    | _ => none
  | .close id =>
    match hub.connections[id]? with
    | some ⟨session, _, some []⟩ =>
      some
        { db := { hub.db with pubsub := hub.db.pubsub.close session.mailbox }
          connections := hub.connections.erase id }
    | _ => none

def run : List HubEvent → Hub → Option Hub
  | [], hub => some hub
  | event :: events, hub => (hub.step event).bind (run events)

/--
The states the system gets into from its start.
-/
def Reachable (hub : Hub) : Prop :=
  ∃ db events, db.pubsub = .new ∧ run events (new db) = some hub

def subscribed (hub : Hub) (id : UInt64) (channel : String) : Bool :=
  hub.connections[id]?.any fun connection => connection.subscribed channel

/--
The subscribers of a channel.
-/
def audience (hub : Hub) (channel : String) : List UInt64 :=
  hub.connections.keys.filter fun id => hub.subscribed id channel

/--
All messages that were put into the mailbox of a connection.
-/
def history (hub : Hub) (connection : Connection) : List String :=
  connection.received ++ hub.db.pubsub.mailboxes[connection.session.mailbox]?.getD []

/--
The channel and the payload that a request publishes.
-/
def publication (tokens : List String) : Option (String × String) :=
  match Command.parse tokens with
  | .ok (.publish channel payload) => some (channel, payload)
  | _ => none

/--
The message an event sends to a subscriber.
-/
def heardAt (id : UInt64) (hub : Hub) : HubEvent → List String
  | .dispatch _ tokens =>
    match publication tokens with
    | some (channel, payload) =>
      if hub.subscribed id channel then [PubSub.message channel payload] else []
    | none => []
  | _ => []

/--
The messages published during a run on channels that `id` was then subscribed to.
-/
def heard (id : UInt64) : List HubEvent → Hub → List String
  | [], _ => []
  | event :: events, hub =>
    heardAt id hub event ++ ((hub.step event).map (heard id events)).getD []

end Hub
end RedisClone
