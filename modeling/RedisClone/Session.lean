import RedisClone.Command.Execute

/-!
This module contains the state of one connection and the entry point for its requests: transactions,
which queue commands and run them together, and the subscriptions of the pub/sub mode.
-/

namespace RedisClone

/--
An open transaction. Only commands that parse are ever queued.
-/
structure Transaction where
  commands : List (List String)
  dirty : Bool
  parses : ∀ tokens ∈ commands, ∃ command, Command.parse tokens = .ok command

namespace Transaction

def new : Transaction := ⟨[], false, by simp⟩

def markDirty (self : Transaction) : Transaction := { self with dirty := true }

def push (self : Transaction) (tokens : List String) (command : Command)
    (h : Command.parse tokens = .ok command) : Transaction where
  commands := self.commands ++ [tokens]
  dirty := self.dirty
  parses := by
    intro queued hmem
    rcases List.mem_append.mp hmem with hmem | hmem
    . exact self.parses queued hmem
    . rw [List.mem_singleton.mp hmem]
      exact ⟨command, h⟩

end Transaction

structure Session where
  id : UInt64
  mailbox : Mailbox
  channels : Std.ExtTreeSet String
  transaction : Option Transaction

/--
A `[kind, channel, count]` confirmation: two bulk strings and an integer.
-/
def subscriptionReply (kind channel : String) (count : Nat) : String :=
  Resp.header 3 ++ Resp.bulkString kind ++ Resp.bulkString channel
    ++ Resp.integer (Int64.ofNat count)

def subscriptionReplyNull (kind : String) : String :=
  Resp.header 3 ++ Resp.bulkString kind ++ Resp.null ++ Resp.integer 0

namespace Session

/--
`Session::new`: an id and a mailbox of its own.
-/
def new (db : Database) : Session × Database :=
  let (pubsub, mailbox) := db.pubsub.unboundedChannel
  let (db, id) := { db with pubsub }.nextSubscriberId
  ({ id, mailbox, channels := ∅, transaction := none }, db)

def isSubscribed (session : Session) : Bool := !session.channels.isEmpty

def beginMulti (session : Session) : Session × String :=
  if session.transaction.isSome then
    (session, Resp.error "ERR MULTI calls can not be nested")
  else
    ({ session with transaction := some .new }, Resp.simpleString "OK")

def discard (session : Session) : Session × String :=
  match session.transaction with
  | some _ => ({ session with transaction := none }, Resp.simpleString "OK")
  | none => (session, Resp.error "ERR DISCARD without MULTI")

/--
Dispatch the queued commands in order, collecting their replies; `envs` are the surroundings of each.
-/
def dispatchAll (envs : Nat → Env) (commands : List (List String)) (db : Database) (reply : String)
    : Database × String :=
  match commands with
  | [] => (db, reply)
  | command :: commands =>
    let (db, result) := dispatch (envs 0) command db
    dispatchAll (fun i => envs (i + 1)) commands db (reply ++ result)

def exec (envs : Nat → Env) (session : Session) (db : Database) : Session × Database × String :=
  match session.transaction with
  | none => (session, db, Resp.error "ERR EXEC without MULTI")
  | some transaction =>
    let session := { session with transaction := none }
    if transaction.dirty then
      (session, db,
        Resp.error "EXECABORT Transaction discarded because of previous errors.")
    else
      (session,
        dispatchAll envs transaction.commands db (Resp.header transaction.commands.length))

/--
Add one channel to the session and the registry and confirm it.
-/
def subscribeOne (channel : String) (session : Session) (db : Database)
    : Session × Database × String :=
  let (session, db) :=
    if session.channels.contains channel then
      (session, db)
    else
      ({ session with channels := session.channels.insert channel },
        db.subscribe channel session.id session.mailbox)
  (session, db, subscriptionReply "subscribe" channel session.channels.size)

/--
Remove one channel from the session and the registry and confirm it.
-/
def unsubscribeOne (channel : String) (session : Session) (db : Database)
    : Session × Database × String :=
  let (session, db) :=
    if session.channels.contains channel then
      ({ session with channels := session.channels.erase channel },
        db.unsubscribe channel session.id)
    else
      (session, db)
  (session, db, subscriptionReply "unsubscribe" channel session.channels.size)

/--
The loop of `subscribe` and `unsubscribe` over their target channels.
-/
def forChannels (one : String → Session → Database → Session × Database × String)
    (channels : List String) (session : Session) (db : Database) : Session × Database × String :=
  channels.foldl
    (fun (session, db, reply) channel =>
      let (session, db, confirmation) := one channel session db
      (session, db, reply ++ confirmation))
    (session, db, "")

def subscribe (channels : List String) (session : Session) (db : Database)
    : Session × Database × String :=
  if channels.isEmpty then
    (session, db, Resp.error "ERR wrong number of arguments for 'subscribe' command")
  else
    forChannels subscribeOne channels session db

/--
The channels an `UNSUBSCRIBE` acts on: all of the session's without arguments.
-/
def unsubscribeTargets (env : Env) (channels : List String) (session : Session) : List String :=
  if channels.isEmpty then env.order .channels session.channels.toList else channels

def unsubscribe (env : Env) (channels : List String) (session : Session) (db : Database)
    : Session × Database × String :=
  let targets := unsubscribeTargets env channels session
  if targets.isEmpty then
    (session, db, subscriptionReplyNull "unsubscribe")
  else
    forChannels unsubscribeOne targets session db

/--
Queue a request of an open transaction, or mark the transaction for abortion.
-/
def queue (name : String) (tokens : List String) (transaction : Transaction) (session : Session)
    : Session × String :=
  if name == "SUBSCRIBE" || name == "UNSUBSCRIBE" then
    ({ session with transaction := some transaction.markDirty },
      Resp.error ("ERR " ++ name ++ " is not allowed in transactions"))
  else
    match h : Command.parse tokens with
    | .ok command =>
      ({ session with transaction := some (transaction.push tokens command h) },
        Resp.simpleString "QUEUED")
    | .error error =>
      ({ session with transaction := some transaction.markDirty }, Resp.error error.toString)

/--
`Session::handle`: one request and its reply, which is empty for a blank line. A request that is not
`EXEC` happens in the first of `envs`.
-/
def handle (envs : Nat → Env) (tokens : List String) (session : Session) (db : Database)
    : Session × Database × String :=
  match tokens with
  | [] => (session, db, "")
  | first :: args =>
    let name := toAsciiUppercase first
    if session.isSubscribed
        && !(name == "SUBSCRIBE" || name == "UNSUBSCRIBE" || name == "PING") then
      (session, db,
        Resp.error ("ERR Can't execute '" ++ toAsciiLowercase name
          ++ "': only (UN)SUBSCRIBE / PING are allowed in subscribe mode"))
    else if name == "MULTI" then
      let (session, reply) := session.beginMulti
      (session, db, reply)
    else if name == "EXEC" then
      session.exec envs db
    else if name == "DISCARD" then
      let (session, reply) := session.discard
      (session, db, reply)
    else
      match session.transaction with
      | some transaction =>
        let (session, reply) := session.queue name tokens transaction
        (session, db, reply)
      | none =>
        if name == "SUBSCRIBE" then
          session.subscribe args db
        else if name == "UNSUBSCRIBE" then
          session.unsubscribe (envs 0) args db
        else
          (session, dispatch (envs 0) tokens db)

/--
`Session::cleanup`, when the connection ends.
-/
def cleanup (session : Session) (db : Database) : Database :=
  session.channels.toList.foldl (fun db channel => db.unsubscribe channel session.id) db

end Session
end RedisClone
