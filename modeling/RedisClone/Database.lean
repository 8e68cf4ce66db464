import RedisClone.Database.PubSub
import RedisClone.Database.Snapshot

/-!
This module contains the database every connection shares: the keyspace, the counters behind `INFO`,
the pub/sub registry, and the persistence settings with the append-only file.
-/

namespace RedisClone

/--
`Aof::append`: one command, as an array, at the end of the file.
-/
def Aof.append (tokens : List String) (file : List UInt8) : List UInt8 :=
  file ++ asBytes (Resp.array tokens)

structure Database where
  store : Store
  startedAt : Instant
  connectedClients : Nat
  snapshotPath : Option String
  aof : Option (List UInt8)
  replaying : Bool
  pubsub : PubSub

namespace Database

def withPersistence (now : Instant) (snapshotPath : Option String) (aof : Option (List UInt8))
    : Database where
  store := ∅
  startedAt := now
  connectedClients := 0
  snapshotPath := snapshotPath
  aof := aof
  replaying := false
  pubsub := .new

def new (now : Instant) : Database := withPersistence now none none

/--
Run an operation of the keyspace and encode its result.
-/
def run (op : Store → Store × α) (reply : α → String) (db : Database) : Database × String :=
  ({ db with store := (op db.store).1 }, reply (op db.store).2)

def clientConnected (db : Database) : Database × Nat :=
  ({ db with connectedClients := db.connectedClients + 1 }, db.connectedClients + 1)

def clientDisconnected (db : Database) : Database :=
  { db with connectedClients := db.connectedClients - 1 }

def info (now : Instant) (db : Database) : String :=
  let uptime := now.secsSince db.startedAt
  let clients := db.connectedClients
  let keys := Db.dbsize now db.store
  "# Server\r\nserver_name:redis_clone\r\nuptime_in_seconds:" ++ toString uptime
    ++ "\r\n\r\n# Clients\r\nconnected_clients:" ++ toString clients
    ++ "\r\n\r\n# Keyspace\r\nkeys:" ++ toString keys ++ "\r\n"

def nextSubscriberId (db : Database) : Database × UInt64 :=
  let (pubsub, id) := db.pubsub.freshId
  ({ db with pubsub }, id)

def subscribe (channel : String) (id : UInt64) (sender : Mailbox) (db : Database) : Database :=
  { db with pubsub := db.pubsub.subscribe channel id sender }

def unsubscribe (channel : String) (id : UInt64) (db : Database) : Database :=
  { db with pubsub := db.pubsub.unsubscribe channel id }

def publish (channel payload : String) (db : Database) : Database × Nat :=
  let (pubsub, count) := db.pubsub.publish channel payload
  ({ db with pubsub }, count)

/--
`Database::save`: without a configured path there is nothing to write.
-/
def save (env : Env) (db : Database) : Except String Unit :=
  match db.snapshotPath with
  | some _ => env.saveOutcome
  | none => .ok ()

/--
`Database::log_write`: nothing is logged while the log itself is being replayed.
-/
def logWrite (tokens : List String) (db : Database) : Database :=
  if db.replaying then
    db
  else
    { db with aof := db.aof.map (Aof.append tokens) }

def beginReplay (db : Database) : Database := { db with replaying := true }

def endReplay (db : Database) : Database := { db with replaying := false }

end Database
end RedisClone
