import RedisClone.Database.Db

/-!
This module contains the snapshot of the keyspace: a flat representation decoupled from the types of
the running store, in which deadlines are remaining seconds and scores are text.
-/

namespace RedisClone

inductive SerValue where
  | str (value : String)
  | list (items : List String)
  | set (items : List String)
  | zset (items : List (String × String))
  | hash (items : List (String × String))
deriving DecidableEq

structure SnapshotEntry where
  key : String
  ttlSecs : Option UInt64
  value : SerValue
deriving DecidableEq

structure Snapshot where
  entries : List SnapshotEntry
deriving DecidableEq

namespace Db

open Store

/--
The flat form of a value; `order` is the iteration order of its hash table.
-/
def serialize (order : List String → List String) : Value → SerValue
  | .str value => .str value
  | .list list => .list (list.lrange 0 (-1))
  | .set set => .set (set.smembers order)
  | .sortedSet zset =>
    .zset ((zset.zrangeWithScores 0 (-1)).map fun (member, score) => (member, displayF64 score))
  | .hash hash => .hash (hash.hgetall order)

/--
`Database::snapshot`: every live key with its remaining seconds.
-/
def snapshot (env : Env) (store : Store) : Snapshot where
  entries := (env.order .keyspace store.keys).filterMap fun key =>
    (live env.now store key).map fun entry =>
      { key
        ttlSecs := entry.expiresAt.map fun deadline => .ofNat (deadline.secsSince env.now)
        value := serialize (env.order (.value key)) entry.value }

/--
The value rebuilt from its flat form, element by element.
-/
def deserialize : SerValue → Value
  | .str value => .str value
  | .list items => .list (items.foldl RList.rpush .new)
  | .set items => .set (items.foldl (fun set item => (set.sadd item).1) .new)
  | .zset items =>
    .sortedSet <| items.foldl
      (fun zset (member, score) => (zset.zadd ((parseF64 score).getD f64Zero) member).1) .new
  | .hash items => .hash (items.foldl (fun hash (field, value) => (hash.hset field value).1) .new)

/--
`Database::load_snapshot`: replace the keyspace by the contents of a snapshot.
-/
def loadSnapshot (now : Instant) (snapshot : Snapshot) (_ : Store) : Store :=
  snapshot.entries.foldl
    (fun store entry =>
      store.insert entry.key
        { value := deserialize entry.value
          expiresAt := entry.ttlSecs.bind (deadlineAfter now) })
    ∅

end Db
end RedisClone
