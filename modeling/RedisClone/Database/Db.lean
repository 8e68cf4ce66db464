import RedisClone.Database.Glob
import RedisClone.Database.Store

/-!
This module contains the operations of the database on its keyspace, one for each method of
`Database`. An operation that takes the write lock, or may evict an expired key, returns the changed
store next to its result.
-/

namespace RedisClone
namespace Db

open Store

/-
Strings
-/

def set (now : Instant) (key value : String) (ttl : Option UInt64) (store : Store) : Store :=
  store.insert key { value := .str value, expiresAt := ttl.bind (deadlineAfter now) }

def get (now : Instant) (key : String)
    : Store → Store × Except StoreError (Option String) :=
  readEntry now key (.ok none) fun entry => entry.value.asStr.map some

def del (now : Instant) (keys : List String) (store : Store) : Store × Nat :=
  keys.foldl
    (fun (store, removed) key =>
      match liveEntry now key store with
      | (store, some _) => (store.erase key, removed + 1)
      | (store, none) => (store, removed))
    (store, 0)

def incrOn (delta : Int64) (value : Value) : Except StoreError (Value × Int64) :=
  value.asStr.bind fun current =>
    match parseI64 current with
    | none => .error .notAnInteger
    | some value =>
      match checkedAdd value delta with
      | none => .error .overflow
      | some next => .ok (.str (toString next), next)

def incrBy (now : Instant) (key : String) (delta : Int64)
    : Store → Store × Except StoreError Int64 :=
  updateOrCreate now key (.str "0") (incrOn delta)

def appendOn (suffix : String) (value : Value) : Except StoreError (Value × Nat) :=
  value.asStr.map fun current =>
    let current := current ++ suffix
    (.str current, current.utf8ByteSize)

def append (now : Instant) (key suffix : String) : Store → Store × Except StoreError Nat :=
  updateOrCreate now key (.str "") (appendOn suffix)

def strlen (now : Instant) (key : String) : Store → Store × Except StoreError Nat :=
  readEntry now key (.ok 0) fun entry => entry.value.asStr.map String.utf8ByteSize

def mget (now : Instant) (keys : List String) (store : Store) : List (Option String) :=
  keys.map fun key =>
    match live now store key with
    | some entry =>
      match entry.value with
      | .str value => some value
      | _ => none
    | none => none

def mset (pairs : List (String × String)) (store : Store) : Store :=
  pairs.foldl
    (fun store (key, value) => store.insert key { value := .str value, expiresAt := none })
    store

def setnx (now : Instant) (key value : String) (store : Store) : Store × Bool :=
  match liveEntry now key store with
  | (store, some _) => (store, false)
  | (store, none) => (store.insert key { value := .str value, expiresAt := none }, true)

def getset (now : Instant) (key value : String) (store : Store)
    : Store × Except StoreError (Option String) :=
  match liveEntry now key store with
  | (store, some entry) =>
    match entry.value.asStr with
    | .ok current =>
      (store.insert key { value := .str value, expiresAt := none }, .ok (some current))
    | .error error => (store, .error error)
  | (store, none) => (store.insert key { value := .str value, expiresAt := none }, .ok none)

/-
Lists
-/

/--
The loop of `lpush` and `rpush` over the values.
-/
def pushOn (push : RList → String → RList) (values : List String) (value : Value)
    : Except StoreError (Value × Nat) :=
  value.asList.map fun list =>
    let list := values.foldl push list
    (.list list, list.len)

def lpush (now : Instant) (key : String) (values : List String)
    : Store → Store × Except StoreError Nat :=
  updateOrCreate now key (.list .new) (pushOn RList.lpush values)

def rpush (now : Instant) (key : String) (values : List String)
    : Store → Store × Except StoreError Nat :=
  updateOrCreate now key (.list .new) (pushOn RList.rpush values)

def popOn (take : RList → RList × Option String) (value : Value)
    : Except StoreError (Value × Option String × Bool) :=
  value.asList.map fun list =>
    let (list, popped) := take list
    (.list list, popped, list.isEmpty)

def pop (now : Instant) (key : String) (take : RList → RList × Option String)
    : Store → Store × Except StoreError (Option String) :=
  removeFrom now key none (popOn take)

def lpop (now : Instant) (key : String) : Store → Store × Except StoreError (Option String) :=
  pop now key RList.lpop

def rpop (now : Instant) (key : String) : Store → Store × Except StoreError (Option String) :=
  pop now key RList.rpop

def lrange (now : Instant) (key : String) (start stop : Int64)
    : Store → Store × Except StoreError (List String) :=
  readEntry now key (.ok []) fun entry => entry.value.asList.map fun list => list.lrange start stop

def llen (now : Instant) (key : String) : Store → Store × Except StoreError Nat :=
  readEntry now key (.ok 0) fun entry => entry.value.asList.map RList.len

def lindex (now : Instant) (key : String) (index : Int64)
    : Store → Store × Except StoreError (Option String) :=
  readEntry now key (.ok none) fun entry => entry.value.asList.map fun list => list.lindex index

def lset (now : Instant) (key : String) (index : Int64) (value : String) (store : Store)
    : Store × Except StoreError Unit :=
  match liveEntry now key store with
  | (store, none) => (store, .error .noSuchKey)
  | (store, some entry) =>
    match entry.value.asList with
    | .ok list =>
      match list.lset index value with
      | (list, true) => (store.insert key { entry with value := .list list }, .ok ())
      | (_, false) => (store, .error .indexOutOfRange)
    | .error error => (store, .error error)

/-
Sets
-/

/--
Run a counted change for each item, as the loops of `sadd`, `srem` and `zadd` do.
-/
def countChanges (change : σ → α → σ × Bool) (items : List α) (state : σ) : σ × Nat :=
  items.foldl
    (fun (state, count) item =>
      let (state, changed) := change state item
      (state, if changed then count + 1 else count))
    (state, 0)

def saddOn (values : List String) (value : Value) : Except StoreError (Value × Nat) :=
  value.asSet.map fun set =>
    let (set, added) := countChanges RSet.sadd values set
    (.set set, added)

def sadd (now : Instant) (key : String) (values : List String)
    : Store → Store × Except StoreError Nat :=
  updateOrCreate now key (.set .new) (saddOn values)

def sremOn (values : List String) (value : Value) : Except StoreError (Value × Nat × Bool) :=
  value.asSet.map fun set =>
    let (set, removed) := countChanges RSet.srem values set
    (.set set, removed, set.isEmpty)

def srem (now : Instant) (key : String) (values : List String)
    : Store → Store × Except StoreError Nat :=
  removeFrom now key 0 (sremOn values)

def smembers (env : Env) (key : String) : Store → Store × Except StoreError (List String) :=
  readEntry env.now key (.ok []) fun entry =>
    entry.value.asSet.map fun set => set.smembers (env.order (.value key))

def sismember (now : Instant) (key value : String) : Store → Store × Except StoreError Bool :=
  readEntry now key (.ok false) fun entry => entry.value.asSet.map fun set => set.sismember value

def scard (now : Instant) (key : String) : Store → Store × Except StoreError Nat :=
  readEntry now key (.ok 0) fun entry => entry.value.asSet.map RSet.scard

def spopOn (order : List String → List String) (value : Value)
    : Except StoreError (Value × Option String × Bool) :=
  value.asSet.map fun set =>
    let (set, popped) := set.spop order
    (.set set, popped, set.isEmpty)

def spop (env : Env) (key : String) : Store → Store × Except StoreError (Option String) :=
  removeFrom env.now key none (spopOn (env.order (.value key)))

/--
`set_members_of`: a missing or expired key is an empty set.
-/
def setMembersOf (now : Instant) (store : Store) (key : String)
    : Except StoreError (Std.ExtTreeSet String) :=
  match live now store key with
  | some entry => entry.value.asSet.map RSet.set
  | none => .ok ∅

/--
The loop of the set operations: combine the result with the members of each further key.
-/
def combineSets (now : Instant) (store : Store)
    (combine : Std.ExtTreeSet String → Std.ExtTreeSet String → Std.ExtTreeSet String)
    (result : Std.ExtTreeSet String) (keys : List String)
    : Except StoreError (Std.ExtTreeSet String) :=
  keys.foldlM (fun result key => (setMembersOf now store key).map (combine result)) result

/--
The members of a result, `result.into_iter().collect()`.
-/
def listMembers (env : Env) (result : Std.ExtTreeSet String) : List String :=
  env.order .result result.toList

def sinter (env : Env) (keys : List String) (store : Store) : Except StoreError (List String) :=
  match keys with
  | key :: keys =>
    let retain := fun result other : Std.ExtTreeSet String =>
      result.filter fun member => other.contains member
    ((setMembersOf env.now store key).bind fun result =>
      combineSets env.now store retain result keys).map (listMembers env)
  | [] => .ok []

def sunion (env : Env) (keys : List String) (store : Store) : Except StoreError (List String) :=
  let extend := fun result other : Std.ExtTreeSet String =>
    other.toList.foldl (fun result member => result.insert member) result
  (combineSets env.now store extend ∅ keys).map (listMembers env)

def sdiff (env : Env) (keys : List String) (store : Store) : Except StoreError (List String) :=
  match keys with
  | key :: keys =>
    let remove := fun result other : Std.ExtTreeSet String =>
      other.toList.foldl (fun result member => result.erase member) result
    ((setMembersOf env.now store key).bind fun result =>
      combineSets env.now store remove result keys).map (listMembers env)
  | [] => .ok []

/-
Sorted sets
-/

def zaddOn (members : List (Float × String)) (value : Value) : Except StoreError (Value × Nat) :=
  value.asSortedSet.map fun zset =>
    let (zset, added) := countChanges (fun zset (score, member) => zset.zadd score member) members zset
    (.sortedSet zset, added)

def zadd (now : Instant) (key : String) (members : List (Float × String))
    : Store → Store × Except StoreError Nat :=
  updateOrCreate now key (.sortedSet .new) (zaddOn members)

def zremOn (member : String) (value : Value) : Except StoreError (Value × Bool × Bool) :=
  value.asSortedSet.map fun zset =>
    let (zset, removed) := zset.zrem member
    (.sortedSet zset, removed, zset.isEmpty)

def zrem (now : Instant) (key member : String) : Store → Store × Except StoreError Bool :=
  removeFrom now key false (zremOn member)

def zrange (now : Instant) (key : String) (start stop : Int64)
    : Store → Store × Except StoreError (List String) :=
  readEntry now key (.ok []) fun entry =>
    entry.value.asSortedSet.map fun zset => zset.zrange start stop

def zscore (now : Instant) (key member : String)
    : Store → Store × Except StoreError (Option Float) :=
  readEntry now key (.ok none) fun entry =>
    entry.value.asSortedSet.map fun zset => zset.zscore member

def zcard (now : Instant) (key : String) : Store → Store × Except StoreError Nat :=
  readEntry now key (.ok 0) fun entry => entry.value.asSortedSet.map RSortedSet.zcard

def zrank (now : Instant) (key member : String) : Store → Store × Except StoreError (Option Nat) :=
  readEntry now key (.ok none) fun entry =>
    entry.value.asSortedSet.map fun zset => zset.zrank member

def zincrOn (increment : Float) (member : String) (value : Value)
    : Except StoreError (Value × Float) :=
  value.asSortedSet.bind fun zset =>
    let newScore := (zset.zscore member).getD f64Zero + increment
    if newScore.isNaN then
      .error .scoreNaN
    else
      .ok (.sortedSet (zset.zadd newScore member).1, newScore)

def zincrby (now : Instant) (key : String) (increment : Float) (member : String)
    : Store → Store × Except StoreError Float :=
  updateOrCreate now key (.sortedSet .new) (zincrOn increment member)

def zrangeWithScores (now : Instant) (key : String) (start stop : Int64)
    : Store → Store × Except StoreError (List (String × Float)) :=
  readEntry now key (.ok []) fun entry =>
    entry.value.asSortedSet.map fun zset => zset.zrangeWithScores start stop

def zrangeByScore (now : Instant) (key : String) (min : Float) (minInclusive : Bool) (max : Float)
    (maxInclusive : Bool) : Store → Store × Except StoreError (List String) :=
  readEntry now key (.ok []) fun entry =>
    entry.value.asSortedSet.map fun zset => zset.zrangeByScore min minInclusive max maxInclusive

/-
Hashes
-/

def hsetOn (field text : String) (value : Value) : Except StoreError (Value × Bool) :=
  value.asHash.map fun hash =>
    let (hash, isNew) := hash.hset field text
    (.hash hash, isNew)

def hset (now : Instant) (key field value : String) : Store → Store × Except StoreError Bool :=
  updateOrCreate now key (.hash .new) (hsetOn field value)

def hget (now : Instant) (key field : String)
    : Store → Store × Except StoreError (Option String) :=
  readEntry now key (.ok none) fun entry => entry.value.asHash.map fun hash => hash.hget field

def hdelOn (field : String) (value : Value) : Except StoreError (Value × Bool × Bool) :=
  value.asHash.map fun hash =>
    let (hash, removed) := hash.hdel field
    (.hash hash, removed, hash.isEmpty)

def hdel (now : Instant) (key field : String) : Store → Store × Except StoreError Bool :=
  removeFrom now key false (hdelOn field)

/--
`HGETALL` replies with a flat `[field, value, field, value, ...]` list.
-/
def hgetall (env : Env) (key : String) : Store → Store × Except StoreError (List String) :=
  readEntry env.now key (.ok []) fun entry =>
    entry.value.asHash.map fun hash =>
      (hash.hgetall (env.order (.value key))).flatMap fun (field, value) => [field, value]

def hkeys (env : Env) (key : String) : Store → Store × Except StoreError (List String) :=
  readEntry env.now key (.ok []) fun entry =>
    entry.value.asHash.map fun hash => hash.hkeys (env.order (.value key))

def hvals (env : Env) (key : String) : Store → Store × Except StoreError (List String) :=
  readEntry env.now key (.ok []) fun entry =>
    entry.value.asHash.map fun hash => hash.hvals (env.order (.value key))

def hlen (now : Instant) (key : String) : Store → Store × Except StoreError Nat :=
  readEntry now key (.ok 0) fun entry => entry.value.asHash.map RHash.hlen

def hexists (now : Instant) (key field : String) : Store → Store × Except StoreError Bool :=
  readEntry now key (.ok false) fun entry => entry.value.asHash.map fun hash => hash.hexists field

/--
The integer a hash field holds, starting from 0.
-/
def hashInteger (field : Option String) : Except StoreError Int64 :=
  match field with
  | some text =>
    match parseI64 text with
    | some current => .ok current
    | none => .error .notAHashInteger
  | none => .ok 0

def hincrOn (field : String) (delta : Int64) (value : Value) : Except StoreError (Value × Int64) :=
  value.asHash.bind fun hash =>
    (hashInteger (hash.hget field)).bind fun current =>
      match checkedAdd current delta with
      | some next => .ok (.hash (hash.hset field (toString next)).1, next)
      | none => .error .overflow

def hincrby (now : Instant) (key field : String) (delta : Int64)
    : Store → Store × Except StoreError Int64 :=
  updateOrCreate now key (.hash .new) (hincrOn field delta)

/-
Generic key operations
-/

/--
`Database::exists`: duplicates are counted each time.
-/
def existsCount (now : Instant) (keys : List String) (store : Store) : Nat :=
  (keys.filter fun key => (live now store key).isSome).length

def typeOf (now : Instant) (key : String) : Store → Store × String :=
  readEntry now key "none" fun entry => entry.value.typeName

def keys (env : Env) (pattern : String) (store : Store) : List String :=
  (env.order .keyspace store.keys).filter fun key =>
    (live env.now store key).isSome && globMatch pattern key

def expire (now : Instant) (key : String) (seconds : Int64) (store : Store) : Store × Bool :=
  match liveEntry now key store with
  | (store, none) => (store, false)
  | (store, some entry) =>
    if seconds ≤ 0 then
      (store.erase key, true)
    else
      (store.insert key { entry with expiresAt := deadlineAfter now seconds.toUInt64 }, true)

/--
The remaining seconds, `-2` for a missing key and `-1` for a key without a deadline.
-/
def ttl (now : Instant) (key : String) : Store → Store × Int64 :=
  readEntry now key (-2) fun entry => entry.remaining now

def persist (now : Instant) (key : String) (store : Store) : Store × Bool :=
  match liveEntry now key store with
  | (store, some entry) =>
    if entry.expiresAt.isSome then
      (store.insert key { entry with expiresAt := none }, true)
    else
      (store, false)
  | (store, none) => (store, false)

def rename (now : Instant) (key newKey : String) (store : Store) : Store × Bool :=
  match liveEntry now key store with
  | (store, some entry) => ((store.erase key).insert newKey entry, true)
  | (store, none) => (store, false)

def dbsize (now : Instant) (store : Store) : Nat :=
  (store.keys.filter fun key => (live now store key).isSome).length

def flushall (_ : Store) : Store := ∅

/--
Evict every expired key, returning how many were removed.
-/
def sweepExpired (now : Instant) (store : Store) : Store × Nat :=
  let swept := store.filter fun _ entry => !entry.isExpired now
  (swept, store.size - swept.size)

end Db
end RedisClone
