import RedisClone.Lib.LiveMap
import RedisClone.Rust.Instant
import RedisClone.Database.DataStructure

/-!
This module contains the keyspace: entries with an optional expiry deadline, the map that stores
them, and the helpers through which every database operation reaches an entry.
-/

namespace RedisClone

inductive StoreError where
  | wrongType
  | notAnInteger
  | notAHashInteger
  | overflow
  | noSuchKey
  | indexOutOfRange
  | scoreNaN
deriving DecidableEq

/--
`Display for StoreError`.
-/
def StoreError.toString : StoreError → String
  | .wrongType => "WRONGTYPE Operation against a key holding the wrong kind of value"
  | .notAnInteger => "ERR value is not an integer or out of range"
  | .notAHashInteger => "ERR hash value is not an integer"
  | .overflow => "ERR increment or decrement would overflow"
  | .noSuchKey => "ERR no such key"
  | .indexOutOfRange => "ERR index out of range"
  | .scoreNaN => "ERR resulting score is not a number (NaN)"

inductive Value where
  | str (value : String)
  | list (list : RList)
  | set (set : RSet)
  | sortedSet (zset : RSortedSet)
  | hash (hash : RHash)

namespace Value

/-
The views of a value as one particular type, `match &entry.value { .. _ => Err(WrongType) }`.
-/

def asStr : Value → Except StoreError String
  | .str inner => .ok inner
  | _ => .error .wrongType

def asList : Value → Except StoreError RList
  | .list inner => .ok inner
  | _ => .error .wrongType

def asSet : Value → Except StoreError RSet
  | .set inner => .ok inner
  | _ => .error .wrongType

def asSortedSet : Value → Except StoreError RSortedSet
  | .sortedSet inner => .ok inner
  | _ => .error .wrongType

def asHash : Value → Except StoreError RHash
  | .hash inner => .ok inner
  | _ => .error .wrongType

def typeName : Value → String
  | .str _ => "string"
  | .list _ => "list"
  | .set _ => "set"
  | .sortedSet _ => "zset"
  | .hash _ => "hash"

end Value

structure Entry where
  value : Value
  expiresAt : Option Instant

def Entry.isExpired (now : Instant) (entry : Entry) : Bool :=
  match entry.expiresAt with
  | some deadline => decide (deadline ≤ now)
  | none => false

def Entry.isLive (now : Instant) (entry : Entry) : Bool := !entry.isExpired now

/--
The seconds until the deadline of an entry, `-1` if it has none.
-/
def Entry.remaining (now : Instant) (entry : Entry) : Int64 :=
  match entry.expiresAt with
  | some deadline => Int64.ofNat (deadline.secsSince now)
  | none => -1

/--
The deadline `seconds` from now; an addition that overflows the clock means no expiry.
-/
def deadlineAfter (now : Instant) (seconds : UInt64) : Option Instant :=
  now.checkedAdd seconds

/--
The hash tables whose iteration order a command can observe: the keyspace, the collection stored at
a key, the result of a set operation, and the channels of a session.
-/
inductive HashTable where
  | keyspace
  | value (key : String)
  | result
  | channels

/--
What a command reads from its surroundings: the clock, the iteration order of the hash tables, and
how writing a snapshot file ends.
-/
structure Env where
  now : Instant
  order : HashTable → List String → List String
  order_perm : ∀ table keys, (order table keys).Perm keys
  saveOutcome : Except String Unit

def startOfClock : Instant := ⟨0, Instant.zero_inRange⟩

/--
Surroundings that list hash tables in the order of their keys.
-/
def envAt (now : Instant) : Env := ⟨now, fun _ keys => keys, fun _ keys => .refl keys, .ok ()⟩

abbrev Store := Std.ExtTreeMap String Entry

namespace Store

/--
The entry of a key unless it has expired, `Some(entry) if !entry.is_expired()`.
-/
def live (now : Instant) (store : Store) (key : String) : Option Entry :=
  LiveMap.live (Entry.isLive now) store key

/--
Lazy eviction: `if store.get(key).is_some_and(Entry::is_expired) { store.remove(key); }`.
-/
def evictExpired (now : Instant) (key : String) (store : Store) : Store :=
  if store[key]?.any (Entry.isExpired now) then store.erase key else store

/--
`live_entry`: the entry of a key after lazy eviction.
-/
def liveEntry (now : Instant) (key : String) (store : Store) : Store × Option Entry :=
  if store[key]?.any (Entry.isExpired now) then
    (store.erase key, none)
  else
    (store, store[key]?)

/--
`Database::read_entry`: pass the live entry to `read`, evict it if it has expired.
-/
def readEntry (now : Instant) (key : String) (absent : α) (read : Entry → α) (store : Store)
    : Store × α :=
  match store[key]? with
  | some entry =>
    if entry.isExpired now then
      (evictExpired now key store, absent)
    else
      (store, read entry)
  | none => (store, absent)

/--
`HashMap::entry(key).or_insert_with(..)` on an entry without a deadline.
-/
def entryOrInsert (key : String) (fresh : Value) (store : Store) : Store × Entry :=
  match store[key]? with
  | some entry => (store, entry)
  | none =>
    let entry := { value := fresh, expiresAt := none }
    (store.insert key entry, entry)

/--
The get-or-create path of the write commands (`entry_accessor!`, `incr_by`, `append`): the entry of
`key` is created with the value `fresh` if there is no live one, and only then is `act` run on it. A
failing `act` changes no value, but the entry stays.
-/
def updateOrCreate (now : Instant) (key : String) (fresh : Value)
    (act : Value → Except StoreError (Value × α)) (store : Store) : Store × Except StoreError α :=
  let (store, entry) := entryOrInsert key fresh (evictExpired now key store)
  match act entry.value with
  | .ok (value, result) => (store.insert key { entry with value }, .ok result)
  | .error error => (store, .error error)

/--
The path of the commands that remove elements (`pop`, `srem`, `spop`, `zrem`, `hdel`): `act` changes
the live entry and reports whether it became empty, in which case the key is dropped.
-/
def removeFrom (now : Instant) (key : String) (absent : α)
    (act : Value → Except StoreError (Value × α × Bool)) (store : Store)
    : Store × Except StoreError α :=
  match liveEntry now key store with
  | (store, none) => (store, .ok absent)
  | (store, some entry) =>
    match act entry.value with
    | .ok (value, result, isEmpty) =>
      let store := store.insert key { entry with value }
      (if isEmpty then store.erase key else store, .ok result)
    | .error error => (store, .error error)

end Store

end RedisClone
