import RedisClone.Keyspace.Eviction

/-!
This module contains the two locks that a read may take: `read_entry` looks at its key under the read
lock, and only if the key has expired it takes the write lock afterwards and evicts it. Between the two
halves anything may happen to the key.
-/

namespace RedisClone

open Store

/--
The first half of `read_entry`: the result, and whether the key has to be evicted.
-/
def Store.peekEntry (now : Instant) (key : String) (absent : α) (read : Entry → α) (store : Store)
    : α × Bool :=
  match store[key]? with
  | some entry => if !entry.isExpired now then (read entry, false) else (absent, true)
  | none => (absent, false)

/--
What a command passes to `read_entry`, its result encoded as a reply.
-/
structure EntryRead where
  key : String
  absent : String
  read : Entry → String

def EntryRead.encoded (key : String) (encode : β → String) (absent : β) (read : Entry → β)
    : EntryRead :=
  ⟨key, encode absent, fun entry => encode (read entry)⟩

def EntryRead.peek (now : Instant) (self : EntryRead) (store : Store) : String × Bool :=
  store.peekEntry now self.key self.absent self.read

open EntryRead in
/--
The commands that are a single call of `read_entry`.
-/
def Command.entryRead (env : Env) : Command → Option EntryRead
  | .get key => some <| encoded key Reply.optional (.ok none) fun entry => entry.value.asStr.map some
  | .strLen key =>
    some <| encoded key Reply.count (.ok 0) fun entry => entry.value.asStr.map String.utf8ByteSize
  | .lRange key start stop =>
    some <| encoded key Reply.array (.ok []) fun entry =>
      entry.value.asList.map fun list => list.lrange start stop
  | .lLen key =>
    some <| encoded key Reply.count (.ok 0) fun entry => entry.value.asList.map RList.len
  | .lIndex key index =>
    some <| encoded key Reply.optional (.ok none) fun entry =>
      entry.value.asList.map fun list => list.lindex index
  | .sMembers key =>
    some <| encoded key Reply.array (.ok []) fun entry =>
      entry.value.asSet.map fun set => set.smembers (env.order (.value key))
  | .sIsMember key value =>
    some <| encoded key Reply.bool (.ok false) fun entry =>
      entry.value.asSet.map fun set => set.sismember value
  | .sCard key =>
    some <| encoded key Reply.count (.ok 0) fun entry => entry.value.asSet.map RSet.scard
  | .zRange key start stop withScores =>
    if withScores then
      some <| encoded key Reply.scoredMembers (.ok []) fun entry =>
        entry.value.asSortedSet.map fun zset => zset.zrangeWithScores start stop
    else
      some <| encoded key Reply.array (.ok []) fun entry =>
        entry.value.asSortedSet.map fun zset => zset.zrange start stop
  | .zScore key member =>
    some <| encoded key Reply.optionalScore (.ok none) fun entry =>
      entry.value.asSortedSet.map fun zset => zset.zscore member
  | .zCard key =>
    some <| encoded key Reply.count (.ok 0) fun entry =>
      entry.value.asSortedSet.map RSortedSet.zcard
  | .zRank key member =>
    some <| encoded key Reply.rank (.ok none) fun entry =>
      entry.value.asSortedSet.map fun zset => zset.zrank member
  | .zRangeByScore key min minInclusive max maxInclusive =>
    some <| encoded key Reply.array (.ok []) fun entry =>
      entry.value.asSortedSet.map fun zset =>
        zset.zrangeByScore min minInclusive max maxInclusive
  | .hGet key field =>
    some <| encoded key Reply.optional (.ok none) fun entry =>
      entry.value.asHash.map fun hash => hash.hget field
  | .hGetAll key =>
    some <| encoded key Reply.array (.ok []) fun entry =>
      entry.value.asHash.map fun hash =>
        (hash.hgetall (env.order (.value key))).flatMap fun (field, value) => [field, value]
  | .hKeys key =>
    some <| encoded key Reply.array (.ok []) fun entry =>
      entry.value.asHash.map fun hash => hash.hkeys (env.order (.value key))
  | .hVals key =>
    some <| encoded key Reply.array (.ok []) fun entry =>
      entry.value.asHash.map fun hash => hash.hvals (env.order (.value key))
  | .hLen key =>
    some <| encoded key Reply.count (.ok 0) fun entry => entry.value.asHash.map RHash.hlen
  | .hExists key field =>
    some <| encoded key Reply.bool (.ok false) fun entry =>
      entry.value.asHash.map fun hash => hash.hexists field
  | .type key => some <| encoded key Resp.simpleString "none" fun entry => entry.value.typeName
  | .ttl key => some <| encoded key Resp.integer (-2) fun entry => entry.remaining env.now
  | _ => none

/--
Both halves of a read without anything in between.
-/
def EntryRead.halves (now : Instant) (self : EntryRead) (db : Database) : Database × String :=
  let peeked := self.peek now db.store
  ({ db with store := if peeked.2 then evictExpired now self.key db.store else db.store }, peeked.1)

theorem halves_encoded (now : Instant) (key : String) (encode : β → String) (absent : β)
    (read : Entry → β) (db : Database)
    : db.run (readEntry now key absent read) encode
        =
      (EntryRead.encoded key encode absent read).halves now db := by
  simp only [Database.run, EntryRead.halves, EntryRead.encoded, EntryRead.peek, peekEntry,
    readEntry]
  rcases Option.eq_none_or_eq_some db.store[key]? with hentry | ⟨entry, hentry⟩
  . simp [hentry]
  . cases hexpired : entry.isExpired now <;> simp [hentry, hexpired]

/--
A command that is a read does what its two halves do.
-/
theorem execute_eq_halves {env : Env} {command : Command} {read : EntryRead}
    (h : command.entryRead env = some read) (db : Database)
    : execute env command db = read.halves env.now db := by
  cases command
  case zRange key start stop withScores =>
    cases withScores
    all_goals
      simp only [Command.entryRead, if_true, if_false, Bool.false_eq_true, Option.some.injEq] at h
      rw [← h]
      apply halves_encoded
  all_goals simp only [Command.entryRead, Option.some.injEq, reduceCtorEq] at h
  all_goals
    rw [← h]
    apply halves_encoded

end RedisClone
