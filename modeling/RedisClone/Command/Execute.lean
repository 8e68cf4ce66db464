import RedisClone.Command.Parse
import RedisClone.Database

/-!
This module contains the second and third stage of command handling: running a command against the
database and encoding its outcome, and the entry point that does all stages for one request.
-/

namespace RedisClone

namespace Reply

def optional : Except StoreError (Option String) → String
  | .ok (some value) => Resp.bulkString value
  | .ok none => Resp.null
  | .error error => Resp.error error.toString

def array : Except StoreError (List String) → String
  | .ok values => Resp.array values
  | .error error => Resp.error error.toString

/--
`value as i64` of a `bool`.
-/
def bit (value : Bool) : String := Resp.integer (if value then 1 else 0)

def bool : Except StoreError Bool → String
  | .ok value => bit value
  | .error error => Resp.error error.toString

/--
`count as i64` of a `usize`.
-/
def number (count : Nat) : String := Resp.integer (Int64.ofNat count)

def count : Except StoreError Nat → String
  | .ok count => number count
  | .error error => Resp.error error.toString

def signed : Except StoreError Int64 → String
  | .ok value => Resp.integer value
  | .error error => Resp.error error.toString

def status : Except StoreError Unit → String
  | .ok () => Resp.simpleString "OK"
  | .error error => Resp.error error.toString

def formatScore (score : Float) : String := displayF64 score

def score : Except StoreError Float → String
  | .ok score => Resp.bulkString (formatScore score)
  | .error error => Resp.error error.toString

def optionalScore : Except StoreError (Option Float) → String
  | .ok (some score) => Resp.bulkString (formatScore score)
  | .ok none => Resp.null
  | .error error => Resp.error error.toString

def scoredMembers : Except StoreError (List (String × Float)) → String
  | .ok pairs => Resp.array (pairs.flatMap fun (member, score) => [member, formatScore score])
  | .error error => Resp.error error.toString

def rank : Except StoreError (Option Nat) → String
  | .ok (some rank) => number rank
  | .ok none => Resp.null
  | .error error => Resp.error error.toString

def renamed (found : Bool) : String :=
  if found then Resp.simpleString "OK" else Resp.error "ERR no such key"

/--
Error replies are the ones that start with `-`.
-/
def isError (reply : String) : Bool := reply.toList.head? == some '-'

@[simp]
theorem isError_append (s t : String) (h : s.toList ≠ [])
    : isError (s ++ t) = isError s := by
  unfold isError
  rw [String.toList_append, List.head?_append_of_ne_nil _ h]

@[simp]
theorem isError_simpleString (value : String) : isError (Resp.simpleString value) = false := by
  rw [Resp.simpleString, String.append_assoc, isError_append _ _ (by decide)]
  rfl

@[simp]
theorem isError_error (message : String) : isError (Resp.error message) = true := by
  rw [Resp.error, String.append_assoc, isError_append _ _ (by decide)]
  rfl

@[simp]
theorem isError_integer (value : Int64) : isError (Resp.integer value) = false := by
  rw [Resp.integer, String.append_assoc, isError_append _ _ (by decide)]
  rfl

@[simp]
theorem isError_bulkString (value : String) : isError (Resp.bulkString value) = false := by
  simp only [Resp.bulkString, String.append_assoc]
  rw [isError_append _ _ (by decide)]
  rfl

@[simp]
theorem isError_null : isError Resp.null = false := by
  rfl

theorem isError_header_append (len : Nat) (s : String)
    : isError (Resp.header len ++ s) = false := by
  simp only [Resp.header, String.append_assoc]
  rw [isError_append _ _ (by decide)]
  rfl

@[simp]
theorem isError_array (items : List String) : isError (Resp.array items) = false := by
  rw [Resp.array_eq, isError_header_append]

@[simp]
theorem isError_nullableArray (items : List (Option String))
    : isError (Resp.nullableArray items) = false := by
  rw [Resp.nullableArray_eq, isError_header_append]

end Reply

def execute (env : Env) (command : Command) (db : Database) : Database × String :=
  let now := env.now
  match command with
  | .set key value ttl =>
    ({ db with store := Db.set now key value ttl db.store }, Resp.simpleString "OK")
  | .get key => db.run (Db.get now key) Reply.optional
  | .del keys => db.run (Db.del now keys) Reply.number
  | .lPush key values => db.run (Db.lpush now key values) Reply.count
  | .rPush key values => db.run (Db.rpush now key values) Reply.count
  | .lPop key => db.run (Db.lpop now key) Reply.optional
  | .rPop key => db.run (Db.rpop now key) Reply.optional
  | .lRange key start stop => db.run (Db.lrange now key start stop) Reply.array
  | .sAdd key values => db.run (Db.sadd now key values) Reply.count
  | .sRem key values => db.run (Db.srem now key values) Reply.count
  | .sMembers key => db.run (Db.smembers env key) Reply.array
  | .sIsMember key value => db.run (Db.sismember now key value) Reply.bool
  | .zAdd key members => db.run (Db.zadd now key members) Reply.count
  | .zRem key member => db.run (Db.zrem now key member) Reply.bool
  | .zRange key start stop withScores =>
    if withScores then
      db.run (Db.zrangeWithScores now key start stop) Reply.scoredMembers
    else
      db.run (Db.zrange now key start stop) Reply.array
  | .zScore key member => db.run (Db.zscore now key member) Reply.optionalScore
  | .hSet key field value => db.run (Db.hset now key field value) Reply.bool
  | .hGet key field => db.run (Db.hget now key field) Reply.optional
  | .hDel key field => db.run (Db.hdel now key field) Reply.bool
  | .hGetAll key => db.run (Db.hgetall env key) Reply.array
  | .hKeys key => db.run (Db.hkeys env key) Reply.array
  | .hVals key => db.run (Db.hvals env key) Reply.array
  | .hLen key => db.run (Db.hlen now key) Reply.count
  | .hExists key field => db.run (Db.hexists now key field) Reply.bool
  | .hIncrBy key field delta => db.run (Db.hincrby now key field delta) Reply.signed
  | .existsKeys keys => (db, Reply.number (Db.existsCount now keys db.store))
  | .type key => db.run (Db.typeOf now key) Resp.simpleString
  | .keys pattern => (db, Resp.array (Db.keys env pattern db.store))
  | .expire key seconds => db.run (Db.expire now key seconds) Reply.bit
  | .ttl key => db.run (Db.ttl now key) Resp.integer
  | .persist key => db.run (Db.persist now key) Reply.bit
  | .rename key newKey => db.run (Db.rename now key newKey) Reply.renamed
  | .ping message =>
    match message with
    | some message => (db, Resp.bulkString message)
    | none => (db, Resp.simpleString "PONG")
  | .echo message => (db, Resp.bulkString message)
  | .dbSize => (db, Reply.number (Db.dbsize now db.store))
  | .flushAll => ({ db with store := Db.flushall db.store }, Resp.simpleString "OK")
  | .info => (db, Resp.bulkString (db.info now))
  | .save =>
    match db.save env with
    | .ok () => (db, Resp.simpleString "OK")
    | .error cause => (db, Resp.error ("ERR " ++ cause))
  | .bgSave => (db, Resp.simpleString "Background saving started")
  | .publish channel message =>
    ((db.publish channel message).1, Reply.number (db.publish channel message).2)
  | .incrBy key delta => db.run (Db.incrBy now key delta) Reply.signed
  | .append key value => db.run (Db.append now key value) Reply.count
  | .strLen key => db.run (Db.strlen now key) Reply.count
  | .mGet keys => (db, Resp.nullableArray (Db.mget now keys db.store))
  | .mSet pairs => ({ db with store := Db.mset pairs db.store }, Resp.simpleString "OK")
  | .setNx key value => db.run (Db.setnx now key value) Reply.bit
  | .getSet key value => db.run (Db.getset now key value) Reply.optional
  | .lLen key => db.run (Db.llen now key) Reply.count
  | .lIndex key index => db.run (Db.lindex now key index) Reply.optional
  | .lSet key index value => db.run (Db.lset now key index value) Reply.status
  | .sCard key => db.run (Db.scard now key) Reply.count
  | .sPop key => db.run (Db.spop env key) Reply.optional
  | .sInter keys => (db, Reply.array (Db.sinter env keys db.store))
  | .sUnion keys => (db, Reply.array (Db.sunion env keys db.store))
  | .sDiff keys => (db, Reply.array (Db.sdiff env keys db.store))
  | .zCard key => db.run (Db.zcard now key) Reply.count
  | .zRank key member => db.run (Db.zrank now key member) Reply.rank
  | .zIncrBy key increment member => db.run (Db.zincrby now key increment member) Reply.score
  | .zRangeByScore key min minInclusive max maxInclusive =>
    db.run (Db.zrangeByScore now key min minInclusive max maxInclusive) Reply.array

/--
Parse and execute one request and log it if it is a successful write. `SPOP` removes an arbitrary
member, so the `SREM` of the member it removed is logged in its place.
-/
def dispatch (env : Env) (tokens : List String) (db : Database) : Database × String :=
  if tokens.isEmpty then
    (db, "")
  else
    match Command.parse tokens with
    | .ok (.sPop key) =>
      let (store, popped) := Db.spop env key db.store
      let db := { db with store }
      match popped with
      | .ok (some member) => (db.logWrite ["SREM", key, member], Reply.optional popped)
      | _ => (db, Reply.optional popped)
    | .ok command =>
      let (db, reply) := execute env command db
      (if command.isWrite && !Reply.isError reply then db.logWrite tokens else db, reply)
    | .error error => (db, Resp.error error.toString)

end RedisClone
