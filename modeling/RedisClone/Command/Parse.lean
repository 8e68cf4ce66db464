import RedisClone.Rust.Float

/-!
This module contains the first stage of command handling: a tokenized request becomes a typed
command or an error. It serves the inline protocol and array requests alike.
-/

namespace RedisClone

inductive Command where
  | set (key value : String) (ttl : Option UInt64)
  | get (key : String)
  | del (keys : List String)
  | lPush (key : String) (values : List String)
  | rPush (key : String) (values : List String)
  | lPop (key : String)
  | rPop (key : String)
  | lRange (key : String) (start stop : Int64)
  | sAdd (key : String) (values : List String)
  | sRem (key : String) (values : List String)
  | sMembers (key : String)
  | sIsMember (key value : String)
  | zAdd (key : String) (members : List (Float × String))
  | zRem (key member : String)
  | zRange (key : String) (start stop : Int64) (withScores : Bool)
  | zScore (key member : String)
  | hSet (key field value : String)
  | hGet (key field : String)
  | hDel (key field : String)
  | hGetAll (key : String)
  | hKeys (key : String)
  | hVals (key : String)
  | hLen (key : String)
  | hExists (key field : String)
  | hIncrBy (key field : String) (delta : Int64)
  | existsKeys (keys : List String)
  | type (key : String)
  | keys (pattern : String)
  | expire (key : String) (seconds : Int64)
  | ttl (key : String)
  | persist (key : String)
  | rename (key newKey : String)
  | ping (message : Option String)
  | echo (message : String)
  | dbSize
  | flushAll
  | info
  | save
  | bgSave
  | publish (channel message : String)
  | incrBy (key : String) (delta : Int64)
  | append (key value : String)
  | strLen (key : String)
  | mGet (keys : List String)
  | mSet (pairs : List (String × String))
  | setNx (key value : String)
  | getSet (key value : String)
  | lLen (key : String)
  | lIndex (key : String) (index : Int64)
  | lSet (key : String) (index : Int64) (value : String)
  | sCard (key : String)
  | sPop (key : String)
  | sInter (keys : List String)
  | sUnion (keys : List String)
  | sDiff (keys : List String)
  | zCard (key : String)
  | zRank (key member : String)
  | zIncrBy (key : String) (increment : Float) (member : String)
  | zRangeByScore (key : String) (min : Float) (minInclusive : Bool) (max : Float)
    (maxInclusive : Bool)

inductive CommandError where
  | empty
  | unknown (name : String)
  | wrongArity (command : String)
  | notAnInteger (value : String)
  | notAFloat (value : String)
deriving DecidableEq

/--
`Display for CommandError`.
-/
def CommandError.toString : CommandError → String
  | .empty => "ERR empty command"
  | .unknown name => "ERR unknown command '" ++ name ++ "'"
  | .wrongArity command =>
    "ERR wrong number of arguments for '" ++ toAsciiLowercase command ++ "' command"
  | .notAnInteger value => "ERR value '" ++ value ++ "' is not a valid integer"
  | .notAFloat value => "ERR value '" ++ value ++ "' is not a valid float"

namespace Command

def arity (command : String) : CommandError := .wrongArity command

def singleKey (args : List String) (command : String) : Except CommandError String :=
  match args with
  | [key] => .ok key
  | _ => .error (arity command)

def keyValue (args : List String) (command : String) : Except CommandError (String × String) :=
  match args with
  | [key, value] => .ok (key, value)
  | _ => .error (arity command)

def nonEmptyArgs (args : List String) (command : String) : Except CommandError (List String) :=
  if args.isEmpty then .error (arity command) else .ok args

def keyAndValues (args : List String) (command : String)
    : Except CommandError (String × List String) :=
  match args with
  | key :: value :: values => .ok (key, value :: values)
  | _ => .error (arity command)

/--
`parse_number`, for the number type that `parse` reads.
-/
def parseNumber (parse : String → Option α) (raw : String) (toError : String → CommandError)
    : Except CommandError α :=
  match parse raw with
  | some number => .ok number
  | none => .error (toError raw)

/--
A score is any number but NaN, which has no place in the order.
-/
def parseScore (raw : String) : Except CommandError Float :=
  match parseF64 raw with
  | some score => if score.isNaN then .error (.notAFloat raw) else .ok score
  | none => .error (.notAFloat raw)

def negate (value : Int64) : Except CommandError Int64 :=
  match checkedNeg value with
  | some value => .ok value
  | none => .error (.notAnInteger (toString value))

/--
A bound of `ZRANGEBYSCORE` and whether it is inclusive; a leading `(` makes it exclusive.
-/
def parseScoreBound (raw : String) : Except CommandError (Float × Bool) := do
  let (inclusive, number) :=
    match stripPrefix '(' raw with
    | some rest => (false, rest)
    | none => (true, raw)
  let score ←
    match toAsciiLowercase number with
    | "+inf" | "inf" => .ok f64Infinity
    | "-inf" => .ok f64NegInfinity
    | other =>
      match parseF64 other with
      | some score => if score.isNaN then .error (.notAFloat raw) else .ok score
      | none => .error (.notAFloat raw)
  .ok (score, inclusive)

/--
The `score member` pairs of `ZADD`.
-/
def scorePairs : List String → Except CommandError (List (Float × String))
  | score :: member :: rest => do
    let score ← parseScore score
    let members ← scorePairs rest
    .ok ((score, member) :: members)
  | _ => .ok []

/--
The `key value` pairs of `MSET`.
-/
def keyPairs : List String → List (String × String)
  | key :: value :: rest => (key, value) :: keyPairs rest
  | _ => []

/--
`Command::parse` once the name is in upper case; `raw` is the name as it was sent.
-/
def parseNamed (raw name : String) (args : List String) : Except CommandError Command :=
  match name with
  | "SET" =>
    match args with
    | [key, value] => .ok (.set key value none)
    | [key, value, option, seconds] =>
      if eqIgnoreAsciiCase option "EX" || eqIgnoreAsciiCase option "EXP" then do
        .ok (.set key value (some (← parseNumber parseU64 seconds .notAnInteger)))
      else
        .error (arity "SET")
    | _ => .error (arity "SET")
  | "GET" => do .ok (.get (← singleKey args "GET"))
  | "DEL" => do .ok (.del (← nonEmptyArgs args "DEL"))
  | "LPUSH" => do
    let (key, values) ← keyAndValues args "LPUSH"
    .ok (.lPush key values)
  | "RPUSH" => do
    let (key, values) ← keyAndValues args "RPUSH"
    .ok (.rPush key values)
  | "LPOP" => do .ok (.lPop (← singleKey args "LPOP"))
  | "RPOP" => do .ok (.rPop (← singleKey args "RPOP"))
  | "LRANGE" =>
    match args with
    | [key, start, stop] => do
      let start ← parseNumber parseI64 start .notAnInteger
      let stop ← parseNumber parseI64 stop .notAnInteger
      .ok (.lRange key start stop)
    | _ => .error (arity "LRANGE")
  | "SADD" => do
    let (key, values) ← keyAndValues args "SADD"
    .ok (.sAdd key values)
  | "SREM" => do
    let (key, values) ← keyAndValues args "SREM"
    .ok (.sRem key values)
  | "SMEMBERS" => do .ok (.sMembers (← singleKey args "SMEMBERS"))
  | "SISMEMBER" => do
    let (key, value) ← keyValue args "SISMEMBER"
    .ok (.sIsMember key value)
  | "ZADD" =>
    match args with
    | key :: rest =>
      if !rest.isEmpty && rest.length % 2 == 0 then do
        .ok (.zAdd key (← scorePairs rest))
      else
        .error (arity "ZADD")
    | _ => .error (arity "ZADD")
  | "ZREM" => do
    let (key, member) ← keyValue args "ZREM"
    .ok (.zRem key member)
  | "ZRANGE" =>
    match args with
    | [key, start, stop] => do
      let start ← parseNumber parseI64 start .notAnInteger
      let stop ← parseNumber parseI64 stop .notAnInteger
      .ok (.zRange key start stop false)
    | [key, start, stop, option] =>
      if eqIgnoreAsciiCase option "WITHSCORES" then do
        let start ← parseNumber parseI64 start .notAnInteger
        let stop ← parseNumber parseI64 stop .notAnInteger
        .ok (.zRange key start stop true)
      else
        .error (arity "ZRANGE")
    | _ => .error (arity "ZRANGE")
  | "ZSCORE" => do
    let (key, member) ← keyValue args "ZSCORE"
    .ok (.zScore key member)
  | "HSET" =>
    match args with
    | [key, field, value] => .ok (.hSet key field value)
    | _ => .error (arity "HSET")
  | "HGET" => do
    let (key, field) ← keyValue args "HGET"
    .ok (.hGet key field)
  | "HDEL" => do
    let (key, field) ← keyValue args "HDEL"
    .ok (.hDel key field)
  | "HGETALL" => do .ok (.hGetAll (← singleKey args "HGETALL"))
  | "HKEYS" => do .ok (.hKeys (← singleKey args "HKEYS"))
  | "HVALS" => do .ok (.hVals (← singleKey args "HVALS"))
  | "HLEN" => do .ok (.hLen (← singleKey args "HLEN"))
  | "HEXISTS" => do
    let (key, field) ← keyValue args "HEXISTS"
    .ok (.hExists key field)
  | "HINCRBY" =>
    match args with
    | [key, field, delta] => do
      .ok (.hIncrBy key field (← parseNumber parseI64 delta .notAnInteger))
    | _ => .error (arity "HINCRBY")
  | "EXISTS" => do .ok (.existsKeys (← nonEmptyArgs args "EXISTS"))
  | "TYPE" => do .ok (.type (← singleKey args "TYPE"))
  | "KEYS" => do .ok (.keys (← singleKey args "KEYS"))
  | "EXPIRE" =>
    match args with
    | [key, seconds] => do .ok (.expire key (← parseNumber parseI64 seconds .notAnInteger))
    | _ => .error (arity "EXPIRE")
  | "TTL" => do .ok (.ttl (← singleKey args "TTL"))
  | "PERSIST" => do .ok (.persist (← singleKey args "PERSIST"))
  | "RENAME" => do
    let (key, newKey) ← keyValue args "RENAME"
    .ok (.rename key newKey)
  | "PING" =>
    match args with
    | [] => .ok (.ping none)
    | [message] => .ok (.ping (some message))
    | _ => .error (arity "PING")
  | "ECHO" => do .ok (.echo (← singleKey args "ECHO"))
  | "DBSIZE" =>
    match args with
    | [] => .ok .dbSize
    | _ => .error (arity "DBSIZE")
  | "FLUSHALL" =>
    match args with
    | [] => .ok .flushAll
    | _ => .error (arity "FLUSHALL")
  | "INFO" => .ok .info
  | "SAVE" => .ok .save
  | "BGSAVE" => .ok .bgSave
  | "PUBLISH" => do
    let (channel, message) ← keyValue args "PUBLISH"
    .ok (.publish channel message)
  | "INCR" => do .ok (.incrBy (← singleKey args "INCR") 1)
  | "DECR" => do .ok (.incrBy (← singleKey args "DECR") (-1))
  | "INCRBY" =>
    match args with
    | [key, delta] => do .ok (.incrBy key (← parseNumber parseI64 delta .notAnInteger))
    | _ => .error (arity "INCRBY")
  | "DECRBY" =>
    match args with
    | [key, delta] => do
      let delta ← parseNumber parseI64 delta .notAnInteger
      .ok (.incrBy key (← negate delta))
    | _ => .error (arity "DECRBY")
  | "APPEND" => do
    let (key, value) ← keyValue args "APPEND"
    .ok (.append key value)
  | "STRLEN" => do .ok (.strLen (← singleKey args "STRLEN"))
  | "MGET" => do .ok (.mGet (← nonEmptyArgs args "MGET"))
  | "MSET" =>
    if args.isEmpty || args.length % 2 != 0 then
      .error (arity "MSET")
    else
      .ok (.mSet (keyPairs args))
  | "SETNX" => do
    let (key, value) ← keyValue args "SETNX"
    .ok (.setNx key value)
  | "GETSET" => do
    let (key, value) ← keyValue args "GETSET"
    .ok (.getSet key value)
  | "LLEN" => do .ok (.lLen (← singleKey args "LLEN"))
  | "LINDEX" =>
    match args with
    | [key, index] => do .ok (.lIndex key (← parseNumber parseI64 index .notAnInteger))
    | _ => .error (arity "LINDEX")
  | "LSET" =>
    match args with
    | [key, index, value] => do
      .ok (.lSet key (← parseNumber parseI64 index .notAnInteger) value)
    | _ => .error (arity "LSET")
  | "SCARD" => do .ok (.sCard (← singleKey args "SCARD"))
  | "SPOP" => do .ok (.sPop (← singleKey args "SPOP"))
  | "SINTER" => do .ok (.sInter (← nonEmptyArgs args "SINTER"))
  | "SUNION" => do .ok (.sUnion (← nonEmptyArgs args "SUNION"))
  | "SDIFF" => do .ok (.sDiff (← nonEmptyArgs args "SDIFF"))
  | "ZCARD" => do .ok (.zCard (← singleKey args "ZCARD"))
  | "ZRANK" => do
    let (key, member) ← keyValue args "ZRANK"
    .ok (.zRank key member)
  | "ZINCRBY" =>
    match args with
    | [key, increment, member] => do .ok (.zIncrBy key (← parseScore increment) member)
    | _ => .error (arity "ZINCRBY")
  | "ZRANGEBYSCORE" =>
    match args with
    | [key, min, max] => do
      let (min, minInclusive) ← parseScoreBound min
      let (max, maxInclusive) ← parseScoreBound max
      .ok (.zRangeByScore key min minInclusive max maxInclusive)
    | _ => .error (arity "ZRANGEBYSCORE")
  | _ => .error (.unknown raw)

def parse (tokens : List String) : Except CommandError Command :=
  match tokens with
  | [] => .error .empty
  | name :: args => parseNamed name (toAsciiUppercase name) args

/--
Whether a command mutates the keyspace, and so is logged once it succeeds.
-/
def isWrite : Command → Bool
  | .set .. | .del .. | .lPush .. | .rPush .. | .lPop .. | .rPop .. | .sAdd .. | .sRem ..
  | .zAdd .. | .zRem .. | .hSet .. | .hDel .. | .hIncrBy .. | .expire .. | .persist ..
  | .rename .. | .flushAll | .incrBy .. | .append .. | .mSet .. | .setNx .. | .getSet ..
  | .lSet .. | .zIncrBy .. => true
  | _ => false

end Command
end RedisClone
