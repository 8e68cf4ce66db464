import RedisClone.Command.Execute

/-!
This module contains the abstract meaning of the commands that work on one key: each is a function of
the live entry of its key, which it keeps, replaces or removes. Expiry, which the operations of the
database treat in several ways, has disappeared from it.
-/

namespace RedisClone

abbrev KeyOp (α : Type) := Option Entry → Option Entry × α

namespace KeyOp

def readOp (absent : α) (read : Entry → α) : KeyOp α
  | some entry => (some entry, read entry)
  | none => (none, absent)

def updateOp (fresh : Value) (act : Value → Except StoreError (Value × α))
    : KeyOp (Except StoreError α) := fun found =>
  let entry := found.getD { value := fresh, expiresAt := none }
  match act entry.value with
  | .ok (value, result) => (some { entry with value }, .ok result)
  | .error error => (some entry, .error error)

def removeOp (absent : α) (act : Value → Except StoreError (Value × α × Bool))
    : KeyOp (Except StoreError α)
  | some entry =>
    match act entry.value with
    | .ok (value, result, isEmpty) =>
      (if isEmpty then none else some { entry with value }, .ok result)
    | .error error => (some entry, .error error)
  | none => (none, .ok absent)

def overwriteOp (value : String) (expiresAt : Option Instant) (result : α) : KeyOp α := fun _ =>
  (some { value := .str value, expiresAt }, result)

def setnxOp (value : String) : KeyOp Bool
  | some entry => (some entry, false)
  | none => (some { value := .str value, expiresAt := none }, true)

def getsetOp (value : String) : KeyOp (Except StoreError (Option String))
  | some entry =>
    match entry.value.asStr with
    | .ok current => (some { value := .str value, expiresAt := none }, .ok (some current))
    | .error error => (some entry, .error error)
  | none => (some { value := .str value, expiresAt := none }, .ok none)

def lsetOp (index : Int64) (value : String) : KeyOp (Except StoreError Unit)
  | some entry =>
    match entry.value.asList with
    | .ok list =>
      match list.lset index value with
      | (list, true) => (some { entry with value := .list list }, .ok ())
      | (_, false) => (some entry, .error .indexOutOfRange)
    | .error error => (some entry, .error error)
  | none => (none, .error .noSuchKey)

def expireOp (now : Instant) (seconds : Int64) : KeyOp Bool
  | some entry =>
    if seconds ≤ 0 then
      (none, true)
    else
      (some { entry with expiresAt := deadlineAfter now seconds.toUInt64 }, true)
  | none => (none, false)

def persistOp : KeyOp Bool
  | some entry => (some { entry with expiresAt := none }, entry.expiresAt.isSome)
  | none => (none, false)

/--
The operation with its result encoded as a reply.
-/
def reply (op : KeyOp α) (encode : α → String) : KeyOp String := fun found =>
  ((op found).1, encode (op found).2)

end KeyOp

namespace Store

abbrev atKey (now : Instant) (key : String) (op : KeyOp α) (store : Store) : Store × α :=
  LiveMap.atKey (Entry.isLive now) key op store

/-
Every path to an entry is an operation on its key.
-/

variable {now : Instant} {key : String} {store : Store}

theorem live_of_expired {entry : Entry} (h : store[key]? = some entry)
    (hexpired : entry.isExpired now = true) : live now store key = none := by
  simp [live, LiveMap.live, h, Entry.isLive, Option.filter, hexpired]

theorem live_of_not_expired {entry : Entry} (h : store[key]? = some entry)
    (hexpired : entry.isExpired now = false) : live now store key = some entry := by
  simp [live, LiveMap.live, h, Entry.isLive, Option.filter, hexpired]

theorem live_of_absent (h : store[key]? = none) : live now store key = none := by
  simp [live, LiveMap.live, h]

theorem evictExpired_eq
    : evictExpired now key store = LiveMap.put store key (live now store key) := by
  unfold evictExpired
  cases h : store[key]? with
  | none =>
    rw [live_of_absent h, LiveMap.put_self h]
    rfl
  | some entry =>
    cases hexpired : entry.isExpired now with
    | true =>
      rw [live_of_expired h hexpired]
      simp [hexpired, LiveMap.put]
    | false =>
      rw [live_of_not_expired h hexpired, LiveMap.put_self h]
      simp [hexpired]

theorem liveEntry_eq
    : liveEntry now key store
        =
      (LiveMap.put store key (live now store key), live now store key) := by
  rw [← evictExpired_eq]
  unfold liveEntry evictExpired
  cases h : store[key]? with
  | none => simp [live_of_absent h]
  | some entry =>
    cases hexpired : entry.isExpired now with
    | true => simp [hexpired, live_of_expired h hexpired]
    | false => simp [hexpired, live_of_not_expired h hexpired]

theorem atKey_eq (op : KeyOp α)
    : atKey now key op store
        =
      (LiveMap.put store key (op (live now store key)).1, (op (live now store key)).2) := by
  rfl

@[simp]
theorem readOp_unchanged (absent : α) (read : Entry → α) (found : Option Entry)
    : (KeyOp.readOp absent read found).1 = found := by
  cases found <;> rfl

theorem readEntry_eq_atKey (absent : α) (read : Entry → α)
    : readEntry now key absent read = atKey now key (KeyOp.readOp absent read) := by
  funext store
  rw [atKey_eq, readOp_unchanged]
  unfold readEntry
  rw [evictExpired_eq]
  cases h : store[key]? with
  | none =>
    rw [live_of_absent h, LiveMap.put_self h]
    rfl
  | some entry =>
    cases hexpired : entry.isExpired now with
    | true =>
      rw [live_of_expired h hexpired]
      simp [hexpired, KeyOp.readOp]
    | false =>
      rw [live_of_not_expired h hexpired, LiveMap.put_self h]
      simp [hexpired, KeyOp.readOp]

theorem entryOrInsert_put (fresh : Value) (found : Option Entry)
    : entryOrInsert key fresh (LiveMap.put store key found)
        =
      (LiveMap.put store key (some (found.getD { value := fresh, expiresAt := none })),
        found.getD { value := fresh, expiresAt := none }) := by
  unfold entryOrInsert
  cases found <;> simp

theorem updateOrCreate_eq_atKey (fresh : Value) (act : Value → Except StoreError (Value × α))
    : updateOrCreate now key fresh act = atKey now key (KeyOp.updateOp fresh act) := by
  funext store
  unfold updateOrCreate
  rw [evictExpired_eq, entryOrInsert_put, atKey_eq]
  cases h : act ((live now store key).getD { value := fresh, expiresAt := none }).value with
  | ok changed => simp [KeyOp.updateOp, h]
  | error error => simp [KeyOp.updateOp, h]

theorem removeFrom_eq_atKey (absent : α) (act : Value → Except StoreError (Value × α × Bool))
    : removeFrom now key absent act = atKey now key (KeyOp.removeOp absent act) := by
  funext store
  unfold removeFrom
  rw [liveEntry_eq, atKey_eq]
  cases live now store key with
  | none => rfl
  | some entry =>
    cases h : act entry.value with
    | ok changed =>
      rcases changed with ⟨value, result, isEmpty⟩
      cases isEmpty <;> simp [KeyOp.removeOp, h]
    | error error => simp [KeyOp.removeOp, h]

theorem setnx_eq_atKey (value : String)
    : Db.setnx now key value = atKey now key (KeyOp.setnxOp value) := by
  funext store
  unfold Db.setnx
  rw [liveEntry_eq, atKey_eq]
  cases live now store key <;> simp [KeyOp.setnxOp]

theorem getset_eq_atKey (value : String)
    : Db.getset now key value = atKey now key (KeyOp.getsetOp value) := by
  funext store
  unfold Db.getset
  rw [liveEntry_eq, atKey_eq]
  cases live now store key with
  | none => simp [KeyOp.getsetOp]
  | some entry =>
    cases h : entry.value.asStr with
    | ok current => simp [KeyOp.getsetOp, h]
    | error error => simp [KeyOp.getsetOp, h]

theorem lset_eq_atKey (index : Int64) (value : String)
    : Db.lset now key index value = atKey now key (KeyOp.lsetOp index value) := by
  funext store
  unfold Db.lset
  rw [liveEntry_eq, atKey_eq]
  cases live now store key with
  | none => rfl
  | some entry =>
    cases h : entry.value.asList with
    | ok list =>
      rcases hlset : list.lset index value with ⟨list', _ | _⟩ <;> simp [KeyOp.lsetOp, h, hlset]
    | error error => simp [KeyOp.lsetOp, h]

theorem expire_eq_atKey (seconds : Int64)
    : Db.expire now key seconds = atKey now key (KeyOp.expireOp now seconds) := by
  funext store
  unfold Db.expire
  rw [liveEntry_eq, atKey_eq]
  cases live now store key with
  | none => rfl
  | some entry =>
    unfold KeyOp.expireOp
    dsimp only
    split <;> simp

theorem persist_eq_atKey : Db.persist now key = atKey now key KeyOp.persistOp := by
  funext store
  unfold Db.persist
  rw [liveEntry_eq, atKey_eq]
  cases live now store key with
  | none => rfl
  | some entry =>
    unfold KeyOp.persistOp
    rcases entry with ⟨value, _ | deadline⟩ <;> simp

end Store

open KeyOp in
/--
The key of a command that works on a single key, and what it does there. The commands without one
are those on several keys, on the whole keyspace, and on no key at all.
-/
def Command.keyOp (env : Env) : Command → Option (String × KeyOp String)
  | .set key value seconds =>
    some (key, overwriteOp value (seconds.bind (deadlineAfter env.now)) (Resp.simpleString "OK"))
  | .get key =>
    some (key, (readOp (.ok none) fun entry => entry.value.asStr.map some).reply Reply.optional)
  | .lPush key values =>
    some (key, (updateOp (.list .new) (Db.pushOn RList.lpush values)).reply Reply.count)
  | .rPush key values =>
    some (key, (updateOp (.list .new) (Db.pushOn RList.rpush values)).reply Reply.count)
  | .lPop key => some (key, (removeOp none (Db.popOn RList.lpop)).reply Reply.optional)
  | .rPop key => some (key, (removeOp none (Db.popOn RList.rpop)).reply Reply.optional)
  | .lRange key start stop =>
    some (key, (readOp (.ok []) fun entry =>
      entry.value.asList.map fun list => list.lrange start stop).reply Reply.array)
  | .sAdd key values => some (key, (updateOp (.set .new) (Db.saddOn values)).reply Reply.count)
  | .sRem key values => some (key, (removeOp 0 (Db.sremOn values)).reply Reply.count)
  | .sMembers key =>
    some (key, (readOp (.ok []) fun entry =>
      entry.value.asSet.map fun set => set.smembers (env.order (.value key))).reply Reply.array)
  | .sIsMember key value =>
    some (key, (readOp (.ok false) fun entry =>
      entry.value.asSet.map fun set => set.sismember value).reply Reply.bool)
  | .zAdd key members =>
    some (key, (updateOp (.sortedSet .new) (Db.zaddOn members)).reply Reply.count)
  | .zRem key member => some (key, (removeOp false (Db.zremOn member)).reply Reply.bool)
  | .zRange key start stop withScores =>
    if withScores then
      some (key, (readOp (.ok []) fun entry =>
        entry.value.asSortedSet.map fun zset =>
          zset.zrangeWithScores start stop).reply Reply.scoredMembers)
    else
      some (key, (readOp (.ok []) fun entry =>
        entry.value.asSortedSet.map fun zset => zset.zrange start stop).reply Reply.array)
  | .zScore key member =>
    some (key, (readOp (.ok none) fun entry =>
      entry.value.asSortedSet.map fun zset => zset.zscore member).reply Reply.optionalScore)
  | .hSet key field value =>
    some (key, (updateOp (.hash .new) (Db.hsetOn field value)).reply Reply.bool)
  | .hGet key field =>
    some (key, (readOp (.ok none) fun entry =>
      entry.value.asHash.map fun hash => hash.hget field).reply Reply.optional)
  | .hDel key field => some (key, (removeOp false (Db.hdelOn field)).reply Reply.bool)
  | .hGetAll key =>
    some (key, (readOp (.ok []) fun entry =>
      entry.value.asHash.map fun hash =>
        (hash.hgetall (env.order (.value key))).flatMap fun (field, value) =>
          [field, value]).reply Reply.array)
  | .hKeys key =>
    some (key, (readOp (.ok []) fun entry =>
      entry.value.asHash.map fun hash => hash.hkeys (env.order (.value key))).reply Reply.array)
  | .hVals key =>
    some (key, (readOp (.ok []) fun entry =>
      entry.value.asHash.map fun hash => hash.hvals (env.order (.value key))).reply Reply.array)
  | .hLen key =>
    some (key, (readOp (.ok 0) fun entry => entry.value.asHash.map RHash.hlen).reply Reply.count)
  | .hExists key field =>
    some (key, (readOp (.ok false) fun entry =>
      entry.value.asHash.map fun hash => hash.hexists field).reply Reply.bool)
  | .hIncrBy key field delta =>
    some (key, (updateOp (.hash .new) (Db.hincrOn field delta)).reply Reply.signed)
  | .type key =>
    some (key, (readOp "none" fun entry => entry.value.typeName).reply Resp.simpleString)
  | .expire key seconds => some (key, (expireOp env.now seconds).reply Reply.bit)
  | .ttl key =>
    some (key, (readOp (-2) fun entry => entry.remaining env.now).reply Resp.integer)
  | .persist key => some (key, persistOp.reply Reply.bit)
  | .incrBy key delta => some (key, (updateOp (.str "0") (Db.incrOn delta)).reply Reply.signed)
  | .append key value => some (key, (updateOp (.str "") (Db.appendOn value)).reply Reply.count)
  | .strLen key =>
    some (key, (readOp (.ok 0) fun entry =>
      entry.value.asStr.map String.utf8ByteSize).reply Reply.count)
  | .setNx key value => some (key, (setnxOp value).reply Reply.bit)
  | .getSet key value => some (key, (getsetOp value).reply Reply.optional)
  | .lLen key =>
    some (key, (readOp (.ok 0) fun entry => entry.value.asList.map RList.len).reply Reply.count)
  | .lIndex key index =>
    some (key, (readOp (.ok none) fun entry =>
      entry.value.asList.map fun list => list.lindex index).reply Reply.optional)
  | .lSet key index value => some (key, (lsetOp index value).reply Reply.status)
  | .sCard key =>
    some (key, (readOp (.ok 0) fun entry => entry.value.asSet.map RSet.scard).reply Reply.count)
  | .sPop key =>
    some (key, (removeOp none (Db.spopOn (env.order (.value key)))).reply Reply.optional)
  | .zCard key =>
    some (key, (readOp (.ok 0) fun entry =>
      entry.value.asSortedSet.map RSortedSet.zcard).reply Reply.count)
  | .zRank key member =>
    some (key, (readOp (.ok none) fun entry =>
      entry.value.asSortedSet.map fun zset => zset.zrank member).reply Reply.rank)
  | .zIncrBy key increment member =>
    some (key, (updateOp (.sortedSet .new) (Db.zincrOn increment member)).reply Reply.score)
  | .zRangeByScore key min minInclusive max maxInclusive =>
    some (key, (readOp (.ok []) fun entry =>
      entry.value.asSortedSet.map fun zset =>
        zset.zrangeByScore min minInclusive max maxInclusive).reply Reply.array)
  | _ => none

theorem run_eq_atKey {op : Store → Store × α} {now : Instant} {key : String} {keyOp : KeyOp α}
    (h : op = Store.atKey now key keyOp) (encode : α → String) (db : Database)
    : db.run op encode = db.run (Store.atKey now key (keyOp.reply encode)) id := by
  rw [h]
  rfl

/--
Running a command on a single key is running its abstract meaning there.
-/
theorem execute_eq_keyOp {env : Env} {command : Command} {key : String} {op : KeyOp String}
    (h : command.keyOp env = some (key, op)) (db : Database)
    : execute env command db = db.run (Store.atKey env.now key op) id := by
  cases command
  case zRange key start stop withScores =>
    cases withScores
    all_goals
      simp only [Command.keyOp, Option.some.injEq, Prod.mk.injEq, if_true, if_false,
        Bool.false_eq_true] at h
      rcases h with ⟨rfl, rfl⟩
      exact run_eq_atKey (Store.readEntry_eq_atKey _ _) _ db
  all_goals simp only [Command.keyOp, Option.some.injEq, Prod.mk.injEq, reduceCtorEq] at h
  all_goals rcases h with ⟨rfl, rfl⟩
  case set => rfl
  case setNx => exact run_eq_atKey (Store.setnx_eq_atKey _) _ db
  case getSet => exact run_eq_atKey (Store.getset_eq_atKey _) _ db
  case lSet => exact run_eq_atKey (Store.lset_eq_atKey _ _) _ db
  case expire => exact run_eq_atKey (Store.expire_eq_atKey _) _ db
  case persist => exact run_eq_atKey Store.persist_eq_atKey _ db
  case lPush | rPush | sAdd | zAdd | hSet | hIncrBy | incrBy | append | zIncrBy =>
    exact run_eq_atKey (Store.updateOrCreate_eq_atKey _ _) _ db
  case lPop | rPop | sRem | zRem | hDel | sPop =>
    exact run_eq_atKey (Store.removeFrom_eq_atKey _ _) _ db
  all_goals exact run_eq_atKey (Store.readEntry_eq_atKey _ _) _ db

end RedisClone
