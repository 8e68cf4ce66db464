import RedisClone.Lib.LocalMap
import RedisClone.Server.Recovery

/-!
This module contains the proof that commands on disjoint keys commute: each reads and writes the
entries of the keys it names, and nothing else of the keyspace.
-/

namespace RedisClone

open Store LiveMap

/--
The keys a command names. There are none for the commands about the whole keyspace, for `PUBLISH`
and for the commands about the server.
-/
def Command.namedKeys : Command → Option (List String)
  | .set key _ _ | .get key | .lPush key _ | .rPush key _ | .lPop key | .rPop key
  | .lRange key _ _ | .sAdd key _ | .sRem key _ | .sMembers key | .sIsMember key _ | .zAdd key _
  | .zRem key _ | .zRange key _ _ _ | .zScore key _ | .hSet key _ _ | .hGet key _ | .hDel key _
  | .hGetAll key | .hKeys key | .hVals key | .hLen key | .hExists key _ | .hIncrBy key _ _
  | .type key | .expire key _ | .ttl key | .persist key | .incrBy key _ | .append key _
  | .strLen key | .setNx key _ | .getSet key _ | .lLen key | .lIndex key _ | .lSet key _ _
  | .sCard key | .sPop key | .zCard key | .zRank key _ | .zIncrBy key _ _
  | .zRangeByScore key _ _ _ _ => some [key]
  | .del names | .existsKeys names | .mGet names | .sInter names | .sUnion names
  | .sDiff names => some names
  | .mSet pairs => some (pairs.map Prod.fst)
  | .rename key newKey => some [key, newKey]
  | .ping _ | .echo _ => some []
  | .keys _ | .dbSize | .flushAll | .info | .save | .bgSave | .publish _ _ => none

theorem namedKeys_of_keyOp {env : Env} {command : Command} {key : String} {op : KeyOp String}
    (h : command.keyOp env = some (key, op))
    : command.namedKeys = some [key] := by
  cases command
  case zRange key start stop withScores =>
    cases withScores
    all_goals
      simp only [Command.keyOp, if_true, if_false, Bool.false_eq_true, Option.some.injEq,
        Prod.mk.injEq] at h
      rw [← h.1]
      rfl
  all_goals simp only [Command.keyOp, Option.some.injEq, Prod.mk.injEq, reduceCtorEq] at h
  all_goals
    rw [← h.1]
    rfl

/-
The commands on several keys.
-/

section

variable {now : Instant} {keys : List String} {m m' : Store}

theorem live_of_agreeOn (hagree : AgreeOn keys m m') {key : String} (hmem : key ∈ keys)
    : live now m key = live now m' key := by
  exact LocalTo.live_congr _ hagree hmem

theorem localTo_liveEntry (now : Instant) (key : String)
    : LocalTo [key] (liveEntry now key) := by
  have heq : liveEntry now key = atKey now key fun found => (found, found) := by
    funext store
    rw [liveEntry_eq, atKey_eq]
  rw [heq]
  exact LocalTo.atKey _ key _

theorem localTo_del (now : Instant) (keys : List String) : LocalTo keys (Db.del now keys) := by
  apply LocalTo.foldl
  intro key hmem removed
  have hsub : ∀ k ∈ [key], k ∈ keys := by
    simpa using hmem
  have hevict := (localTo_liveEntry now key).mono hsub
  have hdrop : ∀ found, LocalTo keys fun store : Store =>
      match found with
      | some (_ : Entry) => (store.erase key, removed + 1)
      | none => (store, removed) := by
    intro found
    cases found with
    | none => exact LocalTo.pure keys removed
    | some entry => exact (LocalTo.put key none (removed + 1)).mono hsub
  apply (hevict.bind hdrop).congr
  intro store
  dsimp only
  rcases liveEntry now key store with ⟨store', _ | entry⟩ <;> rfl

theorem localTo_mset (pairs : List (String × String)) (a : α)
    : LocalTo (pairs.map Prod.fst) fun store : Store => (Db.mset pairs store, a) := by
  unfold Db.mset
  induction pairs with
  | nil => exact LocalTo.pure _ a
  | cons pair pairs ih =>
    let entry : Entry := { value := .str pair.2, expiresAt := none }
    have hmem : pair.1 ∈ (pair :: pairs).map Prod.fst := List.mem_cons_self
    have hfirst : LocalTo ((pair :: pairs).map Prod.fst) fun store : Store =>
        (LiveMap.put store pair.1 (some entry), ()) :=
      (LocalTo.put pair.1 (some entry) ()).mono (List.forall_mem_singleton.mpr hmem)
    have hrest := ih.mono fun k hmem => List.mem_cons_of_mem pair.1 hmem
    exact hfirst.bind fun _ => hrest

theorem localTo_rename (now : Instant) (key newKey : String)
    : LocalTo [key, newKey] (Db.rename now key newKey) := by
  have hevict : LocalTo [key, newKey] (liveEntry now key) :=
    (localTo_liveEntry now key).mono (by simp)
  have herase : LocalTo [key, newKey] fun store : Store => (LiveMap.put store key none, ()) :=
    (LocalTo.put key none ()).mono (by simp)
  have hmove : ∀ found : Option Entry, LocalTo [key, newKey] fun store : Store =>
      found.elim (store, false) fun entry => ((store.erase key).insert newKey entry, true) := by
    intro found
    cases found with
    | none => exact LocalTo.pure _ false
    | some entry =>
      have hinsert : LocalTo [key, newKey] fun store : Store =>
          (LiveMap.put store newKey (some entry), true) :=
        (LocalTo.put newKey (some entry) true).mono (by simp)
      exact herase.bind fun _ => hinsert
  apply (hevict.bind hmove).congr
  intro store
  unfold Db.rename
  rcases liveEntry now key store with ⟨store', _ | entry⟩ <;> rfl

theorem setMembersOf_of_agreeOn (hagree : AgreeOn keys m m') {key : String} (hmem : key ∈ keys)
    : Db.setMembersOf now m key = Db.setMembersOf now m' key := by
  unfold Db.setMembersOf
  rw [live_of_agreeOn hagree hmem]

theorem combineSets_of_agreeOn (hagree : AgreeOn keys m m')
    (combine : Std.ExtTreeSet String → Std.ExtTreeSet String → Std.ExtTreeSet String)
    (result : Std.ExtTreeSet String) {others : List String} (hsub : ∀ key ∈ others, key ∈ keys)
    : Db.combineSets now m combine result others = Db.combineSets now m' combine result others := by
  unfold Db.combineSets
  induction others generalizing result with
  | nil => rfl
  | cons key others ih =>
    rw [List.foldlM_cons, List.foldlM_cons,
      setMembersOf_of_agreeOn hagree (hsub key List.mem_cons_self)]
    congr 1
    funext result
    exact ih result fun other hmem => hsub other (List.mem_cons_of_mem _ hmem)

end

variable {env : Env} {command : Command} {keys : List String}

/--
A command works on the keys it names.
-/
theorem execute_local (h : command.namedKeys = some keys) (env : Env)
    : ∃ op : Store → Store × String, LocalTo keys op ∧ ∀ db, execute env command db = db.run op id
    := by
  cases hkey : command.keyOp env with
  | some keyOp =>
    rw [namedKeys_of_keyOp hkey] at h
    cases h
    exact ⟨_, LocalTo.atKey _ _ keyOp.2, execute_eq_keyOp hkey⟩
  | none =>
    cases command
    case zRange key start stop withScores => cases withScores <;> cases hkey
    all_goals simp only [Command.namedKeys, Option.some.injEq, reduceCtorEq] at h
    all_goals simp only [Command.keyOp, reduceCtorEq] at hkey
    all_goals subst h
    case del keys =>
      exact ⟨_, (localTo_del env.now keys).bind fun removed => .pure keys (Reply.number removed),
        fun db => rfl⟩
    case mSet pairs => exact ⟨_, localTo_mset pairs (Resp.simpleString "OK"), fun db => rfl⟩
    case rename key newKey =>
      exact ⟨_, (localTo_rename env.now key newKey).bind fun found => .pure _ (Reply.renamed found),
        fun db => rfl⟩
    case ping message => cases message <;> exact ⟨_, .pure [] _, fun db => rfl⟩
    case echo message => exact ⟨_, .pure [] _, fun db => rfl⟩
    case existsKeys keys =>
      refine ⟨fun store => (store, Reply.number (Db.existsCount env.now keys store)), ?_,
        fun db => rfl⟩
      apply LocalTo.read
      intro m m' hagree
      unfold Db.existsCount
      congr 2
      apply List.filter_congr
      intro key hmem
      rw [live_of_agreeOn hagree hmem]
    case mGet keys =>
      refine ⟨fun store => (store, Resp.nullableArray (Db.mget env.now keys store)), ?_,
        fun db => rfl⟩
      apply LocalTo.read
      intro m m' hagree
      unfold Db.mget
      congr 1
      apply List.map_congr_left
      intro key hmem
      rw [live_of_agreeOn hagree hmem]
    case sInter keys =>
      refine ⟨fun store => (store, Reply.array (Db.sinter env keys store)), ?_, fun db => rfl⟩
      apply LocalTo.read
      intro m m' hagree
      cases keys with
      | nil => rfl
      | cons key others =>
        unfold Db.sinter
        dsimp only
        rw [setMembersOf_of_agreeOn hagree List.mem_cons_self]
        simp only [combineSets_of_agreeOn hagree _ _ fun other => List.mem_cons_of_mem key]
    case sDiff keys =>
      refine ⟨fun store => (store, Reply.array (Db.sdiff env keys store)), ?_, fun db => rfl⟩
      apply LocalTo.read
      intro m m' hagree
      cases keys with
      | nil => rfl
      | cons key others =>
        unfold Db.sdiff
        dsimp only
        rw [setMembersOf_of_agreeOn hagree List.mem_cons_self]
        simp only [combineSets_of_agreeOn hagree _ _ fun other => List.mem_cons_of_mem key]
    case sUnion keys =>
      refine ⟨fun store => (store, Reply.array (Db.sunion env keys store)), ?_, fun db => rfl⟩
      apply LocalTo.read
      intro m m' hagree
      unfold Db.sunion
      dsimp only
      rw [combineSets_of_agreeOn hagree _ _ fun _ hmem => hmem]

/--
Two commands on disjoint keys: each is answered as if the other had not been run, and both orders
lead to the same database.
-/
theorem execute_commute {command command' : Command} {keys keys' : List String}
    (hkeys : command.namedKeys = some keys) (hkeys' : command'.namedKeys = some keys')
    (hdisjoint : keys.Disjoint keys') (env env' : Env) (db : Database)
    : (execute env' command' (execute env command db).1).2 = (execute env' command' db).2
        ∧
      (execute env command (execute env' command' db).1).2 = (execute env command db).2
        ∧
      (execute env' command' (execute env command db).1).1
        = (execute env command (execute env' command' db).1).1 := by
  rcases execute_local hkeys env with ⟨op, hop, hexecute⟩
  rcases execute_local hkeys' env' with ⟨op', hop', hexecute'⟩
  have hcommute := hop.commute hop' hdisjoint db.store
  simp only [hexecute, hexecute', Database.run, id_eq]
  refine ⟨hcommute.1, hcommute.2.1, ?_⟩
  rw [hcommute.2.2]

/-
Swapping entries of the log.
-/

/--
Logged commands on disjoint keys.
-/
def DisjointEntries (entry entry' : List String) : Prop :=
  ∃ command command' keys keys', Command.parse entry = .ok command
    ∧ Command.parse entry' = .ok command' ∧ command.isWrite = true ∧ command'.isWrite = true
    ∧ command.namedKeys = some keys ∧ command'.namedKeys = some keys' ∧ keys.Disjoint keys'

theorem applyAll_swap {entry entry' : List String} (hdisjoint : DisjointEntries entry entry')
    {envs : Nat → Env} {now : Instant} (hnow : ∀ i, (envs i).now = now) {db : Database}
    (hreplaying : db.replaying = true)
    : applyAll envs [entry, entry'] db = applyAll envs [entry', entry] db := by
  rcases hdisjoint with
    ⟨command, command', keys, keys', hparse, hparse', hwrite, hwrite', hkeys, hkeys', hdisjoint⟩
  have hswap : (envs 0).now = (envs 1).now := by
    rw [hnow, hnow]
  simp only [applyAll]
  rw [dispatch_of_replaying hparse' (dispatch_replaying.trans hreplaying),
    dispatch_of_replaying hparse (dispatch_replaying.trans hreplaying),
    dispatch_of_replaying hparse hreplaying, dispatch_of_replaying hparse' hreplaying]
  rw [(execute_commute hkeys hkeys' hdisjoint (envs 0) (envs 1) db).2.2]
  rw [execute_of_isWrite hwrite hswap, execute_of_isWrite hwrite' hswap]

end RedisClone
