import RedisClone.Keyspace.Failure

/-!
This module contains the proof that eviction is invisible: a command cannot tell stores with the same
live entries apart, whether dead entries are still stored or not.
-/

namespace RedisClone

open Store

/--
Surroundings that differ only in iteration orders, and not in the member `SPOP` picks.
-/
structure Env.Alike (env env' : Env) : Prop where
  now : env.now = env'.now
  pick : ∀ key members,
    (env.order (.value key) members).head? = (env'.order (.value key) members).head?
  saveOutcome : env.saveOutcome = env'.saveOutcome

theorem Env.alike_refl (env : Env) : env.Alike env := ⟨rfl, fun _ _ => rfl, rfl⟩

/--
Replies that list the same items in some order.
-/
def Reply.Rearranged (reply reply' : String) : Prop :=
  ∃ items items', items.Perm items' ∧ reply = Resp.array items ∧ reply' = Resp.array items'

/--
Replies that list the same field and value pairs in some order.
-/
def Reply.PairsRearranged (reply reply' : String) : Prop :=
  ∃ pairs pairs' : List (String × String), pairs.Perm pairs'
    ∧ reply = Resp.array (pairs.flatMap fun (field, value) => [field, value])
    ∧ reply' = Resp.array (pairs'.flatMap fun (field, value) => [field, value])

/--
The same reply, up to the order of results that have no order.
-/
def Command.SameReply (command : Command) (reply reply' : String) : Prop :=
  reply = reply' ∨
    match command with
    | .keys _ | .sMembers _ | .hKeys _ | .hVals _ | .sInter _ | .sUnion _ | .sDiff _ =>
      Reply.Rearranged reply reply'
    | .hGetAll _ => Reply.PairsRearranged reply reply'
    | _ => False

/--
Stores with the same live entries.
-/
def Store.Alike (now : Instant) (store store' : Store) : Prop :=
  ∀ key, live now store key = live now store' key

/--
Databases that agree on everything but dead entries.
-/
structure Database.Alike (now : Instant) (db db' : Database) : Prop where
  store : Store.Alike now db.store db'.store
  frame : db' = { db with store := db'.store }

theorem order_perm_order (env env' : Env) (table table' : HashTable) (keys : List String)
    : (env.order table keys).Perm (env'.order table' keys) := by
  exact (env.order_perm table keys).trans (env'.order_perm table' keys).symm

theorem RSet.spop_congr {order order' : List String → List String} (set : RSet)
    (h : ∀ members, (order members).head? = (order' members).head?)
    : set.spop order = set.spop order' := by
  unfold RSet.spop
  rw [h]

variable {env env' : Env} {command : Command}

theorem KeyOp.readOp_listing {view : Value → Except StoreError β} {list list' : β → List String}
    (related : String → String → Prop)
    (h : ∀ inner, related (Resp.array (list inner)) (Resp.array (list' inner)))
    (found : Option Entry)
    : ((readOp (.ok []) fun entry => (view entry.value).map list).reply Reply.array found).2
          = ((readOp (.ok []) fun entry => (view entry.value).map list').reply Reply.array found).2
        ∨ related
            ((readOp (.ok []) fun entry => (view entry.value).map list).reply Reply.array found).2
            ((readOp (.ok []) fun entry => (view entry.value).map list').reply Reply.array found).2
    := by
  cases found with
  | none => exact .inl rfl
  | some entry =>
    simp only [reply, readOp]
    cases view entry.value with
    | error error => exact .inl rfl
    | ok inner => exact .inr (h inner)

theorem RHash.hgetall_perm {order order' : List String → List String} (hash : RHash)
    (h : ∀ fields, (order fields).Perm (order' fields))
    : (hash.hgetall order).Perm (hash.hgetall order') := by
  exact (h _).filterMap _

/--
In surroundings that are alike, a command does the same to its key and gives the same reply.
-/
theorem keyOp_congr {key : String} {op : KeyOp String} (henv : env.Alike env')
    (h : command.keyOp env = some (key, op))
    : ∃ op', command.keyOp env' = some (key, op')
        ∧ ∀ found, (op found).1 = (op' found).1
        ∧ command.SameReply (op found).2 (op' found).2 := by
  have horder := order_perm_order env env'
  cases command
  case zRange key start stop withScores =>
    cases withScores <;> exact ⟨op, h, fun _ => ⟨rfl, .inl rfl⟩⟩
  all_goals simp only [Command.keyOp, Option.some.injEq, Prod.mk.injEq, reduceCtorEq] at h
  all_goals rcases h with ⟨rfl, rfl⟩
  all_goals refine ⟨_, rfl, fun found => ?_⟩
  case sMembers key =>
    refine ⟨by simp only [KeyOp.readOp_reply_unchanged], ?_⟩
    exact KeyOp.readOp_listing Reply.Rearranged (fun set => ⟨_, _, horder _ _ _, rfl, rfl⟩) found
  case hKeys key =>
    refine ⟨by simp only [KeyOp.readOp_reply_unchanged], ?_⟩
    exact KeyOp.readOp_listing Reply.Rearranged (fun hash => ⟨_, _, horder _ _ _, rfl, rfl⟩) found
  case hVals key =>
    refine ⟨by simp only [KeyOp.readOp_reply_unchanged], ?_⟩
    exact KeyOp.readOp_listing Reply.Rearranged
      (fun hash => ⟨_, _, (horder _ _ _).filterMap _, rfl, rfl⟩) found
  case hGetAll key =>
    refine ⟨by simp only [KeyOp.readOp_reply_unchanged], ?_⟩
    exact KeyOp.readOp_listing Reply.PairsRearranged
      (fun hash => ⟨_, _, hash.hgetall_perm (horder _ _), rfl, rfl⟩) found
  case sPop key =>
    have hpop : Db.spopOn (env.order (.value key)) = Db.spopOn (env'.order (.value key)) := by
      funext value
      simp only [Db.spopOn, RSet.spop_congr _ (henv.pick key)]
    rw [hpop]
    exact ⟨rfl, .inl rfl⟩
  case set | expire | ttl =>
    rw [henv.now]
    exact ⟨rfl, .inl rfl⟩
  all_goals exact ⟨rfl, .inl rfl⟩

/-
The commands on several keys and on the whole keyspace.
-/

namespace Store

variable {now : Instant} {store store' : Store}

theorem Alike.put (h : Alike now store store') (key : String) (found : Option Entry)
    : Alike now (LiveMap.put store key found) (LiveMap.put store' key found) := by
  intro other
  unfold live
  rw [LiveMap.live_put, LiveMap.live_put]
  split
  . rfl
  . exact h other

theorem Alike.del (h : Alike now store store') (keys : List String)
    : Alike now (Db.del now keys store).1 (Db.del now keys store').1
        ∧ (Db.del now keys store).2 = (Db.del now keys store').2 := by
  unfold Db.del
  generalize 0 = removed
  induction keys generalizing store store' removed with
  | nil => exact ⟨h, rfl⟩
  | cons key keys ih =>
    simp only [List.foldl_cons]
    rw [liveEntry_eq, liveEntry_eq, h key]
    cases live now store' key with
    | none => exact ih (h.put key none) removed
    | some entry =>
      simp only [LiveMap.erase_put]
      exact ih (h.put key none) (removed + 1)

theorem Alike.mset (h : Alike now store store') (pairs : List (String × String))
    : Alike now (Db.mset pairs store) (Db.mset pairs store') := by
  unfold Db.mset
  induction pairs generalizing store store' with
  | nil => exact h
  | cons pair pairs ih => exact ih (h.put pair.1 (some _))

theorem Alike.rename (h : Alike now store store') (key newKey : String)
    : Alike now (Db.rename now key newKey store).1 (Db.rename now key newKey store').1
        ∧ (Db.rename now key newKey store).2 = (Db.rename now key newKey store').2 := by
  unfold Db.rename
  rw [liveEntry_eq, liveEntry_eq, h key]
  cases live now store' key with
  | none => exact ⟨h.put key none, rfl⟩
  | some entry =>
    dsimp only
    rw [LiveMap.erase_put, LiveMap.erase_put]
    exact ⟨(h.put key none).put newKey (some entry), rfl⟩

theorem Alike.live_eq (h : Alike now store store') : live now store = live now store' := by
  funext key
  exact h key

theorem Alike.setMembersOf (h : Alike now store store')
    : Db.setMembersOf now store = Db.setMembersOf now store' := by
  funext key
  unfold Db.setMembersOf
  rw [h key]

theorem Alike.dbsize (h : Alike now store store') : Db.dbsize now store = Db.dbsize now store' := by
  exact (LiveMap.liveKeys_perm h).length_eq

theorem Alike.keys (h : Alike env.now store store') (hnow : env.now = env'.now)
    (pattern : String) : (Db.keys env pattern store).Perm (Db.keys env' pattern store') := by
  unfold Db.keys
  have hkeys : ∀ (env : Env) (store : Store),
      ((env.order .keyspace store.keys).filter fun key =>
        (live env.now store key).isSome && globMatch pattern key).Perm
      ((LiveMap.liveKeys (Entry.isLive env.now) store).filter fun key =>
        globMatch pattern key) := by
    intro env store
    unfold LiveMap.liveKeys
    rw [List.filter_filter]
    refine ((env.order_perm _ _).filter _).trans (.of_eq ?_)
    congr 1
    funext key
    exact Bool.and_comm _ _
  refine (hkeys env store).trans (.trans ?_ (hkeys env' store').symm)
  rw [← hnow]
  exact (LiveMap.liveKeys_perm h).filter _

end Store

theorem listMembers_rearranged (env env' : Env)
    (result : Except StoreError (Std.ExtTreeSet String))
    : Reply.array (result.map (Db.listMembers env)) = Reply.array (result.map (Db.listMembers env'))
        ∨ Reply.Rearranged (Reply.array (result.map (Db.listMembers env)))
            (Reply.array (result.map (Db.listMembers env'))) := by
  cases result with
  | error error => exact .inl rfl
  | ok members => exact .inr ⟨_, _, order_perm_order env env' _ _ _, rfl, rfl⟩

theorem Store.Alike.combineSets {now : Instant} {store store' : Store}
    (h : Alike now store store') : Db.combineSets now store = Db.combineSets now store' := by
  unfold Db.combineSets
  rw [h.setMembersOf]

theorem info_alike {now : Instant} {db : Database} {store' : Store}
    (h : Store.Alike now db.store store') : db.info now = { db with store := store' }.info now := by
  unfold Database.info
  rw [h.dbsize]

theorem execute_alike_of_no_key {db db' : Database} (henv : env.Alike env')
    (h : db.Alike env.now db') (hkey : command.keyOp env = none)
    : (execute env command db).1.Alike env.now (execute env' command db').1
        ∧ command.SameReply (execute env command db).2 (execute env' command db').2 := by
  obtain ⟨store', rfl⟩ : ∃ store', db' = { db with store := store' } := ⟨_, h.frame⟩
  have hstore : Store.Alike env.now db.store store' := h.store
  have hlive := hstore.live_eq
  cases command
  case zRange key start stop withScores => cases withScores <;> simp [Command.keyOp] at hkey
  all_goals simp only [Command.keyOp, reduceCtorEq] at hkey
  all_goals simp only [execute, Database.run, ← henv.now]
  case del keys => exact ⟨⟨(hstore.del keys).1, rfl⟩, .inl (by rw [(hstore.del keys).2])⟩
  case rename key newKey =>
    have hrename := hstore.rename key newKey
    exact ⟨⟨hrename.1, rfl⟩, .inl (by rw [hrename.2])⟩
  case mSet pairs => exact ⟨⟨hstore.mset pairs, rfl⟩, .inl rfl⟩
  case flushAll => exact ⟨⟨fun _ => rfl, rfl⟩, .inl rfl⟩
  case existsKeys keys =>
    refine ⟨⟨hstore, rfl⟩, .inl ?_⟩
    simp only [Db.existsCount, hlive]
  case mGet keys =>
    refine ⟨⟨hstore, rfl⟩, .inl ?_⟩
    simp only [Db.mget, hlive]
  case dbSize => exact ⟨⟨hstore, rfl⟩, .inl (by rw [hstore.dbsize])⟩
  case info =>
    rw [info_alike hstore]
    exact ⟨⟨hstore, rfl⟩, .inl rfl⟩
  case keys pattern =>
    exact ⟨⟨hstore, rfl⟩, .inr ⟨_, _, hstore.keys henv.now pattern, rfl, rfl⟩⟩
  case sInter keys =>
    refine ⟨⟨hstore, rfl⟩, ?_⟩
    cases keys with
    | nil => exact .inl rfl
    | cons key keys =>
      simp only [Db.sinter, hstore.setMembersOf, hstore.combineSets, ← henv.now]
      exact listMembers_rearranged env env' _
  case sUnion keys =>
    refine ⟨⟨hstore, rfl⟩, ?_⟩
    simp only [Db.sunion, hstore.combineSets, ← henv.now]
    exact listMembers_rearranged env env' _
  case sDiff keys =>
    refine ⟨⟨hstore, rfl⟩, ?_⟩
    cases keys with
    | nil => exact .inl rfl
    | cons key keys =>
      simp only [Db.sdiff, hstore.setMembersOf, hstore.combineSets, ← henv.now]
      exact listMembers_rearranged env env' _
  case ping message => cases message <;> exact ⟨⟨hstore, rfl⟩, .inl rfl⟩
  case save =>
    simp only [Database.save, henv.saveOutcome]
    split <;> exact ⟨⟨hstore, rfl⟩, .inl rfl⟩
  all_goals exact ⟨⟨hstore, rfl⟩, .inl rfl⟩

/--
In surroundings that are alike, a command gives the same reply on databases that are alike, and leaves
them alike.
-/
theorem execute_alike {db db' : Database} (henv : env.Alike env') (h : db.Alike env.now db')
    (command : Command)
    : (execute env command db).1.Alike env.now (execute env' command db').1
        ∧ command.SameReply (execute env command db).2 (execute env' command db').2 := by
  cases hkey : command.keyOp env with
  | none => exact execute_alike_of_no_key henv h hkey
  | some keyOp =>
    rcases keyOp with ⟨key, op⟩
    rcases keyOp_congr henv hkey with ⟨op', hkey', hop⟩
    obtain ⟨store', rfl⟩ : ∃ store', db' = { db with store := store' } := ⟨_, h.frame⟩
    rw [execute_eq_keyOp hkey, execute_eq_keyOp hkey']
    simp only [Database.run, atKey_eq, ← henv.now, id_eq]
    rw [← h.store key, ← (hop _).1]
    exact ⟨⟨h.store.put key _, rfl⟩, (hop _).2⟩

theorem spop_alike {db db' : Database} (henv : env.Alike env') (h : db.Alike env.now db')
    (key : String) : (Db.spop env key db.store).2 = (Db.spop env' key db'.store).2 := by
  have hpop : Db.spopOn (env.order (.value key)) = Db.spopOn (env'.order (.value key)) := by
    funext value
    simp only [Db.spopOn, RSet.spop_congr _ (henv.pick key)]
  unfold Db.spop
  rw [removeFrom_eq_atKey, removeFrom_eq_atKey, hpop, ← henv.now]
  exact LiveMap.atKey_result_congr _ (h.store key)

theorem sameReply_eq_of_isWrite {reply reply' : String} (hwrite : command.isWrite = true)
    (h : command.SameReply reply reply') : reply = reply' := by
  rcases h with h | h
  . exact h
  . cases command <;> simp_all [Command.isWrite]

theorem logEntry_alike {db db' : Database} (henv : env.Alike env') (h : db.Alike env.now db')
    (command : Command) (tokens : List String)
    : logEntry env command tokens db = logEntry env' command tokens db' := by
  by_cases hpop : ∃ key, command = .sPop key
  . rcases hpop with ⟨key, rfl⟩
    simp only [logEntry, spop_alike henv h]
  . have hpop : ∀ key, command ≠ .sPop key := fun key heq => hpop ⟨key, heq⟩
    rw [logEntry_of_not_spop hpop, logEntry_of_not_spop hpop]
    cases hwrite : command.isWrite with
    | false => simp only [Bool.false_and]
    | true => rw [sameReply_eq_of_isWrite hwrite (execute_alike henv h command).2]

theorem Database.Alike.logOptional {now : Instant} {db db' : Database} (h : db.Alike now db')
    (entry : Option (List String)) : (db.logOptional entry).Alike now (db'.logOptional entry) := by
  obtain ⟨store', rfl⟩ : ∃ store', db' = { db with store := store' } := ⟨_, h.frame⟩
  refine ⟨by simpa using h.store, ?_⟩
  cases entry with
  | none => rfl
  | some tokens =>
    simp only [Database.logOptional, Database.logWrite]
    split <;> rfl

/--
The same reply to a request, up to the order of results that have no order.
-/
def SameReplyTo (tokens : List String) (reply reply' : String) : Prop :=
  match Command.parse tokens with
  | .ok command => command.SameReply reply reply'
  | .error _ => reply = reply'

/--
In surroundings that are alike, a request is answered alike by databases that are alike, and leaves
them alike, with the same entry in the log.
-/
theorem dispatch_alike {db db' : Database} (henv : env.Alike env') (h : db.Alike env.now db')
    (tokens : List String)
    : (dispatch env tokens db).1.Alike env.now (dispatch env' tokens db').1
        ∧ SameReplyTo tokens (dispatch env tokens db).2 (dispatch env' tokens db').2 := by
  unfold SameReplyTo
  cases tokens with
  | nil => exact ⟨h, rfl⟩
  | cons name args =>
    cases hparse : Command.parse (name :: args) with
    | error error =>
      rw [dispatch_of_parse_error (List.cons_ne_nil name args) hparse]
      rw [dispatch_of_parse_error (List.cons_ne_nil name args) hparse]
      exact ⟨h, rfl⟩
    | ok command =>
      rw [dispatch_of_parse_ok hparse, dispatch_of_parse_ok hparse]
      rw [← logEntry_alike henv h]
      exact ⟨(execute_alike henv h command).1.logOptional _, (execute_alike henv h command).2⟩

end RedisClone
