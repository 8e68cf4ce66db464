import RedisClone.Server.Recovery

/-!
This module contains the proof that the clock does not matter to a keyspace without deadlines: the
commands that set none keep it that way, and each of them does the same to it at any time.
-/

namespace RedisClone

open Store

/--
The commands that may give a key a deadline.
-/
def Command.setsDeadline : Command → Bool
  | .set _ _ (some _) | .expire _ _ => true
  | _ => false

/--
A keyspace in which no key has a deadline.
-/
def Store.Permanent (store : Store) : Prop := LiveMap.All Entry.Permanent store

namespace Store.Permanent

variable {store store' : Store} {now : Instant}

theorem live_eq (h : Permanent store) (now : Instant) (key : String)
    : live now store key = store[key]? := by
  cases hget : store[key]? with
  | none => exact live_of_absent hget
  | some entry =>
    apply live_of_not_expired hget
    have hnone : entry.expiresAt = none := h key entry hget
    unfold Entry.isExpired
    rw [hnone]

theorem liveEntry_eq (h : Permanent store) (now : Instant) (key : String)
    : liveEntry now key store = (store, store[key]?) := by
  rw [Store.liveEntry_eq, h.live_eq, LiveMap.put_self rfl]

theorem atKey_eq (h : Permanent store) (now : Instant) (key : String) (op : KeyOp α)
    : atKey now key op store
        =
      (LiveMap.put store key (op store[key]?).1, (op store[key]?).2) := by
  rw [Store.atKey_eq, h.live_eq]

/--
Without deadlines, keyspaces with the same live entries are the same.
-/
theorem eq_of_alike (h : Permanent store) (h' : Permanent store') (halike : Alike now store store')
    : store = store' := by
  apply Std.ExtTreeMap.ext_getElem?
  intro key
  rw [← h.live_eq now key, ← h'.live_eq now key]
  exact halike key

theorem erase (h : Permanent store) (key : String) : Permanent (store.erase key) := by
  apply LiveMap.All.put (o := none) h
  simp

theorem del_eq (h : Permanent store) (now now' : Instant) (keys : List String)
    : Db.del now keys store = Db.del now' keys store := by
  unfold Db.del
  generalize 0 = removed
  induction keys generalizing store removed with
  | nil => rfl
  | cons key keys ih =>
    simp only [List.foldl_cons]
    rw [h.liveEntry_eq, h.liveEntry_eq]
    cases store[key]? with
    | none => exact ih h removed
    | some entry => exact ih (h.erase key) (removed + 1)

theorem rename_eq (h : Permanent store) (now now' : Instant) (key newKey : String)
    : Db.rename now key newKey store = Db.rename now' key newKey store := by
  unfold Db.rename
  rw [h.liveEntry_eq, h.liveEntry_eq]

end Store.Permanent

variable {env env' : Env} {command : Command} {tokens : List String} {db db' : Database}
  {key : String} {op : KeyOp String}

theorem keyOp_permanent (hdeadline : command.setsDeadline = false)
    (h : command.keyOp env = some (key, op))
    : op.Preserves Entry.Permanent := by
  cases hread : command.mutates with
  | false =>
    intro found hfound entry hentry
    rw [Command.keyOp_read h hread] at hentry
    exact hfound entry hentry
  | true =>
    cases command
    all_goals simp only [Command.mutates, Command.isWrite, Bool.false_eq_true] at hread
    all_goals simp only [Command.keyOp, Option.some.injEq, Prod.mk.injEq, reduceCtorEq] at h
    all_goals rcases h with ⟨rfl, rfl⟩
    case set key value ttl =>
      cases ttl with
      | none => exact KeyOp.preserves_overwriteOp rfl
      | some seconds => cases hdeadline
    case expire => cases hdeadline
    all_goals refine KeyOp.Preserves.reply ?_ _
    case setNx => exact KeyOp.preserves_setnxOp (P := Entry.Permanent) rfl
    case getSet => exact KeyOp.preserves_getsetOp (P := Entry.Permanent) rfl
    case lSet => exact KeyOp.preserves_lsetOp fun _ _ hentry _ => hentry
    case persist => exact KeyOp.preserves_persistOp fun _ _ => rfl
    case lPop | rPop | sRem | sPop | zRem | hDel =>
      exact KeyOp.preserves_removeOp fun _ _ _ hentry _ => hentry
    all_goals
      exact KeyOp.preserves_updateOp (P := Entry.Permanent) rfl fun _ _ _ hentry _ => hentry

theorem execute_permanent (hdeadline : command.setsDeadline = false) (h : Permanent db.store)
    : Permanent (execute env command db).1.store := by
  apply execute_all _ (fun _ => rfl) h
  intro key op hkey
  exact keyOp_permanent hdeadline hkey

theorem keyOp_of_isWrite (hwrite : command.isWrite = true)
    (hdeadline : command.setsDeadline = false)
    : command.keyOp env = command.keyOp env' := by
  cases command
  case set key value ttl =>
    cases ttl with
    | none => simp only [Command.keyOp, Option.bind_none]
    | some seconds => cases hdeadline
  case expire => cases hdeadline
  all_goals simp only [Command.isWrite, Bool.false_eq_true] at hwrite
  all_goals simp only [Command.keyOp]

theorem execute_at_any_time (hwrite : command.isWrite = true)
    (hdeadline : command.setsDeadline = false) (h : Permanent db.store)
    : (execute env command db).1.store = (execute env' command db).1.store := by
  cases hkey : command.keyOp env with
  | some keyOp =>
    have hkey' : command.keyOp env' = some keyOp := by
      rw [← keyOp_of_isWrite hwrite hdeadline, hkey]
    rw [execute_eq_keyOp hkey, execute_eq_keyOp hkey']
    simp only [Database.run, h.atKey_eq]
  | none =>
    cases command
    all_goals simp only [Command.isWrite, Bool.false_eq_true] at hwrite
    all_goals simp only [Command.keyOp, reduceCtorEq] at hkey
    case del keys => exact congrArg Prod.fst (h.del_eq env.now env'.now keys)
    case rename key newKey => exact congrArg Prod.fst (h.rename_eq env.now env'.now key newKey)
    case mSet pairs => rfl
    case flushAll => rfl

theorem execute_of_read (hread : command.mutates = false) (h : Permanent db.store)
    : (execute env command db).1.store = db.store := by
  have hdeadline : command.setsDeadline = false := by
    cases command
    case set => cases hread
    case expire => cases hread
    all_goals rfl
  apply (execute_permanent hdeadline h).eq_of_alike h
  exact live_execute_of_read hread

/--
Requests that set no deadline, and whose effect does not depend on the order of a hash table.
-/
def Timeless (tokens : List String) : Prop :=
  ∀ command, Command.parse tokens = .ok command
    → command.setsDeadline = false ∧ ∀ key, command ≠ .sPop key

theorem Timeless.dispatch_store (env env' : Env) (h : Timeless tokens) (hpermanent : Permanent db.store)
    (hstore : db'.store = db.store)
    : (dispatch env tokens db).1.store = (dispatch env' tokens db').1.store
        ∧ Permanent (dispatch env tokens db).1.store := by
  rcases command_or_rejected tokens with ⟨command, hparse⟩ | ⟨-, hrejected⟩
  . rcases h command hparse with ⟨hdeadline, hpop⟩
    rw [dispatch_of_parse_ok hparse, dispatch_of_parse_ok hparse, logOptional_store,
      logOptional_store]
    refine ⟨?_, execute_permanent hdeadline hpermanent⟩
    have hexecute : (execute env' command db').1.store = (execute env' command db).1.store :=
      execute_store_congr hstore
    rw [hexecute]
    cases hread : command.mutates with
    | false => rw [execute_of_read hread hpermanent, execute_of_read hread hpermanent]
    | true =>
      apply execute_at_any_time _ hdeadline hpermanent
      cases command
      case sPop key => exact absurd rfl (hpop key)
      all_goals exact hread
  . rw [hrejected, hrejected]
    exact ⟨hstore.symm, hpermanent⟩

theorem logEntry_timeless (hparse : Command.parse tokens = .ok command)
    (hdeadline : command.setsDeadline = false) {entry : List String}
    (h : logEntry env command tokens db = some entry)
    : Timeless entry := by
  by_cases hpop : ∃ key, command = .sPop key
  . rcases hpop with ⟨key, rfl⟩
    rw [logEntry_spop] at h
    split at h
    . next member _ =>
      cases h
      intro command hcommand
      rw [parse_srem] at hcommand
      cases hcommand
      exact ⟨rfl, by simp⟩
    . cases h
  . have hnot : ∀ key, command ≠ .sPop key := fun key heq => hpop ⟨key, heq⟩
    rw [logEntry_of_not_spop hnot] at h
    split at h
    . cases h
      intro command' hcommand
      rw [hparse] at hcommand
      cases hcommand
      exact ⟨hdeadline, hnot⟩
    . cases h

/--
What a command logs, if it sets no deadline, does at any time to the same keyspace without deadlines
what the command did.
-/
theorem logEntry_replays {member : String → Prop} (env : Env)
    (hparse : Command.parse tokens = .ok command) (hdeadline : command.setsDeadline = false)
    (hsound : LiveMap.All (Entry.Sound member) db.store) (hpermanent : Permanent db.store)
    : match logEntry env command tokens db with
      | some entry => Timeless entry
          ∧ ∀ (env' : Env) (db' : Database), db'.store = db.store
            → (dispatch env' entry db').1.store = (execute env command db).1.store
      | none => (execute env command db).1.store = db.store := by
  have hexecuted : Permanent (execute env command db).1.store :=
    execute_permanent hdeadline hpermanent
  have halike : Alike env.now db.store db.store := fun _ => rfl
  have hsimulation := logEntry_simulation hparse (rfl : env.now = env.now) (rfl : env.now = env.now)
    hsound halike
  cases hentry : logEntry env command tokens db with
  | none =>
    simp only [hentry] at hsimulation
    exact hexecuted.eq_of_alike hpermanent hsimulation
  | some entry =>
    simp only [hentry] at hsimulation
    have htimeless := logEntry_timeless hparse hdeadline hentry
    refine ⟨htimeless, ?_⟩
    intro env' db' hstore
    have hdispatched := htimeless.dispatch_store env env' hpermanent hstore
    rw [← hdispatched.1]
    exact (hexecuted.eq_of_alike hdispatched.2 hsimulation).symm

/-
Replaying entries that set no deadline.
-/

/--
What an entry of the log does to the keyspace.
-/
def effect (env : Env) (store : Store) (entry : List String) : Store :=
  (dispatch env entry { Database.new env.now with store }).1.store

theorem Timeless.effect_permanent {entry : List String} (h : Timeless entry) {store : Store}
    (hpermanent : Permanent store)
    : Permanent (effect env store entry) := by
  let db : Database := { Database.new env.now with store }
  have hdb : Permanent db.store := hpermanent
  exact (h.dispatch_store env env hdb (rfl : db.store = db.store)).2

theorem applyAll_eq_foldl {entries : List (List String)} (h : ∀ entry ∈ entries, Timeless entry)
    (hpermanent : Permanent db.store) (env : Env) (envs : Nat → Env)
    : (applyAll envs entries db).store = entries.foldl (effect env) db.store := by
  induction entries generalizing envs db with
  | nil => rfl
  | cons entry entries ih =>
    have hentry := h entry List.mem_cons_self
    let fresh : Database := { Database.new env.now with store := db.store }
    have hfresh : fresh.store = db.store := rfl
    have hdispatched := hentry.dispatch_store (envs 0) env hpermanent hfresh
    rw [applyAll, ih (fun other hmem => h other (List.mem_cons_of_mem _ hmem)) hdispatched.2,
      List.foldl_cons, hdispatched.1]
    rfl

end RedisClone
