import RedisClone.Keyspace.Failure

/-!
This module contains the machinery for invariants of the stored entries: a property that every
operation on a key keeps holds of every entry a run of requests can store.
-/

namespace RedisClone

open Store

theorem map_eq_ok {ε α β : Type} {x : Except ε α} {f : α → β} {b : β}
    : x.map f = .ok b ↔ ∃ a, x = .ok a ∧ f a = b := by
  cases x <;> simp [Except.map]

theorem bind_eq_ok' {ε α β : Type} {x : Except ε α} {f : α → Except ε β} {b : β}
    : x.bind f = .ok b ↔ ∃ a, x = .ok a ∧ f a = .ok b := by
  exact bind_eq_ok

namespace Value

@[simp]
theorem asStr_eq_ok {value : Value} {inner : String} : value.asStr = .ok inner ↔ value = .str inner
    := by
  cases value <;> simp [asStr]

@[simp]
theorem asList_eq_ok {value : Value} {inner : RList} : value.asList = .ok inner ↔ value = .list inner
    := by
  cases value <;> simp [asList]

@[simp]
theorem asSet_eq_ok {value : Value} {inner : RSet} : value.asSet = .ok inner ↔ value = .set inner
    := by
  cases value <;> simp [asSet]

@[simp]
theorem asSortedSet_eq_ok {value : Value} {inner : RSortedSet}
    : value.asSortedSet = .ok inner ↔ value = .sortedSet inner := by
  cases value <;> simp [asSortedSet]

@[simp]
theorem asHash_eq_ok {value : Value} {inner : RHash} : value.asHash = .ok inner ↔ value = .hash inner
    := by
  cases value <;> simp [asHash]

end Value

/--
A property of entries that an operation keeps.
-/
def KeyOp.Preserves (P : Entry → Prop) (op : KeyOp α) : Prop :=
  ∀ found, (∀ entry, found = some entry → P entry) → ∀ entry, (op found).1 = some entry → P entry

namespace KeyOp

variable {P : Entry → Prop}

theorem Preserves.reply {op : KeyOp α} (h : Preserves P op) (encode : α → String)
    : Preserves P (op.reply encode) := h

theorem preserves_updateOp_of_create {fresh : Value}
    {act : Value → Except StoreError (Value × α)} (hfresh : ∃ changed, act fresh = .ok changed)
    (hcreate : ∀ value result, act fresh = .ok (value, result) → P { value, expiresAt := none })
    (hact : ∀ entry value result, P entry → act entry.value = .ok (value, result)
      → P { entry with value })
    : Preserves P (updateOp fresh act) := by
  intro found hfound entry hentry
  unfold updateOp at hentry
  cases found with
  | none =>
    rcases hfresh with ⟨⟨value, result⟩, hfresh⟩
    simp only [Option.getD_none, hfresh, Option.some.injEq] at hentry
    rw [← hentry]
    exact hcreate value result hfresh
  | some old =>
    cases h : act old.value with
    | error error =>
      simp only [Option.getD_some, h, Option.some.injEq] at hentry
      rw [← hentry]
      exact hfound old rfl
    | ok changed =>
      simp only [Option.getD_some, h, Option.some.injEq] at hentry
      rw [← hentry]
      exact hact old changed.1 changed.2 (hfound old rfl) h

theorem preserves_updateOp {fresh : Value} {act : Value → Except StoreError (Value × α)}
    (hfresh : P { value := fresh, expiresAt := none })
    (hact : ∀ entry value result, P entry → act entry.value = .ok (value, result)
      → P { entry with value })
    : Preserves P (updateOp fresh act) := by
  intro found hfound entry hentry
  have hstart : P (found.getD { value := fresh, expiresAt := none }) := by
    cases found with
    | none => exact hfresh
    | some old => exact hfound old rfl
  unfold updateOp at hentry
  generalize found.getD { value := fresh, expiresAt := none } = start at hentry hstart
  cases h : act start.value with
  | error error =>
    simp only [h, Option.some.injEq] at hentry
    rw [← hentry]
    exact hstart
  | ok changed =>
    simp only [h, Option.some.injEq] at hentry
    rw [← hentry]
    exact hact start changed.1 changed.2 hstart h

theorem preserves_removeOp {absent : α} {act : Value → Except StoreError (Value × α × Bool)}
    (hact : ∀ entry value result, P entry → act entry.value = .ok (value, result, false)
      → P { entry with value })
    : Preserves P (removeOp absent act) := by
  intro found hfound entry hentry
  cases found with
  | none => cases hentry
  | some old =>
    unfold removeOp at hentry
    cases h : act old.value with
    | error error =>
      simp only [h, Option.some.injEq] at hentry
      rw [← hentry]
      exact hfound old rfl
    | ok changed =>
      rcases changed with ⟨value, result, isEmpty⟩
      cases isEmpty with
      | true => simp [h] at hentry
      | false =>
        simp only [h, Bool.false_eq_true, if_false, Option.some.injEq] at hentry
        rw [← hentry]
        exact hact old value result (hfound old rfl) h

theorem preserves_overwriteOp {value : String} {expiresAt : Option Instant} {result : α}
    (h : P { value := .str value, expiresAt }) : Preserves P (overwriteOp value expiresAt result)
    := by
  rintro found - entry ⟨⟩
  exact h

theorem preserves_setnxOp {value : String} (h : P { value := .str value, expiresAt := none })
    : Preserves P (setnxOp value) := by
  intro found hfound entry hentry
  cases found with
  | none =>
    cases hentry
    exact h
  | some old => exact hfound entry hentry

theorem preserves_getsetOp {value : String} (h : P { value := .str value, expiresAt := none })
    : Preserves P (getsetOp value) := by
  intro found hfound entry hentry
  cases found with
  | none =>
    cases hentry
    exact h
  | some old =>
    simp only [getsetOp] at hentry
    cases hact : old.value.asStr with
    | ok current =>
      simp only [hact, Option.some.injEq] at hentry
      rw [← hentry]
      exact h
    | error error =>
      simp only [hact] at hentry
      exact hfound entry hentry

theorem preserves_lsetOp {index : Int64} {value : String}
    (h : ∀ entry list, P entry → entry.value = .list list
      → P { entry with value := .list (list.lset index value).1 })
    : Preserves P (lsetOp index value) := by
  intro found hfound entry hentry
  cases found with
  | none => cases hentry
  | some old =>
    have hold := hfound old rfl
    simp only [lsetOp] at hentry
    cases hact : old.value.asList with
    | ok list =>
      have hchanged := h old list hold (Value.asList_eq_ok.mp hact)
      rcases hlset : list.lset index value with ⟨changed, _ | _⟩
      all_goals
        rw [hlset] at hchanged
        simp only [hact, hlset, Option.some.injEq] at hentry
        rw [← hentry]
      . exact hold
      . exact hchanged
    | error error =>
      simp only [hact, Option.some.injEq] at hentry
      rw [← hentry]
      exact hold

theorem preserves_expireOp {now : Instant} {seconds : Int64}
    (h : ∀ entry, P entry → P { entry with expiresAt := deadlineAfter now seconds.toUInt64 })
    : Preserves P (expireOp now seconds) := by
  intro found hfound entry hentry
  cases found with
  | none => cases hentry
  | some old =>
    simp only [expireOp] at hentry
    split at hentry
    . cases hentry
    . cases hentry
      exact h old (hfound old rfl)

theorem preserves_persistOp (h : ∀ entry, P entry → P { entry with expiresAt := none })
    : Preserves P persistOp := by
  intro found hfound entry hentry
  cases found with
  | none => cases hentry
  | some old =>
    cases hentry
    exact h old (hfound old rfl)

end KeyOp

/-
What the operations of the keyspace keep of all entries.
-/

namespace Store

variable {P : Entry → Prop} {now : Instant} {store : Store}

theorem all_liveEntry (now : Instant) (h : LiveMap.All P store) (key : String)
    : LiveMap.All P (liveEntry now key store).1
        ∧ ∀ entry, (liveEntry now key store).2 = some entry → P entry := by
  rw [liveEntry_eq]
  constructor
  . apply h.put
    intro entry hlive
    exact h.of_live hlive
  . intro entry hlive
    exact h.of_live hlive

theorem all_del (h : LiveMap.All P store) (keys : List String)
    : LiveMap.All P (Db.del now keys store).1 := by
  unfold Db.del
  generalize 0 = removed
  induction keys generalizing store removed with
  | nil => exact h
  | cons key keys ih =>
    simp only [List.foldl_cons]
    have hevicted := (all_liveEntry now h key).1
    generalize liveEntry now key store = evicted at hevicted
    rcases evicted with ⟨store', _ | entry⟩
    . exact ih hevicted removed
    . exact ih (hevicted.put (k := key) (o := none) (by simp)) (removed + 1)

theorem all_mset (hstr : ∀ text, P { value := .str text, expiresAt := none })
    (h : LiveMap.All P store) (pairs : List (String × String))
    : LiveMap.All P (Db.mset pairs store) := by
  unfold Db.mset
  induction pairs generalizing store with
  | nil => exact h
  | cons pair pairs ih =>
    apply ih
    apply h.put (o := some _)
    rintro entry ⟨⟩
    exact hstr pair.2

theorem all_rename (h : LiveMap.All P store) (key newKey : String)
    : LiveMap.All P (Db.rename now key newKey store).1 := by
  unfold Db.rename
  have hevicted := all_liveEntry now h key
  generalize liveEntry now key store = evicted at hevicted
  rcases evicted with ⟨store', _ | entry⟩
  . exact hevicted.1
  . apply (hevicted.1.put (k := key) (o := none) (by simp)).put (o := some entry)
    rintro found ⟨⟩
    exact hevicted.2 entry rfl

end Store

/--
A property of entries that a command keeps on its key and that fresh strings have holds of all
entries afterwards.
-/
theorem execute_all {P : Entry → Prop} {env : Env} {command : Command} {db : Database}
    (hop : ∀ key op, command.keyOp env = some (key, op) → op.Preserves P)
    (hstr : ∀ text, P { value := .str text, expiresAt := none }) (h : LiveMap.All P db.store)
    : LiveMap.All P (execute env command db).1.store := by
  cases hkey : command.keyOp env with
  | some keyOp =>
    rw [execute_eq_keyOp hkey]
    exact h.atKey (hop _ _ hkey)
  | none =>
    cases hread : command.mutates with
    | false =>
      rw [execute_store_of_read hkey hread]
      exact h
    | true =>
      cases command
      all_goals simp only [Command.mutates, Command.isWrite, Bool.false_eq_true] at hread
      all_goals simp only [Command.keyOp, reduceCtorEq] at hkey
      case del keys => exact all_del h keys
      case mSet pairs => exact all_mset hstr h pairs
      case flushAll => exact LiveMap.all_empty
      case rename source target => exact all_rename h source target

end RedisClone
