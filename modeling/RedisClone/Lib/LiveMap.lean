import Mathlib

/-!
This module contains a library of maps some of whose entries count as dead, such as entries with an
expiry deadline. What such a map means is its live entries, and an operation on one key that looks at
nothing but the live entry cannot tell maps with the same live entries apart.
-/

namespace LiveMap

set_option linter.unusedSectionVars false

variable {κ ε α β : Type} [DecidableEq κ] [Ord κ] [Std.TransOrd κ] [Std.LawfulEqOrd κ]

/--
The entry of a key, unless it is dead.
-/
def live (alive : ε → Bool) (m : Std.ExtTreeMap κ ε) (k : κ) : Option ε :=
  m[k]?.filter alive

/--
The map without its dead entries.
-/
def purge (alive : ε → Bool) (m : Std.ExtTreeMap κ ε) : Std.ExtTreeMap κ ε :=
  m.filter fun _ e => alive e

/--
Replace or remove the entry of a key.
-/
def put (m : Std.ExtTreeMap κ ε) (k : κ) : Option ε → Std.ExtTreeMap κ ε
  | some e => m.insert k e
  | none => m.erase k

/--
The operation that reads the live entry of one key and replaces it by what `f` returns.
-/
def atKey (alive : ε → Bool) (k : κ) (f : Option ε → Option ε × α) (m : Std.ExtTreeMap κ ε)
    : Std.ExtTreeMap κ ε × α :=
  (put m k (f (live alive m k)).1, (f (live alive m k)).2)

variable {alive later : ε → Bool} {m m' : Std.ExtTreeMap κ ε} {k k' : κ}

theorem live_eq_some {e : ε} : live alive m k = some e ↔ m[k]? = some e ∧ alive e = true := by
  unfold live
  rw [Option.filter_eq_some_iff]

@[simp]
theorem live_empty : live alive (∅ : Std.ExtTreeMap κ ε) k = none := by
  simp [live]

theorem getElem?_put (o : Option ε) : (put m k o)[k']? = if k = k' then o else m[k']? := by
  cases o with
  | some e => simp [put, Std.ExtTreeMap.getElem?_insert]
  | none => simp [put, Std.ExtTreeMap.getElem?_erase]

theorem live_put (o : Option ε)
    : live alive (put m k o) k' = if k = k' then o.filter alive else live alive m k' := by
  unfold live
  rw [getElem?_put]
  split <;> rfl

theorem live_insert (e : ε)
    : live alive (m.insert k e) k'
        =
      if k = k' then (some e).filter alive else live alive m k' := by
  exact live_put (some e)

theorem live_erase : live alive (m.erase k) k' = if k = k' then none else live alive m k' := by
  exact live_put none

theorem put_self (h : m[k]? = o) : put m k o = m := by
  apply Std.ExtTreeMap.ext_getElem?
  intro k'
  rw [getElem?_put]
  split
  . next heq => rw [← heq, h]
  . rfl

@[simp]
theorem put_put (o o' : Option ε) : put (put m k o) k o' = put m k o' := by
  apply Std.ExtTreeMap.ext_getElem?
  intro k'
  simp only [getElem?_put]
  split <;> rfl

@[simp]
theorem insert_put (o : Option ε) (e : ε) : (put m k o).insert k e = put m k (some e) := by
  exact put_put o (some e)

@[simp]
theorem erase_put (o : Option ε) : (put m k o).erase k = put m k none := by
  exact put_put o none

@[simp]
theorem getElem?_put_self (o : Option ε) : (put m k o)[k]? = o := by
  simp [getElem?_put]

@[simp]
theorem getElem?_purge : (purge alive m)[k]? = live alive m k := by
  simp [purge, live]

/--
Purging at an earlier time does not show later.
-/
theorem live_purge (h : ∀ e, later e = true → alive e = true)
    : live later (purge alive m) k = live later m k := by
  unfold live
  rw [getElem?_purge]
  unfold live
  cases m[k]? with
  | none => rfl
  | some e =>
    by_cases hlater : later e = true
    . simp [Option.filter, hlater, h e hlater]
    . by_cases halive : alive e = true <;> simp [Option.filter, hlater, halive]

theorem live_later (h : ∀ e, later e = true → alive e = true)
    : live later m k = (live alive m k).filter later := by
  rw [← live_purge h]
  unfold live
  rw [getElem?_purge]
  rfl

theorem purge_eq_iff : purge alive m = purge alive m' ↔ ∀ k, live alive m k = live alive m' k := by
  constructor
  . intro h k
    rw [← getElem?_purge, h, getElem?_purge]
  . intro h
    apply Std.ExtTreeMap.ext_getElem?
    intro k
    rw [getElem?_purge, getElem?_purge, h]

theorem live_atKey (f : Option ε → Option ε × α)
    : live later (atKey alive k f m).1 k'
        =
      if k = k' then (f (live alive m k)).1.filter later else live later m k' := by
  exact live_put _

theorem atKey_result_congr (f : Option ε → Option ε × α) (h : live alive m k = live alive m' k)
    : (atKey alive k f m).2 = (atKey alive k f m').2 := by
  unfold atKey
  rw [h]

theorem live_atKey_of_unchanged {f : Option ε → Option ε × α}
    (h : (f (live alive m k)).1 = live alive m k)
    : live alive (atKey alive k f m).1 k' = live alive m k' := by
  rw [live_atKey]
  split
  . next heq =>
    rw [h, ← heq]
    unfold live
    cases m[k]? with
    | none => rfl
    | some e => by_cases halive : alive e = true <;> simp [Option.filter, halive]
  . rfl

/--
A property of all stored entries, dead or alive.
-/
def All (P : ε → Prop) (m : Std.ExtTreeMap κ ε) : Prop :=
  ∀ (k : κ) (e : ε), m[k]? = some e → P e

theorem all_empty {P : ε → Prop} : All P (∅ : Std.ExtTreeMap κ ε) := by
  intro k e h
  simp at h

theorem all_of_toList {P : ε → Prop} (h : ∀ pair ∈ m.toList, P pair.2) : All P m := by
  intro k e hentry
  exact h (k, e) (Std.ExtTreeMap.mem_toList_iff_getElem?_eq_some.mpr hentry)

theorem All.put {P : ε → Prop} (h : All P m) {o : Option ε} (ho : ∀ e, o = some e → P e)
    : All P (put m k o) := by
  intro k' e hget
  rw [getElem?_put] at hget
  split at hget
  . exact ho e hget
  . exact h k' e hget

theorem All.of_live {P : ε → Prop} (h : All P m) {e : ε} (hlive : live alive m k = some e)
    : P e := by
  exact h k e (live_eq_some.mp hlive).1

theorem All.atKey {P : ε → Prop} (h : All P m) {f : Option ε → Option ε × α}
    (hf : ∀ found, (∀ e, found = some e → P e) → ∀ e, (f found).1 = some e → P e)
    : All P (atKey alive k f m).1 := by
  apply h.put
  apply hf
  intro e hlive
  exact h.of_live hlive

theorem All.purge {P : ε → Prop} (h : All P m) : All P (purge alive m) := by
  intro k e hget
  rw [getElem?_purge] at hget
  exact h.of_live hget

/--
The keys of live entries, in the order of the map.
-/
def liveKeys (alive : ε → Bool) (m : Std.ExtTreeMap κ ε) : List κ :=
  m.keys.filter fun k => (live alive m k).isSome

theorem mem_liveKeys : k ∈ liveKeys alive m ↔ (live alive m k).isSome = true := by
  unfold liveKeys
  rw [List.mem_filter]
  constructor
  . intro h
    exact h.2
  . intro h
    refine ⟨?_, h⟩
    rw [Option.isSome_iff_exists] at h
    rcases h with ⟨e, he⟩
    rw [live_eq_some] at he
    rw [Std.ExtTreeMap.mem_keys, Std.ExtTreeMap.mem_iff_isSome_getElem?, he.1]
    rfl

theorem nodup_liveKeys : (liveKeys alive m).Nodup := by
  exact Std.ExtTreeMap.nodup_keys.filter _

theorem liveKeys_perm (h : ∀ k, live alive m k = live alive m' k)
    : (liveKeys alive m).Perm (liveKeys alive m') := by
  rw [List.perm_ext_iff_of_nodup nodup_liveKeys nodup_liveKeys]
  intro k
  rw [mem_liveKeys, mem_liveKeys, h]

theorem liveKeys_erase_perm (h : (live alive m k).isSome = true)
    : (k :: liveKeys alive (m.erase k)).Perm (liveKeys alive m) := by
  have hself : k ∉ liveKeys alive (m.erase k) := by
    rw [mem_liveKeys, live_erase, if_pos rfl]
    exact Bool.false_ne_true
  rw [List.perm_ext_iff_of_nodup (nodup_liveKeys.cons hself) nodup_liveKeys]
  intro k'
  rw [List.mem_cons, mem_liveKeys, mem_liveKeys, live_erase]
  by_cases heq : k = k'
  . subst heq
    simp [h]
  . rw [if_neg heq]
    simp [Ne.symm heq]

theorem values_eq (m : Std.ExtTreeMap κ ε)
    : m.values = m.toList.map Prod.snd := by
  have hfold : m.values = m.foldr (fun _ e es => e :: es) [] := by
    rcases m with ⟨inner⟩
    induction inner using Std.ExtDTreeMap.inductionOn with
    | mk m => rfl
  rw [hfold, Std.ExtTreeMap.foldr_eq_foldr_toList]
  induction m.toList with
  | nil => rfl
  | cons pair pairs ih => rw [List.foldr_cons, ih, List.map_cons]

end LiveMap
