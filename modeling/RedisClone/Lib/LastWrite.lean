import Mathlib.Data.List.Basic
import Mathlib.Data.List.Induction

/-!
This module contains a library of lists of writes to keys, of which the last one to a key decides.
-/

namespace LastWrite

variable {α κ σ β : Type} [DecidableEq κ] {key : α → κ}

/--
The last write to a key.
-/
def last (key : α → κ) (items : List α) (k : κ) : Option α :=
  items.reverse.find? fun item => key item == k

theorem last_concat (items : List α) (item : α) (k : κ)
    : last key (items ++ [item]) k = if key item = k then some item else last key items k := by
  unfold last
  rw [List.reverse_append, List.reverse_singleton, List.singleton_append, List.find?_cons]
  by_cases h : key item = k
  . simp [h]
  . have hne : (key item == k) = false := beq_eq_false_iff_ne.mpr h
    rw [if_neg h]
    simp only [hne]

theorem mem_of_last {items : List α} {k : κ} {item : α} (h : last key items k = some item)
    : item ∈ items ∧ key item = k := by
  unfold last at h
  constructor
  . apply List.mem_reverse.mp
    exact List.mem_of_find?_eq_some h
  . simpa using List.find?_some h

/--
If every step of a loop writes to one key, what the loop leaves at a key was written there last.
-/
theorem observe_foldl (observe : σ → κ → Option β) {step : σ → α → σ} {value : α → β}
    (hstep : ∀ s item k,
      observe (step s item) k = if key item = k then some (value item) else observe s k)
    (items : List α) (s : σ) (k : κ)
    : observe (items.foldl step s) k = ((last key items k).map value).or (observe s k) := by
  -- the last write is the first one to look at
  induction items using List.reverseRecOn with
  | nil => rfl
  | append_singleton items item ih =>
    rw [List.foldl_concat, hstep, last_concat, ih]
    split
    . rfl
    . rfl

end LastWrite
