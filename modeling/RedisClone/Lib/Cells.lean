import Mathlib

/-!
This module contains a library for maps seen as cells: every key has one, which is empty or holds a value.
-/

abbrev Cells (α β : Type) [Ord α] := Std.ExtTreeMap α β

namespace Cells

variable {α β : Type} [Ord α] [Std.TransOrd α]

def put (cells : Cells α β) (key : α) : Option β → Cells α β
  | some value => cells.insert key value
  | none => cells.erase key

theorem isEmpty_put (cells : Cells α β) (key : α) (value : β)
    : (cells.put key (some value)).isEmpty = false := by
  rw [Std.ExtTreeMap.isEmpty_eq_false_iff]
  intro hempty
  have hmem : key ∈ cells.put key (some value) := Std.ExtTreeMap.mem_insert_self
  rw [hempty] at hmem
  exact Std.ExtTreeMap.not_mem_empty hmem

theorem size_put_none {cells : Cells α β} {key : α} {value : β} (h : cells[key]? = some value)
    : (cells.put key none).size + 1 = cells.size := by
  have hcontains : cells.contains key = true := by
    rw [← Std.ExtTreeMap.isSome_getElem?_eq_contains, h]
    rfl
  have hsize : cells.size ≠ 0 := by
    intro hzero
    rw [← Std.ExtTreeMap.eq_empty_iff_size_eq_zero] at hzero
    rw [hzero, Std.ExtTreeMap.getElem?_empty] at h
    cases h
  rw [put, Std.ExtTreeMap.size_erase, if_pos hcontains]
  omega

variable [Std.LawfulEqOrd α] [DecidableEq α]

theorem getElem?_put (cells : Cells α β) (key other : α) (cell : Option β)
    : (cells.put key cell)[other]? = if key = other then cell else cells[other]? := by
  cases cell with
  | some value =>
    rw [put, Std.ExtTreeMap.getElem?_insert]
    simp only [Std.LawfulEqCmp.compare_eq_iff_eq]
  | none =>
    rw [put, Std.ExtTreeMap.getElem?_erase]
    simp only [Std.LawfulEqCmp.compare_eq_iff_eq]

theorem put_self (cells : Cells α β) (key : α) : cells.put key cells[key]? = cells := by
  apply Std.ExtTreeMap.ext_getElem?
  intro other
  rw [getElem?_put]
  split
  . next heq => rw [heq]
  . rfl

end Cells
