import Mathlib

/-!
This module contains a library for items in the order of a comparison: the list of all of them from the
lowest to the highest, and how many are below a given one.
-/

namespace Ranking

variable {α : Type} {cmp : α → α → Ordering} {items sorted : List α}

/--
The items from the lowest to the highest.
-/
def ranked (cmp : α → α → Ordering) (items : List α) : List α :=
  items.mergeSort fun a b => (cmp a b).isLE

/--
The number of items that are lower.
-/
def below (cmp : α → α → Ordering) (items : List α) (item : α) : Nat :=
  items.countP fun other => (cmp other item).isLT

theorem below_perm (h : items.Perm sorted) (item : α) : below cmp items item = below cmp sorted item := by
  exact h.countP_eq _

section

variable [Std.TransCmp cmp]

/--
Items that are in strict order are equal when they compare equal.
-/
theorem eq_of_cmp_eq (hsorted : sorted.Pairwise fun a b => cmp a b = .lt) {a b : α}
    (ha : a ∈ sorted) (hb : b ∈ sorted) (h : cmp a b = .eq)
    : a = b := by
  induction hsorted with
  | nil => cases ha
  | cons hfirst hrest ih =>
    rcases List.mem_cons.mp ha with rfl | ha'
    . rcases List.mem_cons.mp hb with rfl | hb'
      . rfl
      . rw [hfirst b hb'] at h
        cases h
    . rcases List.mem_cons.mp hb with rfl | hb'
      . have hlt := hfirst a ha'
        rw [@Std.OrientedCmp.eq_swap _ cmp, h] at hlt
        cases hlt
      . exact ih ha' hb'

/--
A list in strict order is the only one with its items.
-/
theorem eq_ranked (hsorted : sorted.Pairwise fun a b => cmp a b = .lt) (hperm : sorted.Perm items)
    : sorted = ranked cmp items := by
  have hmerge : (ranked cmp items).Perm sorted := (List.mergeSort_perm _ _).trans hperm.symm
  have hle : (ranked cmp items).Pairwise fun a b => (cmp a b).isLE = true := by
    apply List.pairwise_mergeSort
    . intro a b c
      exact Std.TransCmp.isLE_trans
    . intro a b
      rw [@Std.OrientedCmp.eq_swap _ cmp _ b]
      cases cmp a b <;> rfl
  refine List.Perm.eq_of_pairwise ?_ (hsorted.imp ?_) hle hmerge.symm
  . intro a b ha hb hab hba
    have hb := hmerge.mem_iff.mp hb
    have heq : cmp a b = .eq := by
      rw [@Std.OrientedCmp.eq_swap _ cmp] at hba
      cases hcmp : cmp a b <;> simp [hcmp] at hab hba ⊢
    exact eq_of_cmp_eq hsorted ha hb heq
  . intro a b hlt
    rw [hlt]
    rfl

/--
In strict order, the position of an item is the number of those below it.
-/
theorem findIdx?_eq_below (hsorted : sorted.Pairwise fun a b => cmp a b = .lt) {item : α}
    (hmem : item ∈ sorted) {p : α → Bool} (hp : ∀ other ∈ sorted, p other = true ↔ other = item)
    : sorted.findIdx? p = some (below cmp sorted item) := by
  induction hsorted with
  | nil => cases hmem
  | @cons first rest hfirst hrest ih =>
    rw [List.forall_mem_cons] at hp
    by_cases heq : first = item
    . subst heq
      have hrest : below cmp rest first = 0 := by
        unfold below
        rw [List.countP_eq_zero]
        intro other hother
        rw [@Std.OrientedCmp.eq_swap _ cmp, hfirst other hother]
        decide
      have hself : ¬ (cmp first first).isLT = true := by
        rw [@Std.ReflCmp.compare_self _ cmp]
        decide
      have hbelow : below cmp (first :: rest) first = below cmp rest first := by
        exact List.countP_cons_of_neg hself
      rw [List.findIdx?_cons, if_pos (hp.1.mpr rfl), hbelow, hrest]
    . have hmem : item ∈ rest := (List.mem_cons.mp hmem).resolve_left fun h => heq h.symm
      have hfalse : ¬ p first = true := by
        rw [hp.1]
        exact heq
      have hlower : (cmp first item).isLT = true := by
        rw [hfirst item hmem]
        rfl
      have hbelow : below cmp (first :: rest) item = below cmp rest item + 1 := by
        exact List.countP_cons_of_pos hlower
      rw [List.findIdx?_cons, if_neg hfalse, ih hmem hp.2, hbelow]
      rfl

end

end Ranking
