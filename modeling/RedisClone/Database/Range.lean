import RedisClone.Database.SortedSet

/-!
This module contains the proof that ranges and indices select what they say for all 64-bit arguments:
negative ones count from the end, and nothing overflows or is out of bounds.
-/

namespace RedisClone

/--
The items at the selected positions, in order.
-/
def itemsAt (items : List α) (selected : Nat → Bool) : List α :=
  (items.zipIdx.filter fun item => selected item.2).map Prod.fst

/--
The position that an index stands for, possibly outside of the collection.
-/
def position (len : Nat) (index : Int64) : Int :=
  if index.toInt < 0 then index.toInt + len else index.toInt

def Inside (len : Nat) (index : Int64) : Prop := 0 ≤ position len index ∧ position len index < len

instance (len : Nat) (index : Int64) : Decidable (Inside len index) :=
  inferInstanceAs (Decidable (_ ∧ _))

theorem inside_iff {len : Nat} {index : Int64}
    : Inside len index ↔ 0 ≤ position len index ∧ position len index < len := Iff.rfl

/--
The positions of an inclusive range.
-/
def inRange (start stop : Int64) (len p : Nat) : Bool :=
  decide (max 0 (position len start) ≤ p ∧ (p : Int) ≤ min ((len : Int) - 1) (position len stop))

theorem zipIdx_filter (items : List α) (first last k : Nat)
    : ((items.zipIdx k).filter fun item => decide (first ≤ item.2 ∧ item.2 ≤ last)).map Prod.fst
        =
      (items.drop (first - k)).take (last + 1 - max first k) := by
  induction items generalizing k with
  | nil => simp
  | cons item items ih =>
    rw [List.zipIdx_cons, List.filter_cons]
    by_cases hfirst : first ≤ k
    . have hdrop : first - k = 0 := by omega
      have hdrop' : first - (k + 1) = 0 := by omega
      have hmax : max first k = k := by omega
      have hmax' : max first (k + 1) = k + 1 := by omega
      specialize ih (k + 1)
      rw [hdrop', hmax', List.drop_zero] at ih
      rw [hdrop, hmax, List.drop_zero]
      by_cases hlast : k ≤ last
      . have htake : last + 1 - k = (last + 1 - (k + 1)) + 1 := by omega
        rw [if_pos (by simpa using ⟨hfirst, hlast⟩), List.map_cons, ih, htake, List.take_succ_cons]
      . have htake : last + 1 - k = 0 := by omega
        have htake' : last + 1 - (k + 1) = 0 := by omega
        rw [if_neg (by simp; omega), ih, htake, htake', List.take_zero, List.take_zero]
    . have hdrop : first - k = (first - (k + 1)) + 1 := by omega
      have hmax : max first k = max first (k + 1) := by omega
      rw [if_neg (by simp; omega), ih, hdrop, hmax, List.drop_succ_cons]

/--
Skipping and taking selects an interval of positions.
-/
theorem drop_take_eq_itemsAt (items : List α) (first last : Nat) (h : first ≤ last)
    : (items.drop first).take (last - first + 1)
        =
      itemsAt items fun p => decide (first ≤ p ∧ p ≤ last) := by
  have hcount : last - first + 1 = last + 1 - max first 0 := by omega
  have hfilter := zipIdx_filter items first last 0
  rw [Nat.sub_zero] at hfilter
  rw [hcount, ← hfilter]
  rfl

theorem itemsAt_congr {items : List α} {selected selected' : Nat → Bool}
    (h : ∀ p < items.length, selected p = selected' p)
    : itemsAt items selected = itemsAt items selected' := by
  unfold itemsAt
  congr 1
  apply List.filter_congr
  rintro ⟨item, p⟩ hmem
  apply h
  exact List.snd_lt_of_mem_zipIdx hmem

theorem itemsAt_of_not_selected {items : List α} {selected : Nat → Bool}
    (h : ∀ p < items.length, selected p = false)
    : itemsAt items selected = [] := by
  rw [itemsAt_congr h]
  simp [itemsAt]

/-
The arithmetic on 64-bit numbers is that on integers.
-/

section

variable {len : Nat} {index : Int64}

theorem toInt_max (a b : Int64) : (max a b).toInt = max a.toInt b.toInt := by
  have hmax : max a b = if a ≤ b then b else a := by rfl
  rw [hmax]
  split
  . next h =>
    rw [Int64.le_iff_toInt_le] at h
    omega
  . next h =>
    rw [Int64.le_iff_toInt_le] at h
    omega

theorem toInt_min (a b : Int64) : (min a b).toInt = min a.toInt b.toInt := by
  have hmin : min a b = if a ≤ b then a else b := by rfl
  rw [hmin]
  split
  . next h =>
    rw [Int64.le_iff_toInt_le] at h
    omega
  . next h =>
    rw [Int64.le_iff_toInt_le] at h
    omega

theorem toInt_normalize (index : Int64) (h : len < 2 ^ 63)
    : (if index < 0 then index + Int64.ofNat len else index).toInt = position len index := by
  have hlen : (Int64.ofNat len).toInt = len := Int64.toInt_ofNat_of_lt h
  have hlo := index.le_toInt
  have hhi := index.toInt_lt
  have hneg : index < 0 ↔ index.toInt < 0 := by
    rw [Int64.lt_iff_toInt_lt, Int64.toInt_zero]
  unfold position
  by_cases hlt : index.toInt < 0
  . rw [if_pos (hneg.mpr hlt), if_pos hlt, Int64.toInt_add, hlen]
    apply Int.bmod_eq_of_le
    . omega
    . omega
  . rw [if_neg (fun h => hlt (hneg.mp h)), if_neg hlt]

theorem clampedRange_eq {first last : Int64} (h : len < 2 ^ 63) (hlast : last.toInt < len)
    : (if first > last ∨ first ≥ Int64.ofNat len then
        none
      else
        some (first.toNatClampNeg, last.toNatClampNeg))
        =
      if first.toInt ≤ last.toInt then some (first.toInt.toNat, last.toInt.toNat) else none := by
  have hlen : (Int64.ofNat len).toInt = len := Int64.toInt_ofNat_of_lt h
  simp only [gt_iff_lt, ge_iff_le, Int64.lt_iff_toInt_lt, Int64.le_iff_toInt_le, hlen]
  by_cases hsome : first.toInt ≤ last.toInt
  . rw [if_pos hsome, if_neg (by omega)]
    rfl
  . rw [if_neg hsome, if_pos (by omega)]

theorem resolveRange_eq {start stop : Int64} (h : len < 2 ^ 63)
    : resolveRange start stop len
        =
      if max 0 (position len start) ≤ min ((len : Int) - 1) (position len stop) then
        some ((max 0 (position len start)).toNat,
          (min ((len : Int) - 1) (position len stop)).toNat)
      else
        none := by
  by_cases hzero : len = 0
  . unfold resolveRange
    rw [if_pos hzero, if_neg (by omega)]
  . have hlen : (Int64.ofNat len).toInt = len := Int64.toInt_ofNat_of_lt h
    have hlast : (Int64.ofNat len - 1).toInt = (len : Int) - 1 := by
      have hone : (1 : Int64).toInt = 1 := by rfl
      rw [Int64.toInt_sub, hlen, hone]
      apply Int.bmod_eq_of_le
      . omega
      . omega
    have hfirst : (max (if start < 0 then start + Int64.ofNat len else start) 0).toInt
        = max 0 (position len start) := by
      rw [toInt_max, toInt_normalize start h, Int64.toInt_zero, max_comm]
    have hend : (min (if stop < 0 then stop + Int64.ofNat len else stop)
          (Int64.ofNat len - 1)).toInt
        = min ((len : Int) - 1) (position len stop) := by
      rw [toInt_min, toInt_normalize stop h, hlast, min_comm]
    unfold resolveRange
    rw [if_neg hzero]
    dsimp only
    rw [clampedRange_eq h (by omega), hfirst, hend]

theorem normalizeIndex_eq (h : len < 2 ^ 63)
    : normalizeIndex index len
        =
      if Inside len index then some (position len index).toNat else none := by
  by_cases hzero : len = 0
  . unfold normalizeIndex
    rw [if_pos hzero, if_neg (by rw [inside_iff]; omega)]
  . have hlen : (Int64.ofNat len).toInt = len := Int64.toInt_ofNat_of_lt h
    have hindex := toInt_normalize index h
    unfold normalizeIndex
    rw [if_neg hzero]
    dsimp only
    generalize (if index < 0 then index + Int64.ofNat len else index) = index' at hindex
    simp only [Int64.lt_iff_toInt_lt, Int64.le_iff_toInt_le, Int64.toInt_zero, hindex, hlen]
    by_cases hinside : 0 ≤ position len index ∧ position len index < len
    . rw [if_pos hinside, if_pos (inside_iff.mpr hinside), ← hindex]
      rfl
    . rw [if_neg hinside, if_neg fun h => hinside (inside_iff.mp h)]

theorem le_of_resolveRange {start stop : Int64} {first last : Nat} (h : len < 2 ^ 63)
    (hresolve : resolveRange start stop len = some (first, last))
    : first ≤ last ∧ last < len := by
  rw [resolveRange_eq h] at hresolve
  split at hresolve
  . cases hresolve
    omega
  . cases hresolve

theorem lt_of_normalizeIndex {offset : Nat} (h : len < 2 ^ 63)
    (hnormalize : normalizeIndex index len = some offset)
    : offset < len := by
  rw [normalizeIndex_eq h] at hnormalize
  split at hnormalize
  . next hinside =>
    cases hnormalize
    rw [inside_iff] at hinside
    omega
  . cases hnormalize

end

theorem selectRange_eq {items : List α} (h : items.length < 2 ^ 63) (start stop : Int64)
    : selectRange items start stop = itemsAt items (inRange start stop items.length) := by
  unfold selectRange
  rw [resolveRange_eq h]
  by_cases hsome : max 0 (position items.length start)
      ≤ min ((items.length : Int) - 1) (position items.length stop)
  . rw [if_pos hsome]
    dsimp only
    rw [drop_take_eq_itemsAt _ _ _ (by omega)]
    apply itemsAt_congr
    intro p hp
    unfold inRange
    rw [decide_eq_decide]
    omega
  . rw [if_neg hsome]
    dsimp only
    rw [itemsAt_of_not_selected]
    intro p hp
    unfold inRange
    rw [decide_eq_false_iff_not]
    omega

namespace RList

variable {list : RList} {index : Int64}

theorem len_eq : list.len = list.list.length := by
  rfl

theorem lindex_eq (h : list.len < 2 ^ 63)
    : list.lindex index
        =
      if Inside list.len index then list.list[(position list.len index).toNat]? else none := by
  rw [len_eq] at h ⊢
  unfold lindex
  rw [normalizeIndex_eq h]
  split <;> rfl

theorem lrange_index (h : list.len < 2 ^ 63)
    : list.lrange index index = (list.lindex index).toList := by
  rw [lindex_eq h]
  rw [len_eq] at h ⊢
  unfold lrange selectRange
  rw [resolveRange_eq h]
  by_cases hinside : Inside list.list.length index
  . rw [if_pos hinside]
    rw [inside_iff] at hinside
    have hfirst : max 0 (position list.list.length index) = position list.list.length index := by
      omega
    have hlast : min ((list.list.length : Int) - 1) (position list.list.length index)
        = position list.list.length index := by
      omega
    rw [hfirst, hlast, if_pos (by omega)]
    dsimp only
    rw [Nat.sub_self, Nat.zero_add, List.take_one, List.head?_drop]
  . rw [if_neg hinside]
    rw [inside_iff] at hinside
    rw [if_neg (by omega)]
    rfl

theorem lset_eq (h : list.len < 2 ^ 63) (value : String)
    : list.lset index value
        =
      if Inside list.len index then
        (⟨list.list.set (position list.len index).toNat value⟩, true)
      else
        (list, false) := by
  rw [len_eq] at h ⊢
  unfold lset
  rw [normalizeIndex_eq h]
  by_cases hinside : Inside list.list.length index
  . rw [if_pos hinside, if_pos hinside]
  . rw [if_neg hinside, if_neg hinside]

theorem getElem?_lset (h : list.len < 2 ^ 63) (value : String) {p : Nat}
    (hp : (p : Int) ≠ position list.len index)
    : (list.lset index value).1.list[p]? = list.list[p]? := by
  rw [lset_eq h]
  split
  . next hinside =>
    rw [inside_iff] at hinside
    dsimp only
    rw [List.getElem?_set_ne (by omega)]
  . rfl

theorem getElem?_lset_self (h : list.len < 2 ^ 63) (value : String) (hinside : Inside list.len index)
    : (list.lset index value).1.list[(position list.len index).toNat]? = some value := by
  rw [lset_eq h, if_pos hinside]
  rw [inside_iff, len_eq] at hinside
  rw [len_eq]
  dsimp only
  rw [List.getElem?_set_self (by omega)]

end RList

/--
The range and index queries select what they say for all 64-bit arguments: of a list by position, of a
sorted set by position in score order. No sum overflows, and no offset is out of bounds.
-/
theorem ranges_exact (start stop index : Int64)
    : (∀ len < 2 ^ 63,
        (index < 0 → (index + Int64.ofNat len).toInt = index.toInt + len)
          ∧ (∀ first last, resolveRange start stop len = some (first, last)
              → first ≤ last ∧ last < len)
          ∧ ∀ offset, normalizeIndex index len = some offset → offset < len)
        ∧
      (∀ list : RList, list.len < 2 ^ 63 →
        list.lrange start stop = itemsAt list.list (inRange start stop list.len)
          ∧ list.lindex index
            = (if Inside list.len index then list.list[(position list.len index).toNat]? else none)
          ∧ list.lrange index index = (list.lindex index).toList
          ∧ ∀ value,
            ((list.lset index value).2 = true ↔ Inside list.len index)
              ∧ (¬ Inside list.len index → (list.lset index value).1 = list)
              ∧ (Inside list.len index
                → (list.lset index value).1.list[(position list.len index).toNat]? = some value)
              ∧ (list.lset index value).1.len = list.len
              ∧ ∀ p : Nat, (p : Int) ≠ position list.len index
                  → (list.lset index value).1.list[p]? = list.list[p]?)
        ∧
      ∀ zset : RSortedSet, zset.zcard < 2 ^ 63 →
        zset.sorted.toList.Pairwise (fun a b => SortedMember.cmp a b = .lt)
          ∧ zset.zrange start stop
            = (itemsAt zset.sorted.toList (inRange start stop zset.zcard)).map SortedMember.member
          ∧ zset.zrangeWithScores start stop
            = (itemsAt zset.sorted.toList (inRange start stop zset.zcard)).map fun entry =>
              (entry.member, entry.score) := by
  refine ⟨?_, ?_, ?_⟩
  . intro len hlen
    refine ⟨?_, ?_, ?_⟩
    . intro hneg
      have hnormalize := toInt_normalize index hlen
      rw [if_pos hneg] at hnormalize
      rw [hnormalize]
      unfold position
      rw [Int64.lt_iff_toInt_lt, Int64.toInt_zero] at hneg
      rw [if_pos hneg]
    . intro first last hresolve
      exact le_of_resolveRange hlen hresolve
    . intro offset hnormalize
      exact lt_of_normalizeIndex hlen hnormalize
  . intro list hlist
    refine ⟨selectRange_eq hlist start stop, RList.lindex_eq hlist, RList.lrange_index hlist, ?_⟩
    intro value
    refine ⟨?_, ?_, ?_, ?_, ?_⟩
    . rw [RList.lset_eq hlist]
      split
      . next hinside => exact iff_of_true rfl hinside
      . next hinside => exact iff_of_false Bool.false_ne_true hinside
    . intro hinside
      rw [RList.lset_eq hlist, if_neg hinside]
    . exact RList.getElem?_lset_self hlist value
    . rw [RList.lset_eq hlist]
      split
      . exact List.length_set
      . rfl
    . intro p hp
      exact RList.getElem?_lset hlist value hp
  . intro zset hzset
    have hlength : zset.sorted.toList.length = zset.zcard := zset.length_toList
    have hselect := selectRange_eq (by rwa [hlength]) start stop
    rw [hlength] at hselect
    refine ⟨Std.ExtTreeSet.ordered_toList, ?_, ?_⟩
    . unfold RSortedSet.zrange
      rw [hselect]
    . unfold RSortedSet.zrangeWithScores
      rw [hselect]

/--
The least index, one before the start, and the last but one.
-/
theorem ranges_exact_negative
    : let list : RList := ⟨["a", "b", "c"]⟩
      list.lrange Int64.minValue (-2) = ["a", "b"] ∧ list.lindex (-4) = none
        ∧ (list.lset (-4) "x").2 = false
        ∧ (list.lset (-2) "x").2 = true ∧ (list.lset (-2) "x").1.list[1]? = some "x"
        ∧ (list.lset (-2) "x").1.list[0]? = some "a" := by
  intro list
  have houtside : ¬ Inside list.len (-4) := by decide
  have hinside : Inside list.len (-2) := by decide
  obtain ⟨hrange, hindex, -, hset⟩ := (ranges_exact Int64.minValue (-2) (-4)).2.1 list (by decide)
  obtain ⟨-, -, -, hset'⟩ := (ranges_exact Int64.minValue (-2) (-2)).2.1 list (by decide)
  obtain ⟨hsuccess, -, hstored, -, hothers⟩ := hset' "x"
  refine ⟨?_, ?_, ?_, hsuccess.mpr hinside, hstored hinside, hothers 0 (by decide)⟩
  . rw [hrange]
    decide
  . rw [hindex, if_neg houtside]
  . rw [← Bool.not_eq_true, (hset "x").1]
    exact houtside

end RedisClone
