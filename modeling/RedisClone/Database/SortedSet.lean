import RedisClone.Rust.StrOrder
import RedisClone.Database.DataStructure

/-!
This module contains the proof that the two indexes of a sorted set never drift apart, and that all
its queries agree with each other.
-/

namespace RedisClone

/-
The range from the first to the last element selects everything, as a collection never has `2 ^ 63`
elements: an allocation is limited to `isize::MAX` bytes.
-/

theorem resolveRange_all {len : Nat} (h : len < 2 ^ 63) (hne : len ≠ 0)
    : resolveRange 0 (-1) len = some (0, len - 1) := by
  have hsub : Int64.ofNat len - 1 = Int64.ofNat (len - 1) := by
    rw [Int64.ofNat_sub _ _ (by omega)]
    rfl
  have hneg : -1 + Int64.ofNat len = Int64.ofNat len - 1 := by
    rw [Int64.add_comm, Int64.sub_eq_add_neg]
  have hlen : (Int64.ofNat len).toInt = len := Int64.toInt_ofNat_of_lt h
  have hlast : (Int64.ofNat (len - 1)).toInt = (len - 1 : Nat) := by
    exact Int64.toInt_ofNat_of_lt (by omega)
  have hmax : max (0 : Int64) 0 = 0 := by decide
  have hsome : ¬ (0 > Int64.ofNat (len - 1) ∨ 0 ≥ Int64.ofNat len) := by
    simp only [gt_iff_lt, ge_iff_le, Int64.lt_iff_toInt_lt, Int64.le_iff_toInt_le, hlen, hlast,
      Int64.toInt_zero]
    omega
  have hlt : (-1 : Int64) < 0 := by decide
  unfold resolveRange
  rw [if_neg hne]
  simp only [Int64.lt_irrefl, if_false, hmax, hlt, if_true, hneg, hsub, Std.min_self]
  rw [if_neg hsome, Int64.toNatClampNeg_ofNat_of_lt (by omega)]
  rfl

theorem selectRange_all {items : List α} (h : items.length < 2 ^ 63)
    : selectRange items 0 (-1) = items := by
  unfold selectRange
  by_cases hnil : items.length = 0
  . rw [List.length_eq_zero_iff.mp hnil]
    rfl
  . rw [resolveRange_all h hnil]
    exact List.take_of_length_le (by simp only [List.drop_zero]; omega)

theorem mem_of_mem_selectRange {items : List α} {start stop : Int64} {item : α}
    (h : item ∈ selectRange items start stop)
    : item ∈ items := by
  unfold selectRange at h
  split at h
  . exact List.mem_of_mem_drop (List.mem_of_mem_take h)
  . cases h

theorem findIdx?_eq_some_iff_getElem?_map {β : Type} [BEq β] [LawfulBEq β] (f : α → β)
    {items : List α} (hnodup : (items.map f).Nodup) {b : β} {i : Nat}
    : (items.findIdx? fun item => f item == b) = some i ↔ (items.map f)[i]? = some b := by
  induction items generalizing i with
  | nil => simp
  | cons item items ih =>
    rw [List.map_cons, List.nodup_cons] at hnodup
    rw [List.findIdx?_cons, List.map_cons]
    by_cases hitem : f item = b
    . rw [if_pos (by simpa using hitem)]
      subst hitem
      cases i with
      | zero => simp
      | succ i =>
        constructor
        . intro h
          cases h
        . intro h
          rw [List.getElem?_cons_succ] at h
          exact absurd (List.mem_of_getElem? h) hnodup.1
    . rw [if_neg (by simpa using hitem)]
      cases i with
      | zero => simpa using hitem
      | succ i =>
        rw [List.getElem?_cons_succ, ← ih hnodup.2]
        simp

namespace OrderedFloat

theorem lt_of_cmp_lt {a b : Float} (h : cmp a b = .lt) : lt a b = true := by
  unfold cmp at h
  split at h
  . assumption
  . split at h
    . cases h
    . cases h

theorem eq_of_cmp_eq {a b : Float} (h : cmp a b = .eq) : eq a b = true := by
  unfold cmp at h
  split at h
  . cases h
  . split at h
    . assumption
    . cases h

end OrderedFloat

namespace RSortedSet

variable (self : RSortedSet)

theorem mem_sorted_iff {entry : SortedMember}
    : entry ∈ self.sorted
        ↔
      ∃ score, self.members[entry.member]? = some score
        ∧ OrderedFloat.cmp score entry.score = .eq := by
  rw [Std.ExtTreeSet.mem_iff_isSome_get?]
  constructor
  . intro h
    rw [Option.isSome_iff_exists] at h
    rcases h with ⟨found, hfound⟩
    have hcmp : SortedMember.cmp found entry = .eq := by
      have hself := Std.ExtTreeSet.compare_get?_self (t := self.sorted) (k := entry)
      rw [hfound] at hself
      simpa using hself
    have hmember := SortedMember.member_eq_of_cmp_eq hcmp
    refine ⟨found.score, ?_, ?_⟩
    . rw [← hmember, ← self.agree, ← hfound]
      exact Std.ExtTreeSet.get?_congr hcmp
    . unfold SortedMember.cmp at hcmp
      rw [Ordering.then_eq_eq] at hcmp
      exact hcmp.1
  . rintro ⟨score, hscore, heq⟩
    have hcmp : SortedMember.cmp ⟨entry.member, score⟩ entry = .eq := by
      unfold SortedMember.cmp
      rw [Ordering.then_eq_eq]
      exact ⟨heq, Std.ReflCmp.compare_self⟩
    have hget := (self.agree ⟨entry.member, score⟩).mpr hscore
    rw [← Std.ExtTreeSet.get?_congr hcmp, hget]
    rfl

theorem nodup_members : (self.sorted.toList.map SortedMember.member).Nodup := by
  apply List.Nodup.map_on _ self.nodup_toList
  intro a ha b hb hmember
  rw [mem_toList_iff] at ha hb
  rw [hmember, hb, Option.some.injEq] at ha
  cases a
  cases b
  simp_all

theorem length_toList : self.sorted.toList.length = self.zcard := by
  have hperm : (self.sorted.toList.map SortedMember.member).Perm self.members.keys := by
    rw [List.perm_ext_iff_of_nodup self.nodup_members Std.ExtTreeMap.nodup_keys]
    intro member
    rw [Std.ExtTreeMap.mem_keys, Std.ExtTreeMap.mem_iff_isSome_getElem?, List.mem_map]
    constructor
    . rintro ⟨entry, hentry, rfl⟩
      rw [mem_toList_iff] at hentry
      rw [hentry]
      rfl
    . intro h
      rw [Option.isSome_iff_exists] at h
      rcases h with ⟨score, hscore⟩
      refine ⟨⟨member, score⟩, ?_, rfl⟩
      rw [mem_toList_iff]
      exact hscore
  have hlength := hperm.length_eq
  rw [List.length_map, Std.ExtTreeMap.length_keys] at hlength
  exact hlength

variable {self}

theorem zrange_all (h : self.zcard < 2 ^ 63)
    : self.zrange 0 (-1) = self.sorted.toList.map SortedMember.member := by
  unfold zrange
  rw [selectRange_all (by rw [length_toList]; exact h)]

theorem mem_zrange_all (h : self.zcard < 2 ^ 63) (member : String)
    : member ∈ self.zrange 0 (-1) ↔ (self.zscore member).isSome := by
  rw [zrange_all h, List.mem_map, Option.isSome_iff_exists]
  constructor
  . rintro ⟨entry, hentry, rfl⟩
    exact ⟨entry.score, mem_toList_iff.mp hentry⟩
  . rintro ⟨score, hscore⟩
    exact ⟨⟨member, score⟩, mem_toList_iff.mpr hscore, rfl⟩

/--
One member is stored before another: by score, and by the bytes of the member where scores are equal.
-/
def Precedes (self : RSortedSet) (member member' : String) : Prop :=
  ∃ score score', self.zscore member = some score ∧ self.zscore member' = some score'
    ∧ (OrderedFloat.lt score score' = true
      ∨ OrderedFloat.eq score score' = true ∧ asBytes member < asBytes member')

theorem pairwise_zrange_all (h : self.zcard < 2 ^ 63)
    : (self.zrange 0 (-1)).Pairwise self.Precedes := by
  rw [zrange_all h, List.pairwise_map]
  apply List.Pairwise.imp_of_mem _ Std.ExtTreeSet.ordered_toList
  intro a b ha hb hcmp
  rw [mem_toList_iff] at ha hb
  refine ⟨a.score, b.score, ha, hb, ?_⟩
  unfold SortedMember.cmp at hcmp
  rw [Ordering.then_eq_lt] at hcmp
  rcases hcmp with hlt | ⟨heq, hmember⟩
  . left
    exact OrderedFloat.lt_of_cmp_lt hlt
  . right
    refine ⟨OrderedFloat.eq_of_cmp_eq heq, ?_⟩
    apply asBytes_lt
    exact compare_lt_iff_lt.mp hmember

theorem zrank_eq_some_iff (h : self.zcard < 2 ^ 63) (member : String) (rank : Nat)
    : self.zrank member = some rank ↔ (self.zrange 0 (-1))[rank]? = some member := by
  rw [zrange_all h]
  exact findIdx?_eq_some_iff_getElem?_map SortedMember.member self.nodup_members

theorem zrangeWithScores_eq (start stop : Int64)
    : (self.zrangeWithScores start stop).map (fun pair => (pair.1, some pair.2))
        =
      (self.zrange start stop).map fun member => (member, self.zscore member) := by
  unfold zrangeWithScores zrange
  rw [List.map_map, List.map_map]
  apply List.map_congr_left
  intro entry hmem
  have hscore := mem_toList_iff.mp (mem_of_mem_selectRange hmem)
  simp only [Function.comp_apply, zscore, hscore]

/--
The test of `ZRANGEBYSCORE` on a score.
-/
def inBounds (min : Float) (minInclusive : Bool) (max : Float) (maxInclusive : Bool) (score : Float)
    : Bool :=
  (if minInclusive then decide (score ≥ min) else decide (score > min))
    && (if maxInclusive then decide (score ≤ max) else decide (score < max))

theorem zrangeByScore_eq (h : self.zcard < 2 ^ 63) (min : Float) (minInclusive : Bool) (max : Float)
    (maxInclusive : Bool)
    : self.zrangeByScore min minInclusive max maxInclusive
        =
      (self.zrange 0 (-1)).filter fun member =>
        (self.zscore member).any (inBounds min minInclusive max maxInclusive) := by
  rw [zrange_all h, List.filter_map]
  unfold zrangeByScore
  dsimp only
  congr 1
  apply List.filter_congr
  intro entry hmem
  have hscore := mem_toList_iff.mp hmem
  simp only [Function.comp_apply, zscore, hscore]
  rfl

/--
What `ZADD` makes of the scores: a score that is equal as a number is not replaced.
-/
theorem getElem?_members_zadd (zset : RSortedSet) (score : Float) (member other : String)
    : (zset.zadd score member).1.members[other]?
        =
      if member = other ∧ ¬ ∃ old, zset.members[member]? = some old ∧ OrderedFloat.eq old score then
        some score
      else
        zset.members[other]? := by
  unfold zadd
  split
  . next old hold =>
    split
    . next heq => rw [if_neg (fun h => h.2 ⟨old, hold, heq⟩)]
    . next hne =>
      rw [Std.ExtTreeMap.getElem?_insert]
      by_cases hmember : member = other
      . rw [if_pos (by simp [hmember]), if_pos]
        refine ⟨hmember, ?_⟩
        rintro ⟨old', hold', heq⟩
        rw [hold] at hold'
        cases hold'
        exact hne heq
      . rw [if_neg (by simp [hmember]), if_neg (fun h => hmember h.1)]
  . next hnone =>
    rw [Std.ExtTreeMap.getElem?_insert]
    by_cases hmember : member = other
    . rw [if_pos (by simp [hmember]), if_pos]
      refine ⟨hmember, ?_⟩
      rintro ⟨old, hold, -⟩
      rw [hnone] at hold
      cases hold
    . rw [if_neg (by simp [hmember]), if_neg (fun h => hmember h.1)]

/--
A step of the life of a sorted set.
-/
inductive Edit where
  | zadd (score : Float) (member : String)
  | zrem (member : String)

def edit (self : RSortedSet) : Edit → RSortedSet
  | .zadd score member => (self.zadd score member).1
  | .zrem member => (self.zrem member).1

/--
The sorted set after a sequence of edits.
-/
def edited (edits : List Edit) : RSortedSet := edits.foldl edit new

theorem zcard_edit_le (e : Edit)
    : (self.edit e).zcard ≤ self.zcard + 1 := by
  cases e with
  | zadd score member =>
    simp only [edit, zadd]
    split
    . split
      . exact Nat.le_succ _
      . exact Std.ExtTreeMap.size_insert_le
    . exact Std.ExtTreeMap.size_insert_le
  | zrem member =>
    simp only [edit, zrem]
    split
    . exact Nat.le_succ_of_le Std.ExtTreeMap.size_erase_le
    . exact Nat.le_succ _

theorem zcard_edited_le (edits : List Edit)
    : (edited edits).zcard ≤ edits.length := by
  have hrun : ∀ self : RSortedSet, (edits.foldl edit self).zcard ≤ self.zcard + edits.length := by
    induction edits with
    | nil =>
      intro self
      exact Nat.le_refl _
    | cons e edits ih =>
      intro self
      have hstep := self.zcard_edit_le e
      have hrest := ih (self.edit e)
      rw [List.foldl_cons, List.length_cons]
      omega
  have hnew : new.zcard = 0 := by rfl
  have hle := hrun new
  rw [hnew, Nat.zero_add] at hle
  exact hle

/--
All queries describe the list of all members, which is strictly increasing, and the scores that are
stored for them.
-/
structure QueriesAgree (self : RSortedSet) : Prop where
  listed : ∀ member, member ∈ self.zrange 0 (-1) ↔ (self.zscore member).isSome
  once : (self.zrange 0 (-1)).Nodup
  increasing : (self.zrange 0 (-1)).Pairwise self.Precedes
  card : self.zcard = (self.zrange 0 (-1)).length
  rank : ∀ member rank, self.zrank member = some rank ↔ (self.zrange 0 (-1))[rank]? = some member
  withScores : ∀ start stop,
    (self.zrangeWithScores start stop).map (fun pair => (pair.1, some pair.2))
      =
    (self.zrange start stop).map fun member => (member, self.zscore member)
  byScore : ∀ min minInclusive max maxInclusive,
    self.zrangeByScore min minInclusive max maxInclusive
      =
    (self.zrange 0 (-1)).filter fun member =>
      (self.zscore member).any (inBounds min minInclusive max maxInclusive)

/--
Whatever was added, updated and removed, the order index holds the same pairs as the member index, so
a pair is found in it exactly if the member has a score equal to that of the pair, and all queries
agree.
-/
theorem edited_agrees (edits : List Edit)
    : (∀ entry, entry ∈ (edited edits).sorted.toList
        ↔
      (edited edits).members[entry.member]? = some entry.score)
        ∧
      (∀ entry, entry ∈ (edited edits).sorted
        ↔
      ∃ score, (edited edits).members[entry.member]? = some score
        ∧ OrderedFloat.cmp score entry.score = .eq)
        ∧
      ((edited edits).zcard < 2 ^ 63 → (edited edits).QueriesAgree) := by
  generalize edited edits = self
  refine ⟨?_, ?_, ?_⟩
  . intro entry
    exact mem_toList_iff
  . intro entry
    exact self.mem_sorted_iff
  . intro h
    have hcard : self.zcard = (self.zrange 0 (-1)).length := by
      rw [zrange_all h, List.length_map, length_toList]
    refine ⟨mem_zrange_all h, ?_, pairwise_zrange_all h, hcard, zrank_eq_some_iff h,
      zrangeWithScores_eq, zrangeByScore_eq h⟩
    rw [zrange_all h]
    exact self.nodup_members

/--
A tie, a new score and a removal.
-/
theorem edited_agrees_rescored
    : (edited [.zadd 1 "b", .zadd 1 "a", .zadd 2 "b", .zadd 2 "c", .zrem "a"]).QueriesAgree := by
  apply (edited_agrees _).2.2
  apply Nat.lt_of_le_of_lt (zcard_edited_le _)
  decide

end RSortedSet

end RedisClone
