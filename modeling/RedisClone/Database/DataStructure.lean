import RedisClone.Rust.Float

/-!
This module contains the concrete value types stored in the database: lists, sets, hashes and sorted
sets. Operations that change a value return the changed value next to their result.
-/

namespace RedisClone

/--
Translate inclusive `[start, stop]` indices, which may be negative and out of range, into a pair of
offsets. There is no pair if the range selects no elements.
-/
def resolveRange (start stop : Int64) (len : Nat) : Option (Nat × Nat) :=
  if len = 0 then
    none
  else
    let len := Int64.ofNat len
    let normalize := fun index : Int64 => if index < 0 then index + len else index
    let start := max (normalize start) 0
    let stop := min (normalize stop) (len - 1)
    if start > stop ∨ start ≥ len then
      none
    else
      some (start.toNatClampNeg, stop.toNatClampNeg)

/--
Translate a single index, which may be negative, into an offset inside the collection.
-/
def normalizeIndex (index : Int64) (len : Nat) : Option Nat :=
  if len = 0 then
    none
  else
    let resolved := if index < 0 then index + Int64.ofNat len else index
    if 0 ≤ resolved ∧ resolved < Int64.ofNat len then
      some resolved.toNatClampNeg
    else
      none

/--
The elements a resolved range selects, the common core of the range queries.
-/
def selectRange (items : List α) (start stop : Int64) : List α :=
  match resolveRange start stop items.length with
  | some (start, stop) => (items.drop start).take (stop - start + 1)
  | none => []

structure RList where
  list : List String
deriving DecidableEq

namespace RList

def new : RList := ⟨[]⟩

def lpush (self : RList) (value : String) : RList := ⟨value :: self.list⟩

def rpush (self : RList) (value : String) : RList := ⟨self.list ++ [value]⟩

def lpop (self : RList) : RList × Option String := (⟨self.list.tail⟩, self.list.head?)

def rpop (self : RList) : RList × Option String := (⟨self.list.dropLast⟩, self.list.getLast?)

def lrange (self : RList) (start stop : Int64) : List String :=
  selectRange self.list start stop

def lindex (self : RList) (index : Int64) : Option String :=
  (normalizeIndex index self.list.length).bind fun index => self.list[index]?

def lset (self : RList) (index : Int64) (value : String) : RList × Bool :=
  match normalizeIndex index self.list.length with
  | some index => (⟨self.list.set index value⟩, true)
  | none => (self, false)

def len (self : RList) : Nat := self.list.length

def isEmpty (self : RList) : Bool := self.list.isEmpty

end RList

/-
The iteration order of Rust's hash maps and hash sets is unspecified. Functions whose result depends
on it take it as `order`, which rearranges the keys.
-/

structure RSet where
  set : Std.ExtTreeSet String

namespace RSet

def new : RSet := ⟨∅⟩

def sadd (self : RSet) (value : String) : RSet × Bool :=
  (⟨self.set.insert value⟩, !self.set.contains value)

def srem (self : RSet) (value : String) : RSet × Bool :=
  (⟨self.set.erase value⟩, self.set.contains value)

def smembers (order : List String → List String) (self : RSet) : List String :=
  order self.set.toList

def sismember (self : RSet) (value : String) : Bool := self.set.contains value

def scard (self : RSet) : Nat := self.set.size

def spop (order : List String → List String) (self : RSet) : RSet × Option String :=
  match (order self.set.toList).head? with
  | some member => (⟨self.set.erase member⟩, some member)
  | none => (self, none)

def isEmpty (self : RSet) : Bool := self.set.isEmpty

end RSet

structure RHash where
  map : Std.ExtTreeMap String String

namespace RHash

def new : RHash := ⟨∅⟩

def hset (self : RHash) (field value : String) : RHash × Bool :=
  (⟨self.map.insert field value⟩, self.map[field]?.isNone)

def hget (self : RHash) (field : String) : Option String := self.map[field]?

def hdel (self : RHash) (field : String) : RHash × Bool :=
  (⟨self.map.erase field⟩, self.map[field]?.isSome)

def hgetall (order : List String → List String) (self : RHash) : List (String × String) :=
  (order self.map.keys).filterMap fun field => self.map[field]?.map fun value => (field, value)

def hkeys (order : List String → List String) (self : RHash) : List String :=
  order self.map.keys

def hvals (order : List String → List String) (self : RHash) : List String :=
  (order self.map.keys).filterMap fun field => self.map[field]?

def hlen (self : RHash) : Nat := self.map.size

def hexists (self : RHash) (field : String) : Bool := self.map.contains field

def isEmpty (self : RHash) : Bool := self.map.isEmpty

end RHash

structure SortedMember where
  member : String
  score : Float
deriving DecidableEq

namespace SortedMember

/--
`Ord for SortedMember`: by score and then by member.
-/
def cmp (a b : SortedMember) : Ordering :=
  (OrderedFloat.cmp a.score b.score).then (compare a.member b.member)

instance : Std.TransCmp cmp := by
  have h : cmp = compareLex (fun a b => OrderedFloat.cmp a.score b.score) (compareOn member) := rfl
  have : Std.TransCmp fun a b : SortedMember => OrderedFloat.cmp a.score b.score :=
    { eq_swap := by
        intro a b
        have hswap : OrderedFloat.cmp a.score b.score = (OrderedFloat.cmp b.score a.score).swap :=
          Std.OrientedCmp.eq_swap
        exact hswap
      isLE_trans := by
        intro a b c
        have htrans : (OrderedFloat.cmp a.score b.score).isLE
            → (OrderedFloat.cmp b.score c.score).isLE
            → (OrderedFloat.cmp a.score c.score).isLE := Std.TransCmp.isLE_trans
        exact htrans }
  rw [h]
  infer_instance

theorem member_eq_of_cmp_eq {a b : SortedMember} (h : cmp a b = .eq) : a.member = b.member := by
  unfold cmp at h
  rw [Ordering.then_eq_eq] at h
  exact Std.LawfulEqCmp.compare_eq_iff_eq.mp h.2

end SortedMember

/--
A sorted set keeps two indexes: the score of each member, and the members in score order. They hold
the same pairs.
-/
structure RSortedSet where
  members : Std.ExtTreeMap String Float
  sorted : Std.ExtTreeSet SortedMember SortedMember.cmp
  agree : ∀ entry, sorted.get? entry = some entry ↔ members[entry.member]? = some entry.score

namespace RSortedSet

def new : RSortedSet := ⟨∅, ∅, by simp⟩

variable {members : Std.ExtTreeMap String Float}
  {sorted : Std.ExtTreeSet SortedMember SortedMember.cmp}

theorem get?_eq_none_of_absent
    (agree : ∀ entry, sorted.get? entry = some entry ↔ members[entry.member]? = some entry.score)
    {entry : SortedMember} (h : members[entry.member]? = none) : sorted.get? entry = none := by
  cases hget : sorted.get? entry with
  | none => rfl
  | some found =>
    have hcmp : SortedMember.cmp found entry = .eq := by
      have := Std.ExtTreeSet.compare_get?_self (t := sorted) (k := entry)
      rw [hget] at this
      simpa using this
    have hfound : sorted.get? found = some found := by
      rw [← hget]
      exact Std.ExtTreeSet.get?_congr hcmp
    rw [agree, SortedMember.member_eq_of_cmp_eq hcmp, h] at hfound
    cases hfound

theorem agree_insert
    (agree : ∀ entry, sorted.get? entry = some entry ↔ members[entry.member]? = some entry.score)
    (new : SortedMember) (h : members[new.member]? = none) (entry : SortedMember)
    : (sorted.insert new).get? entry = some entry
        ↔
      (members.insert new.member new.score)[entry.member]? = some entry.score := by
  have hmem : new ∉ sorted := by
    rw [Std.ExtTreeSet.mem_iff_isSome_get?, get?_eq_none_of_absent agree h]
    simp
  rw [Std.ExtTreeSet.get?_insert, Std.ExtTreeMap.getElem?_insert]
  by_cases hmember : new.member = entry.member
  . rw [if_pos (Std.LawfulEqCmp.compare_eq_iff_eq.mpr hmember)]
    by_cases hcmp : SortedMember.cmp new entry = .eq
    . rw [if_pos ⟨hcmp, hmem⟩]
      cases new
      cases entry
      simp_all
    . rw [if_neg (by simp [hcmp]), agree, ← hmember, h]
      constructor
      . intro hfalse
        cases hfalse
      . intro hscore
        have heq : new = entry := by
          cases new
          cases entry
          simp_all
        rw [heq] at hcmp
        exact absurd Std.ReflCmp.compare_self hcmp
  . have hcmp : SortedMember.cmp new entry ≠ .eq := by
      intro hcmp
      exact hmember (SortedMember.member_eq_of_cmp_eq hcmp)
    rw [if_neg (by simp [hcmp]), if_neg (by simpa using hmember)]
    exact agree entry

theorem agree_erase
    (agree : ∀ entry, sorted.get? entry = some entry ↔ members[entry.member]? = some entry.score)
    (old : SortedMember) (h : members[old.member]? = some old.score) (entry : SortedMember)
    : (sorted.erase old).get? entry = some entry
        ↔
      (members.erase old.member)[entry.member]? = some entry.score := by
  rw [Std.ExtTreeSet.get?_erase, Std.ExtTreeMap.getElem?_erase]
  by_cases hmember : old.member = entry.member
  . rw [if_pos (Std.LawfulEqCmp.compare_eq_iff_eq.mpr hmember)]
    split
    . simp
    . next hcmp =>
      -- Only `old` is stored for its member, and `entry` differs from it.
      rw [agree, ← hmember, h]
      constructor
      . intro hscore
        have heq : old = entry := by
          cases old
          cases entry
          simp_all
        rw [heq] at hcmp
        exact absurd Std.ReflCmp.compare_self hcmp
      . simp
  . have hcmp : SortedMember.cmp old entry ≠ .eq := by
      intro hcmp
      exact hmember (SortedMember.member_eq_of_cmp_eq hcmp)
    rw [if_neg hcmp, if_neg (by simpa using hmember)]
    exact agree entry

theorem agree_replace
    (agree : ∀ entry, sorted.get? entry = some entry ↔ members[entry.member]? = some entry.score)
    {member : String} {old : Float} (h : members[member]? = some old) (score : Float)
    (entry : SortedMember)
    : ((sorted.erase ⟨member, old⟩).insert ⟨member, score⟩).get? entry = some entry
        ↔
      (members.insert member score)[entry.member]? = some entry.score := by
  have hinsert : (members.erase member).insert member score = members.insert member score := by
    apply Std.ExtTreeMap.ext_getElem?
    intro k
    simp only [Std.ExtTreeMap.getElem?_insert, Std.ExtTreeMap.getElem?_erase]
    split <;> rfl
  have herase := agree_erase agree ⟨member, old⟩ h
  rw [← hinsert]
  exact agree_insert herase ⟨member, score⟩ (by simp) entry

def zadd (self : RSortedSet) (score : Float) (member : String) : RSortedSet × Bool :=
  match h : self.members[member]? with
  | some old =>
    if OrderedFloat.eq old score then
      (self, false)
    else
      ({ members := self.members.insert member score
         sorted := (self.sorted.erase ⟨member, old⟩).insert ⟨member, score⟩
         agree := agree_replace self.agree h score }, false)
  | none =>
    ({ members := self.members.insert member score
       sorted := self.sorted.insert ⟨member, score⟩
       agree := agree_insert self.agree ⟨member, score⟩ h }, true)

def zrem (self : RSortedSet) (member : String) : RSortedSet × Bool :=
  match h : self.members[member]? with
  | some score =>
    ({ members := self.members.erase member
       sorted := self.sorted.erase ⟨member, score⟩
       agree := agree_erase self.agree ⟨member, score⟩ h }, true)
  | none => (self, false)

def zrange (self : RSortedSet) (start stop : Int64) : List String :=
  (selectRange self.sorted.toList start stop).map SortedMember.member

def zscore (self : RSortedSet) (member : String) : Option Float := self.members[member]?

def zcard (self : RSortedSet) : Nat := self.members.size

def zrank (self : RSortedSet) (member : String) : Option Nat :=
  self.sorted.toList.findIdx? fun entry => entry.member == member

def zrangeWithScores (self : RSortedSet) (start stop : Int64) : List (String × Float) :=
  (selectRange self.sorted.toList start stop).map fun entry => (entry.member, entry.score)

def zrangeByScore (self : RSortedSet) (min : Float) (minInclusive : Bool) (max : Float)
    (maxInclusive : Bool) : List String :=
  let inBounds := fun entry : SortedMember =>
    let aboveMin := if minInclusive then decide (entry.score ≥ min) else decide (entry.score > min)
    let belowMax := if maxInclusive then decide (entry.score ≤ max) else decide (entry.score < max)
    aboveMin && belowMax
  (self.sorted.toList.filter inBounds).map SortedMember.member

def isEmpty (self : RSortedSet) : Bool := self.members.isEmpty

theorem get?_of_mem_toList {entry : SortedMember} (h : entry ∈ sorted.toList)
    : sorted.get? entry = some entry := by
  have h : entry ∈ sorted.inner.keys := h
  rw [← Std.ExtTreeMap.map_fst_toList_eq_keys, List.mem_map] at h
  rcases h with ⟨⟨found, value⟩, hmem, rfl⟩
  rw [Std.ExtTreeMap.mem_toList_iff_getKey?_eq_some_and_getElem?_eq_some] at hmem
  exact hmem.1

theorem mem_toList_of_get? {entry : SortedMember} (h : sorted.get? entry = some entry)
    : entry ∈ sorted.toList := by
  change entry ∈ sorted.inner.keys
  rw [← Std.ExtTreeMap.map_fst_toList_eq_keys, List.mem_map]
  refine ⟨(entry, ()), ?_, rfl⟩
  rw [Std.ExtTreeMap.mem_toList_iff_getKey?_eq_some_and_getElem?_eq_some]
  have hmem : entry ∈ sorted.inner := by
    change entry ∈ sorted
    rw [Std.ExtTreeSet.mem_iff_isSome_get?, h]
    rfl
  rw [Std.ExtTreeMap.mem_iff_isSome_getElem?, Option.isSome_iff_exists] at hmem
  exact ⟨h, hmem.choose_spec⟩

theorem mem_toList_iff {self : RSortedSet} {entry : SortedMember}
    : entry ∈ self.sorted.toList ↔ self.members[entry.member]? = some entry.score := by
  rw [← self.agree]
  exact ⟨get?_of_mem_toList, mem_toList_of_get?⟩

theorem nodup_toList (self : RSortedSet) : self.sorted.toList.Nodup := by
  apply List.Pairwise.imp _ Std.ExtTreeSet.distinct_toList
  rintro a b hne rfl
  exact hne Std.ReflCmp.compare_self

@[ext]
theorem ext {a b : RSortedSet} (h : a.members = b.members) : a = b := by
  have hsorted : a.sorted = b.sorted := by
    apply Std.ExtTreeSet.ext_toList
    rw [List.perm_ext_iff_of_nodup a.nodup_toList b.nodup_toList]
    intro entry
    rw [mem_toList_iff, mem_toList_iff, h]
  cases a
  cases b
  simp_all

end RSortedSet

end RedisClone
