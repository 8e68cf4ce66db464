import RedisClone.Command.Dispatch

/-!
This module contains the proof that `SINTER`, `SUNION` and `SDIFF` compute the intersection, the union
and the difference of any number of sets, and fail exactly if one of their keys holds something else.
-/

namespace RedisClone

def wrongTypeReply : String := Resp.error StoreError.wrongType.toString

theorem error_eq_wrongType_iff {error : StoreError}
    : Resp.error error.toString = wrongTypeReply ↔ error = .wrongType := by
  cases error
  all_goals decide

namespace Store

/--
The key is live and holds a value of another type.
-/
def HoldsOther (type : String) (now : Instant) (store : Store) (key : String) : Prop :=
  ∃ entry, live now store key = some entry ∧ entry.value.typeName ≠ type

/--
The set at a key; a missing or expired key is an empty set.
-/
def members (now : Instant) (store : Store) (key : String) : Std.ExtTreeSet String :=
  match live now store key with
  | some ⟨.set set, _⟩ => set.set
  | _ => ∅

end Store

namespace Db

open Store

variable {now : Instant} {store : Store} {key : String} {keys : List String}

theorem setMembersOf_of_holdsOther (h : HoldsOther "set" now store key)
    : setMembersOf now store key = .error .wrongType := by
  rcases h with ⟨⟨value, expiresAt⟩, hlive, htype⟩
  unfold setMembersOf
  rw [hlive]
  cases value with
  | set set => exact absurd rfl htype
  | _ => rfl

theorem setMembersOf_of_not_holdsOther (h : ¬ HoldsOther "set" now store key)
    : setMembersOf now store key = .ok (members now store key) := by
  unfold setMembersOf members
  cases hlive : live now store key with
  | none => rfl
  | some entry =>
    rcases entry with ⟨value, expiresAt⟩
    cases value with
    | set set => rfl
    | _ =>
      apply absurd _ h
      exact ⟨_, hlive, by simp [Value.typeName]⟩

section

variable {combine : Std.ExtTreeSet String → Std.ExtTreeSet String → Std.ExtTreeSet String}
  {result : Std.ExtTreeSet String}

theorem combineSets_of_not_holdsOther (h : ∀ key ∈ keys, ¬ HoldsOther "set" now store key)
    : combineSets now store combine result keys
        =
      .ok (keys.foldl (fun result key => combine result (members now store key)) result) := by
  unfold combineSets
  induction keys generalizing result with
  | nil => rfl
  | cons key keys ih =>
    rw [List.foldlM_cons, setMembersOf_of_not_holdsOther (h key List.mem_cons_self)]
    exact ih fun other hmem => h other (List.mem_cons_of_mem key hmem)

/--
The error does not depend on the position of the key, nor on the result so far.
-/
theorem combineSets_of_holdsOther (h : ∃ key ∈ keys, HoldsOther "set" now store key)
    : combineSets now store combine result keys = .error .wrongType := by
  unfold combineSets
  induction keys generalizing result with
  | nil =>
    rcases h with ⟨key, hmem, -⟩
    cases hmem
  | cons key keys ih =>
    rw [List.foldlM_cons]
    by_cases hkey : HoldsOther "set" now store key
    . rw [setMembersOf_of_holdsOther hkey]
      rfl
    . rw [setMembersOf_of_not_holdsOther hkey]
      apply ih
      rcases h with ⟨other, hmem, hother⟩
      rcases List.mem_cons.mp hmem with rfl | hmem
      . exact absurd hother hkey
      . exact ⟨other, hmem, hother⟩

end

/-
What the loops accumulate.
-/

variable {result other : Std.ExtTreeSet String} {member : String}

theorem mem_retain
    : member ∈ result.filter (fun member => other.contains member) ↔ member ∈ result ∧ member ∈ other
    := by
  rw [Std.ExtTreeSet.mem_filter]
  constructor
  . rintro ⟨hmem, hother⟩
    rw [Std.ExtTreeSet.get_eq, Std.ExtTreeSet.contains_iff_mem] at hother
    exact ⟨hmem, hother⟩
  . rintro ⟨hmem, hother⟩
    refine ⟨hmem, ?_⟩
    rw [Std.ExtTreeSet.get_eq, Std.ExtTreeSet.contains_iff_mem]
    exact hother

theorem mem_extend (members : List String)
    : member ∈ members.foldl (fun result member => result.insert member) result
        ↔
      member ∈ result ∨ member ∈ members := by
  induction members generalizing result with
  | nil => simp
  | cons first members ih =>
    rw [List.foldl_cons, ih, Std.ExtTreeSet.mem_insert, Std.LawfulEqCmp.compare_eq_iff_eq,
      List.mem_cons, eq_comm, or_comm (a := member = first), or_assoc]

theorem mem_remove (members : List String)
    : member ∈ members.foldl (fun result member => result.erase member) result
        ↔
      member ∈ result ∧ member ∉ members := by
  induction members generalizing result with
  | nil => simp
  | cons first members ih =>
    rw [List.foldl_cons, ih, Std.ExtTreeSet.mem_erase, ne_eq, Std.LawfulEqCmp.compare_eq_iff_eq,
      List.mem_cons, not_or, eq_comm, and_comm (a := ¬ member = first), and_assoc]

theorem mem_foldl_retain (sets : String → Std.ExtTreeSet String)
    : member ∈ keys.foldl
          (fun result key => result.filter fun member => (sets key).contains member) result
        ↔
      member ∈ result ∧ ∀ key ∈ keys, member ∈ sets key := by
  induction keys generalizing result with
  | nil => simp
  | cons key keys ih => rw [List.foldl_cons, ih, mem_retain, List.forall_mem_cons, and_assoc]

theorem mem_foldl_extend (sets : String → Std.ExtTreeSet String)
    : member ∈ keys.foldl
          (fun result key =>
            (sets key).toList.foldl (fun result member => result.insert member) result) result
        ↔
      member ∈ result ∨ ∃ key ∈ keys, member ∈ sets key := by
  induction keys generalizing result with
  | nil => simp
  | cons key keys ih =>
    rw [List.foldl_cons, ih, mem_extend, Std.ExtTreeSet.mem_toList, List.exists_mem_cons_iff,
      or_assoc]

theorem mem_foldl_remove (sets : String → Std.ExtTreeSet String)
    : member ∈ keys.foldl
          (fun result key =>
            (sets key).toList.foldl (fun result member => result.erase member) result) result
        ↔
      member ∈ result ∧ ∀ key ∈ keys, member ∉ sets key := by
  induction keys generalizing result with
  | nil => simp
  | cons key keys ih =>
    rw [List.foldl_cons, ih, mem_remove, Std.ExtTreeSet.mem_toList, List.forall_mem_cons,
      and_assoc]

theorem mem_listMembers {env : Env} : member ∈ listMembers env result ↔ member ∈ result := by
  unfold listMembers
  rw [(env.order_perm .result _).mem_iff, Std.ExtTreeSet.mem_toList]

theorem nodup_listMembers (env : Env) (result : Std.ExtTreeSet String)
    : (listMembers env result).Nodup := by
  unfold listMembers
  rw [(env.order_perm .result _).nodup_iff]
  apply List.Pairwise.imp _ Std.ExtTreeSet.distinct_toList
  intro a b hne heq
  exact hne (Std.LawfulEqCmp.compare_eq_iff_eq.mpr heq)

/-
The three operations.
-/

variable {env : Env}

/--
A list of strings that is exactly a set.
-/
def Lists (result : List String) (contained : String → Prop) : Prop :=
  result.Nodup ∧ ∀ member, member ∈ result ↔ contained member

theorem lists_listMembers {contained : String → Prop} (h : ∀ member, member ∈ result ↔ contained member)
    : Lists (listMembers env result) contained := by
  refine ⟨nodup_listMembers env result, ?_⟩
  intro member
  rw [mem_listMembers, h]

/--
The intersection and the difference start with the first set.
-/
theorem startingSets_of_holdsOther
    {combine : Std.ExtTreeSet String → Std.ExtTreeSet String → Std.ExtTreeSet String}
    (h : ∃ other ∈ key :: keys, HoldsOther "set" now store other)
    : (setMembersOf now store key).bind (fun result => combineSets now store combine result keys)
        =
      .error .wrongType := by
  by_cases hkey : HoldsOther "set" now store key
  . rw [setMembersOf_of_holdsOther hkey]
    rfl
  . rw [setMembersOf_of_not_holdsOther hkey]
    apply combineSets_of_holdsOther
    rcases h with ⟨other, hmem, hother⟩
    rcases List.mem_cons.mp hmem with rfl | hmem
    . exact absurd hother hkey
    . exact ⟨other, hmem, hother⟩

theorem startingSets_of_not_holdsOther
    {combine : Std.ExtTreeSet String → Std.ExtTreeSet String → Std.ExtTreeSet String}
    (h : ∀ other ∈ key :: keys, ¬ HoldsOther "set" now store other)
    : (setMembersOf now store key).bind (fun result => combineSets now store combine result keys)
        =
      .ok (keys.foldl (fun result key => combine result (members now store key))
        (members now store key)) := by
  rw [setMembersOf_of_not_holdsOther (h key List.mem_cons_self)]
  exact combineSets_of_not_holdsOther fun other hmem => h other (List.mem_cons_of_mem key hmem)

end Db

theorem Reply.array_eq_wrongType_iff {result : Except StoreError (List String)}
    : array result = wrongTypeReply ↔ result = .error .wrongType := by
  cases result with
  | ok items =>
    refine iff_of_false ?_ (by simp)
    intro h
    have herror := congrArg isError h
    simp [array, wrongTypeReply] at herror
  | error error =>
    rw [Except.error.injEq]
    exact error_eq_wrongType_iff

open Store

/--
A set operation lists exactly `contained`, unless a key holds another type.
-/
def RepliesSet (env : Env) (db : Database) (keys : List String) (command : Command)
    (contained : String → Prop) : Prop :=
  ((execute env command db).2 = wrongTypeReply
      ↔ ∃ key ∈ keys, HoldsOther "set" env.now db.store key)
    ∧ ((¬ ∃ key ∈ keys, HoldsOther "set" env.now db.store key)
      → ∃ result, (execute env command db).2 = Resp.array result ∧ Db.Lists result contained)

theorem repliesSet_of_result {env : Env} {db : Database} {keys : List String} {command : Command}
    {contained : String → Prop} {result : Except StoreError (List String)}
    (hexecute : (execute env command db).2 = Reply.array result)
    (herror : (∃ key ∈ keys, HoldsOther "set" env.now db.store key) → result = .error .wrongType)
    (hok : (∀ key ∈ keys, ¬ HoldsOther "set" env.now db.store key)
      → ∃ items, result = .ok items ∧ Db.Lists items contained)
    : RepliesSet env db keys command contained := by
  have hok' : (¬ ∃ key ∈ keys, HoldsOther "set" env.now db.store key)
      → ∃ items, result = .ok items ∧ Db.Lists items contained := by
    intro hnone
    apply hok
    intro key hmem hkey
    exact hnone ⟨key, hmem, hkey⟩
  unfold RepliesSet
  rw [hexecute, Reply.array_eq_wrongType_iff]
  refine ⟨⟨?_, herror⟩, ?_⟩
  . intro hresult
    by_contra hnone
    rcases hok' hnone with ⟨items, hitems, -⟩
    rw [hitems] at hresult
    cases hresult
  . intro hnone
    rcases hok' hnone with ⟨items, rfl, hitems⟩
    exact ⟨items, rfl, hitems⟩

section

variable (env : Env) (db : Database) (key : String) (keys : List String)

theorem repliesSet_sInter
    : RepliesSet env db (key :: keys) (.sInter (key :: keys)) fun member =>
        ∀ other ∈ key :: keys, member ∈ members env.now db.store other := by
  apply repliesSet_of_result rfl
  . intro h
    unfold Db.sinter
    dsimp only
    rw [Db.startingSets_of_holdsOther h]
    rfl
  . intro h
    unfold Db.sinter
    dsimp only
    rw [Db.startingSets_of_not_holdsOther h]
    refine ⟨_, rfl, Db.lists_listMembers ?_⟩
    intro member
    rw [Db.mem_foldl_retain, List.forall_mem_cons]

theorem repliesSet_sUnion
    : RepliesSet env db (key :: keys) (.sUnion (key :: keys)) fun member =>
        ∃ other ∈ key :: keys, member ∈ members env.now db.store other := by
  apply repliesSet_of_result rfl
  . intro h
    unfold Db.sunion
    dsimp only
    rw [Db.combineSets_of_holdsOther h]
    rfl
  . intro h
    unfold Db.sunion
    dsimp only
    rw [Db.combineSets_of_not_holdsOther h]
    refine ⟨_, rfl, Db.lists_listMembers ?_⟩
    intro member
    rw [Db.mem_foldl_extend]
    simp

theorem repliesSet_sDiff
    : RepliesSet env db (key :: keys) (.sDiff (key :: keys)) fun member =>
        member ∈ members env.now db.store key
          ∧ ∀ other ∈ keys, member ∉ members env.now db.store other := by
  apply repliesSet_of_result rfl
  . intro h
    unfold Db.sdiff
    dsimp only
    rw [Db.startingSets_of_holdsOther h]
    rfl
  . intro h
    unfold Db.sdiff
    dsimp only
    rw [Db.startingSets_of_not_holdsOther h]
    refine ⟨_, rfl, Db.lists_listMembers ?_⟩
    intro member
    rw [Db.mem_foldl_remove]

end

/--
For every non-empty list of keys, `SINTER`, `SUNION` and `SDIFF` reply the intersection of all sets,
their union, and the first one without the others, and an error if and only if one of the keys is
live and holds no set.
-/
theorem set_algebra_exact (env : Env) (db : Database) (key : String) (keys : List String)
    : RepliesSet env db (key :: keys) (.sInter (key :: keys)) (fun member =>
        ∀ other ∈ key :: keys, member ∈ members env.now db.store other)
        ∧
      RepliesSet env db (key :: keys) (.sUnion (key :: keys)) (fun member =>
        ∃ other ∈ key :: keys, member ∈ members env.now db.store other)
        ∧
      RepliesSet env db (key :: keys) (.sDiff (key :: keys)) (fun member =>
        member ∈ members env.now db.store key
          ∧ ∀ other ∈ keys, member ∉ members env.now db.store other) := by
  exact ⟨repliesSet_sInter env db key keys, repliesSet_sUnion env db key keys,
    repliesSet_sDiff env db key keys⟩

end RedisClone
