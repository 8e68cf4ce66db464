import RedisClone.Keyspace.Blind
import RedisClone.Keyspace.Sound
import RedisClone.Server.RoundTrip

/-!
This module contains the proof that what a command logs describes what it did: dispatching the logged
entry changes the live entries as the command changed them, and a command that logs nothing changes
none.
-/

namespace RedisClone

open Store

variable {env env' : Env} {command : Command} {tokens : List String} {db db' : Database}
  {key : String} {now : Instant}

theorem execute_store_congr (h : db.store = db'.store)
    : (execute env command db).1.store = (execute env command db').1.store := by
  cases hkey : command.keyOp env with
  | some keyOp =>
    rw [execute_eq_keyOp hkey, execute_eq_keyOp hkey]
    simp only [Database.run, h]
  | none =>
    cases hread : command.mutates with
    | false => rw [execute_store_of_read hkey hread, execute_store_of_read hkey hread, h]
    | true =>
      cases command
      all_goals simp only [Command.mutates, Command.isWrite, Bool.false_eq_true] at hread
      all_goals simp only [Command.keyOp, reduceCtorEq] at hkey
      all_goals simp only [execute, Database.run, h]

theorem execute_of_isWrite (hwrite : command.isWrite = true) (hnow : env.now = env'.now)
    : execute env command db = execute env' command db := by
  cases command
  all_goals simp only [Command.isWrite, Bool.false_eq_true] at hwrite
  all_goals simp only [execute, hnow]

theorem execute_alike_of_isWrite (hwrite : command.isWrite = true) (hnow : env.now = now)
    (hnow' : env'.now = now) (h : Store.Alike now db.store db'.store)
    : Store.Alike now (execute env command db).1.store (execute env' command db').1.store := by
  have halike : db.Alike env.now { db with store := db'.store } := ⟨by rwa [hnow], rfl⟩
  have hexecute := (execute_alike env.alike_refl halike command).1.store
  have hstore : (execute env command db').1.store
      = (execute env command { db with store := db'.store }).1.store := execute_store_congr rfl
  rw [execute_of_isWrite hwrite (hnow'.trans hnow.symm), hstore]
  rwa [hnow] at hexecute

/-
`SPOP` is logged as the `SREM` of the member it removed.
-/

theorem parse_srem (key member : String)
    : Command.parse ["SREM", key, member] = .ok (.sRem key [member]) := by
  rfl

theorem spop_eq (env : Env) (key : String) (db : Database)
    : (Db.spop env key db.store).2
        =
      (KeyOp.removeOp none (Db.spopOn (env.order (.value key))) (live env.now db.store key)).2 := by
  unfold Db.spop
  rw [removeFrom_eq_atKey]
  rfl

theorem execute_spop_store (env : Env) (key : String) (db : Database)
    : (execute env (.sPop key) db).1.store
        =
      LiveMap.put db.store key
        (KeyOp.removeOp none (Db.spopOn (env.order (.value key))) (live env.now db.store key)).1 := by
  rw [execute_eq_keyOp rfl]
  rfl

theorem execute_srem_store (env : Env) (key : String) (values : List String) (db : Database)
    : (execute env (.sRem key values) db).1.store
        =
      LiveMap.put db.store key
        (KeyOp.removeOp 0 (Db.sremOn values) (live env.now db.store key)).1 := by
  rw [execute_eq_keyOp rfl]
  rfl

theorem spopOn_some {order : List String → List String} {set : RSet} {member : String}
    (h : (order set.set.toList).head? = some member)
    : Db.spopOn order (.set set)
        =
      .ok (.set ⟨set.set.erase member⟩, some member, RSet.isEmpty ⟨set.set.erase member⟩) := by
  simp only [Db.spopOn, Value.asSet, Except.map, RSet.spop, h]

theorem spopOn_none {order : List String → List String} {set : RSet}
    (h : (order set.set.toList).head? = none)
    : Db.spopOn order (.set set) = .ok (.set set, none, set.isEmpty) := by
  simp only [Db.spopOn, Value.asSet, Except.map, RSet.spop, h]

/--
A member that `SPOP` returned was in the set, and removing it has the same effect.
-/
theorem removeOp_spopOn_some {order : List String → List String} {found : Option Entry}
    {member : String}
    (h : (KeyOp.removeOp none (Db.spopOn order) found).2 = .ok (some member))
    : (KeyOp.removeOp none (Db.spopOn order) found).1
          = (KeyOp.removeOp 0 (Db.sremOn [member]) found).1
        ∧ ∃ entry set, found = some entry ∧ entry.value = .set set
          ∧ (order set.set.toList).head? = some member := by
  cases found with
  | none => cases h
  | some entry =>
    rcases entry with ⟨value, expiresAt⟩
    cases value with
    | set set =>
      cases hpick : (order set.set.toList).head? with
      | none => simp [KeyOp.removeOp, spopOn_none hpick] at h
      | some popped =>
        simp only [KeyOp.removeOp, spopOn_some hpick, Except.ok.injEq, Option.some.injEq] at h
        rw [h] at hpick
        refine ⟨?_, ⟨.set set, expiresAt⟩, set, rfl, rfl, hpick⟩
        simp only [KeyOp.removeOp, spopOn_some hpick]
        rfl
    | _ => cases h

/--
`SPOP` without a member to return leaves the entry alone, as no stored set is empty.
-/
theorem removeOp_spopOn_none {order : List String → List String}
    (horder : ∀ keys, (order keys).Perm keys) {member : String → Prop} {found : Option Entry}
    (hsound : ∀ entry, found = some entry → entry.Sound member)
    (h : ∀ popped, (KeyOp.removeOp none (Db.spopOn order) found).2 ≠ .ok (some popped))
    : (KeyOp.removeOp none (Db.spopOn order) found).1 = found := by
  cases found with
  | none => rfl
  | some entry =>
    rcases entry with ⟨value, expiresAt⟩
    cases value with
    | set set =>
      have hne : order set.set.toList ≠ [] := by
        intro hnil
        have hempty := (hsound _ rfl).1
        have hperm := horder set.set.toList
        rw [hnil, List.nil_perm] at hperm
        unfold RSet.isEmpty at hempty
        rw [← Std.ExtTreeSet.isEmpty_toList, hperm] at hempty
        cases hempty
      exfalso
      cases hpick : (order set.set.toList).head? with
      | none => exact hne (List.head?_eq_none_iff.mp hpick)
      | some popped =>
        apply h popped
        simp only [KeyOp.removeOp, spopOn_some hpick]
    | _ => rfl

/--
The strings the reader accepts in an array.
-/
def Fits (token : String) : Prop := token.utf8ByteSize ≤ maxBulkBytes

theorem logEntry_spop (env : Env) (key : String) (tokens : List String) (db : Database)
    : logEntry env (.sPop key) tokens db
        =
      match (Db.spop env key db.store).2 with
      | .ok (some member) => some ["SREM", key, member]
      | _ => none := by
  rfl

theorem logEntry_spop_simulation {member : String → Prop} (hnow : env.now = now)
    (hnow' : env'.now = now) (hsound : LiveMap.All (Entry.Sound member) db.store)
    (h : Store.Alike now db.store db'.store)
    : match logEntry env (.sPop key) tokens db with
      | some entry =>
        Store.Alike now (execute env (.sPop key) db).1.store (dispatch env' entry db').1.store
      | none => Store.Alike now (execute env (.sPop key) db).1.store db'.store := by
  have hentry : ∀ entry, live now db.store key = some entry → entry.Sound member := by
    intro entry hlive
    exact hsound.of_live hlive
  rw [execute_spop_store, logEntry_spop, spop_eq, hnow]
  by_cases hpopped : ∃ popped,
      (KeyOp.removeOp none (Db.spopOn (env.order (.value key))) (live now db.store key)).2
        = .ok (some popped)
  . rcases hpopped with ⟨popped, hmember⟩
    rcases removeOp_spopOn_some hmember with ⟨heffect, -⟩
    simp only [hmember]
    rw [dispatch_of_parse_ok (parse_srem key popped), logOptional_store, execute_srem_store,
      hnow', heffect, ← h key]
    exact h.put key _
  . have hnone : ∀ popped,
        (KeyOp.removeOp none (Db.spopOn (env.order (.value key))) (live now db.store key)).2
          ≠ .ok (some popped) := fun popped heq => hpopped ⟨popped, heq⟩
    have hunchanged := removeOp_spopOn_none (env.order_perm _) hentry hnone
    split
    . next hlog =>
      split at hlog
      . next popped hmember => exact absurd hmember (hnone popped)
      . cases hlog
    . intro other
      rw [hunchanged, ← h other]
      exact LiveMap.live_atKey_of_unchanged (f := fun found => (found, ())) rfl

/--
What a command logs: an entry that has the same effect, or nothing if it changed no live entry.
-/
theorem logEntry_simulation {member : String → Prop} (hparse : Command.parse tokens = .ok command)
    (hnow : env.now = now) (hnow' : env'.now = now)
    (hsound : LiveMap.All (Entry.Sound member) db.store) (h : Store.Alike now db.store db'.store)
    : match logEntry env command tokens db with
      | some entry =>
        Store.Alike now (execute env command db).1.store (dispatch env' entry db').1.store
      | none => Store.Alike now (execute env command db).1.store db'.store := by
  by_cases hpop : ∃ key, command = .sPop key
  . rcases hpop with ⟨key, rfl⟩
    exact logEntry_spop_simulation hnow hnow' hsound h
  . have hnot : ∀ key, command ≠ .sPop key := fun key heq => hpop ⟨key, heq⟩
    rw [logEntry_of_not_spop hnot]
    cases hwrite : command.isWrite with
    | false =>
      have hread : command.mutates = false := by
        cases command
        case sPop key => exact absurd rfl (hnot key)
        all_goals exact hwrite
      intro key
      rw [← h key, ← hnow]
      exact live_execute_of_read hread key
    | true =>
      cases hfail : Reply.isError (execute env command db).2 with
      | true =>
        intro key
        rw [← h key, ← hnow]
        exact live_execute_of_fail (Command.parse_wellFormed hparse) hfail key
      | false =>
        simp only [Bool.not_false, Bool.and_true, if_true]
        rw [dispatch_of_parse_ok hparse, logOptional_store]
        exact execute_alike_of_isWrite hwrite hnow hnow' h

/-
The reader accepts what is logged for a request that it accepts.
-/

theorem fits_of_spop (hsound : LiveMap.All (Entry.Sound Fits) db.store) {popped : String}
    (h : (Db.spop env key db.store).2 = .ok (some popped))
    : Fits popped := by
  rw [spop_eq] at h
  rcases removeOp_spopOn_some h with ⟨-, entry, set, hlive, hset, hpick⟩
  have hmem : popped ∈ set.set := by
    rw [← Std.ExtTreeSet.mem_toList, ← (env.order_perm _ _).mem_iff]
    exact List.mem_of_mem_head? hpick
  have hvalue := hsound.of_live hlive
  unfold Entry.Sound at hvalue
  rw [hset] at hvalue
  exact hvalue.2 popped hmem

theorem readable_of_logEntry (hparse : Command.parse tokens = .ok command)
    (htokens : Readable tokens) (hsound : LiveMap.All (Entry.Sound Fits) db.store)
    {entry : List String} (h : logEntry env command tokens db = some entry)
    : Readable entry := by
  by_cases hpop : ∃ key, command = .sPop key
  . rcases hpop with ⟨key, rfl⟩
    have hkey : Fits key := htokens.bytes key (Command.parse_wellFormed hparse)
    rw [logEntry_spop] at h
    split at h
    . next popped hpopped =>
      cases h
      refine ⟨by unfold maxMultibulk; simp, ?_⟩
      intro token hmem
      simp only [List.mem_cons, List.not_mem_nil, or_false] at hmem
      rcases hmem with rfl | rfl | rfl
      . unfold maxBulkBytes
        decide
      . exact hkey
      . exact fits_of_spop hsound hpopped
    . cases h
  . have hnot : ∀ key, command ≠ .sPop key := fun key heq => hpop ⟨key, heq⟩
    rw [logEntry_of_not_spop hnot] at h
    split at h
    . cases h
      exact htokens
    . cases h

end RedisClone
