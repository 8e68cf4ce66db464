import RedisClone.Keyspace.Invariant

/-!
This module contains the invariants of the values in the keyspace: no score is NaN, the members of
sets come from requests, and no entry has a deadline as long as no command sets one.
-/

namespace RedisClone

/--
A value whose sets are not empty, with members that meet a condition, and whose scores are numbers.
-/
def Value.Sound (member : String → Prop) : Value → Prop
  | .set inner => inner.isEmpty = false ∧ ∀ value, value ∈ inner.set → member value
  | .sortedSet zset => ∀ (value : String) (score : Float),
    zset.members[value]? = some score → score.isNaN = false
  | _ => True

def Entry.Sound (member : String → Prop) (entry : Entry) : Prop := entry.value.Sound member

theorem Entry.Sound.withDeadline {member : String → Prop} {entry : Entry}
    (h : entry.Sound member) (expiresAt : Option Instant)
    : Entry.Sound member { entry with expiresAt } := h

/--
An entry without a deadline.
-/
def Entry.Permanent (entry : Entry) : Prop := entry.expiresAt = none

theorem RSet.isEmpty_eq_false {set : RSet} {value : String} (h : value ∈ set.set)
    : set.isEmpty = false := by
  unfold isEmpty
  rw [Std.ExtTreeSet.isEmpty_eq_false_iff]
  intro hempty
  rw [hempty] at h
  simp at h

namespace Db

theorem countChanges_fst (change : σ → α → σ × Bool) (items : List α) (state : σ)
    : (countChanges change items state).1
        =
      items.foldl (fun state item => (change state item).1) state := by
  unfold countChanges
  generalize 0 = count
  induction items generalizing state count with
  | nil => rfl
  | cons item items ih => exact ih _ _

theorem countChanges_induction {motive : σ → Prop} {change : σ → α → σ × Bool} {items : List α}
    {state : σ} (hstate : motive state)
    (hchange : ∀ item ∈ items, ∀ state, motive state → motive (change state item).1)
    : motive (countChanges change items state).1 := by
  rw [countChanges_fst]
  induction items generalizing state with
  | nil => exact hstate
  | cons item items ih =>
    apply ih
    . exact hchange item List.mem_cons_self state hstate
    . intro other hmem
      exact hchange other (List.mem_cons_of_mem _ hmem)

variable {member : String → Prop} {value value' : Value}

theorem mem_sadd {set : RSet} {item other : String}
    : other ∈ (set.sadd item).1.set ↔ other = item ∨ other ∈ set.set := by
  simp only [RSet.sadd, Std.ExtTreeSet.mem_insert, Std.LawfulEqCmp.compare_eq_iff_eq]
  rw [eq_comm]

theorem mem_saddAll {values : List String} {set : RSet} {other : String}
    : other ∈ (countChanges RSet.sadd values set).1.set ↔ other ∈ values ∨ other ∈ set.set := by
  rw [countChanges_fst]
  induction values generalizing set with
  | nil => simp
  | cons item values ih =>
    rw [List.foldl_cons, ih, mem_sadd, List.mem_cons, or_left_comm, or_assoc]

theorem sound_saddOn {values : List String} {added : Nat} (hne : values ≠ [])
    (hvalues : ∀ item ∈ values, member item)
    (hvalue : ∀ set : RSet, value = .set set → ∀ item, item ∈ set.set → member item)
    (h : saddOn values value = .ok (value', added)) : value'.Sound member := by
  simp only [saddOn, map_eq_ok, Value.asSet_eq_ok] at h
  rcases h with ⟨set, hset, h⟩
  cases h
  constructor
  . rcases List.exists_mem_of_ne_nil _ hne with ⟨item, hitem⟩
    exact RSet.isEmpty_eq_false (mem_saddAll.mpr (.inl hitem))
  . intro other hother
    rcases mem_saddAll.mp hother with hother | hother
    . exact hvalues other hother
    . exact hvalue set hset other hother

theorem mem_of_mem_erase {set : RSet} {item other : String} (h : other ∈ set.set.erase item)
    : other ∈ set.set := by
  rw [Std.ExtTreeSet.mem_erase] at h
  exact h.2

theorem sound_sremOn {values : List String} {result : Nat} (hvalue : value.Sound member)
    (h : sremOn values value = .ok (value', result, false)) : value'.Sound member := by
  simp only [sremOn, map_eq_ok, Value.asSet_eq_ok] at h
  rcases h with ⟨set, rfl, h⟩
  simp only [Prod.mk.injEq] at h
  rcases h with ⟨rfl, -, hempty⟩
  refine ⟨hempty, ?_⟩
  refine countChanges_induction (motive := fun set : RSet => ∀ value, value ∈ set.set → member value)
    hvalue.2 ?_
  intro item hmem set hset other hother
  exact hset other (mem_of_mem_erase hother)

theorem sound_spopOn {order : List String → List String} {result : Option String}
    (hvalue : value.Sound member) (h : spopOn order value = .ok (value', result, false))
    : value'.Sound member := by
  simp only [spopOn, map_eq_ok, Value.asSet_eq_ok] at h
  rcases h with ⟨set, rfl, h⟩
  simp only [Prod.mk.injEq] at h
  rcases h with ⟨rfl, -, hempty⟩
  refine ⟨hempty, ?_⟩
  unfold RSet.spop
  split
  . intro other hother
    exact hvalue.2 other (mem_of_mem_erase hother)
  . exact hvalue.2

theorem sound_zadd {zset : RSortedSet} {score : Float} {item : String}
    (hzset : Value.Sound member (.sortedSet zset)) (hscore : score.isNaN = false)
    : Value.Sound member (.sortedSet (zset.zadd score item).1) := by
  intro other found hfound
  have hinsert : (zset.members.insert item score)[other]? = some found → found.isNaN = false := by
    rw [Std.ExtTreeMap.getElem?_insert]
    split
    . rintro ⟨⟩
      exact hscore
    . exact hzset other found
  unfold RSortedSet.zadd at hfound
  split at hfound
  . split at hfound
    . exact hzset other found hfound
    . exact hinsert hfound
  . exact hinsert hfound

theorem sound_zrem {zset : RSortedSet} (hzset : Value.Sound member (.sortedSet zset))
    (item : String) : Value.Sound member (.sortedSet (zset.zrem item).1) := by
  intro other found hfound
  unfold RSortedSet.zrem at hfound
  split at hfound
  . rw [Std.ExtTreeMap.getElem?_erase] at hfound
    split at hfound
    . cases hfound
    . exact hzset other found hfound
  . exact hzset other found hfound

theorem sound_zaddOn {members : List (Float × String)} {added : Nat}
    (hvalue : value.Sound member) (hmembers : ∀ pair ∈ members, pair.1.isNaN = false)
    (h : zaddOn members value = .ok (value', added)) : value'.Sound member := by
  simp only [zaddOn, map_eq_ok, Value.asSortedSet_eq_ok] at h
  rcases h with ⟨zset, rfl, h⟩
  cases h
  refine countChanges_induction (motive := fun zset => Value.Sound member (.sortedSet zset)) hvalue ?_
  intro pair hmem zset hzset
  exact sound_zadd hzset (hmembers pair hmem)

theorem sound_zremOn {item : String} {result : Bool × Bool} (hvalue : value.Sound member)
    (h : zremOn item value = .ok (value', result)) : value'.Sound member := by
  simp only [zremOn, map_eq_ok, Value.asSortedSet_eq_ok] at h
  rcases h with ⟨zset, rfl, h⟩
  cases h
  exact sound_zrem hvalue item

theorem sound_zincrOn {increment score : Float} {item : String} (hvalue : value.Sound member)
    (h : zincrOn increment item value = .ok (value', score)) : value'.Sound member := by
  simp only [zincrOn, bind_eq_ok', Value.asSortedSet_eq_ok] at h
  rcases h with ⟨zset, rfl, h⟩
  split at h
  . cases h
  . next hnan =>
    cases h
    exact sound_zadd hvalue (by simpa using hnan)

end Db

variable {member : String → Prop} {env : Env} {command : Command} {tokens : List String}
  {key : String} {op : KeyOp String}

theorem keyOp_sound (hparse : command.WellFormed tokens) (htokens : ∀ token ∈ tokens, member token)
    (h : command.keyOp env = some (key, op)) : op.Preserves (Entry.Sound member) := by
  cases hread : command.mutates with
  | false =>
    intro found hfound entry hentry
    rw [Command.keyOp_read h hread] at hentry
    exact hfound entry hentry
  | true =>
    cases command
    all_goals simp only [Command.mutates, Command.isWrite, Bool.false_eq_true] at hread
    all_goals simp only [Command.keyOp, Option.some.injEq, Prod.mk.injEq, reduceCtorEq] at h
    all_goals rcases h with ⟨rfl, rfl⟩
    case set => exact KeyOp.preserves_overwriteOp trivial
    case setNx => exact (KeyOp.preserves_setnxOp trivial).reply _
    case getSet => exact (KeyOp.preserves_getsetOp trivial).reply _
    case lSet => exact (KeyOp.preserves_lsetOp fun _ _ _ _ => trivial).reply _
    case expire => exact (KeyOp.preserves_expireOp fun _ h => h.withDeadline _).reply _
    case persist => exact (KeyOp.preserves_persistOp fun _ h => h.withDeadline _).reply _
    case lPop | rPop =>
      refine (KeyOp.preserves_removeOp ?_).reply _
      intro entry value result _ h
      simp only [Db.popOn, map_eq_ok, Prod.mk.injEq] at h
      rcases h with ⟨_, -, rfl, -⟩
      exact trivial
    case hDel =>
      refine (KeyOp.preserves_removeOp ?_).reply _
      intro entry value result _ h
      simp only [Db.hdelOn, map_eq_ok, Prod.mk.injEq] at h
      rcases h with ⟨_, -, rfl, -⟩
      exact trivial
    case sRem =>
      refine (KeyOp.preserves_removeOp ?_).reply _
      intro entry value result hentry h
      exact Db.sound_sremOn hentry h
    case sPop =>
      refine (KeyOp.preserves_removeOp ?_).reply _
      intro entry value result hentry h
      exact Db.sound_spopOn hentry h
    case zRem =>
      refine (KeyOp.preserves_removeOp ?_).reply _
      intro entry value result hentry h
      exact Db.sound_zremOn hentry h
    case lPush | rPush =>
      refine (KeyOp.preserves_updateOp trivial ?_).reply _
      intro entry value result _ h
      simp only [Db.pushOn, map_eq_ok] at h
      rcases h with ⟨list, -, h⟩
      cases h
      exact trivial
    case append =>
      refine (KeyOp.preserves_updateOp trivial ?_).reply _
      intro entry value result _ h
      simp only [Db.appendOn, map_eq_ok] at h
      rcases h with ⟨list, -, h⟩
      cases h
      exact trivial
    case hSet =>
      refine (KeyOp.preserves_updateOp trivial ?_).reply _
      intro entry value result _ h
      simp only [Db.hsetOn, map_eq_ok] at h
      rcases h with ⟨list, -, h⟩
      cases h
      exact trivial
    case incrBy =>
      refine (KeyOp.preserves_updateOp trivial ?_).reply _
      intro entry value result _ h
      simp only [Db.incrOn, bind_eq_ok'] at h
      rcases h with ⟨text, -, h⟩
      split at h
      . cases h
      . split at h
        . cases h
        . cases h
          exact trivial
    case hIncrBy =>
      refine (KeyOp.preserves_updateOp trivial ?_).reply _
      intro entry value result _ h
      simp only [Db.hincrOn, bind_eq_ok'] at h
      rcases h with ⟨hash, -, current, -, h⟩
      split at h
      . cases h
        exact trivial
      . cases h
    case sAdd =>
      have hvalues := fun value hmem => htokens value (hparse.2 value hmem)
      refine (KeyOp.preserves_updateOp_of_create ⟨_, rfl⟩ ?_ ?_).reply _
      . intro value result h
        refine Db.sound_saddOn hparse.1 hvalues ?_ h
        rintro set ⟨⟩ item hitem
        simp [RSet.new] at hitem
      . rintro ⟨old, expiresAt⟩ value result hentry h
        refine Db.sound_saddOn hparse.1 hvalues ?_ h
        rintro set rfl
        exact hentry.2
    case zAdd =>
      refine (KeyOp.preserves_updateOp ?_ ?_).reply _
      . intro value score hscore
        simp [RSortedSet.new] at hscore
      . intro entry value result hentry h
        exact Db.sound_zaddOn hentry hparse.2 h
    case zIncrBy =>
      refine (KeyOp.preserves_updateOp ?_ ?_).reply _
      . intro value score hscore
        simp [RSortedSet.new] at hscore
      . intro entry value result hentry h
        exact Db.sound_zincrOn hentry h

theorem dispatch_store (env : Env) (tokens : List String) (db : Database)
    : (dispatch env tokens db).1.store = db.store
        ∨ ∃ command, Command.parse tokens = .ok command
          ∧ (dispatch env tokens db).1.store = (execute env command db).1.store := by
  rcases command_or_rejected tokens with ⟨command, hparse⟩ | ⟨-, hrejected⟩
  . right
    rw [dispatch_of_parse_ok hparse]
    exact ⟨command, hparse, logOptional_store _⟩
  . left
    rw [hrejected]

/--
A property that parsed commands keep on their keys and that fresh strings have is kept by requests.
-/
theorem dispatch_all {P : Entry → Prop} {db : Database}
    (hop : ∀ command key op, Command.WellFormed tokens command → command.keyOp env = some (key, op)
      → op.Preserves P)
    (hstr : ∀ text, P { value := .str text, expiresAt := none }) (h : LiveMap.All P db.store)
    : LiveMap.All P (dispatch env tokens db).1.store := by
  rcases dispatch_store env tokens db with hstore | ⟨command, hparse, hstore⟩
  . rw [hstore]
    exact h
  . rw [hstore]
    apply execute_all _ hstr h
    intro key op hkey
    exact hop command key op (Command.parse_wellFormed hparse) hkey

theorem dispatch_sound {db : Database} (h : LiveMap.All (Entry.Sound member) db.store)
    (htokens : ∀ token ∈ tokens, member token)
    : LiveMap.All (Entry.Sound member) (dispatch env tokens db).1.store := by
  apply dispatch_all _ (fun _ => trivial) h
  intro command key op hparse hkey
  exact keyOp_sound hparse htokens hkey

/--
The databases that requests lead to.
-/
inductive Reachable : Database → Prop where
  | withPersistence {now : Instant} {snapshotPath : Option String} {aof : Option (List UInt8)}
    : Reachable (.withPersistence now snapshotPath aof)
  | dispatch {db : Database} (env : Env) (tokens : List String)
    : Reachable db → Reachable (dispatch env tokens db).1

theorem sound_of_reachable {db : Database} (h : Reachable db)
    : LiveMap.All (Entry.Sound fun _ => True) db.store := by
  induction h with
  | withPersistence => exact LiveMap.all_empty
  | dispatch env tokens _ ih => exact dispatch_sound ih fun _ _ => trivial

end RedisClone
