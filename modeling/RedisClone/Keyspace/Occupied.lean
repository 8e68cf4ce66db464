import RedisClone.Keyspace.Restore

/-!
This module contains the proof that no key ever holds an empty collection, and what that means for a
key whose last element is removed.
-/

namespace RedisClone

open Store

/--
A value that is a string or a collection with at least one element.
-/
def Value.Occupied : Value → Prop
  | .str _ => True
  | .list inner => inner.isEmpty = false
  | .set inner => inner.isEmpty = false
  | .sortedSet zset => zset.isEmpty = false
  | .hash inner => inner.isEmpty = false

def Entry.Occupied (entry : Entry) : Prop := entry.value.Occupied

theorem Entry.Occupied.withDeadline {entry : Entry} (h : entry.Occupied)
    (expiresAt : Option Instant)
    : Entry.Occupied { entry with expiresAt } := h

/-
Adding an element leaves a collection with at least one.
-/

theorem RList.isEmpty_lpush (list : RList) (value : String)
    : (list.lpush value).isEmpty = false := by
  rfl

theorem RList.isEmpty_rpush (list : RList) (value : String)
    : (list.rpush value).isEmpty = false := by
  simp [isEmpty, rpush]

theorem RList.isEmpty_lset {list : RList} (h : list.isEmpty = false) (index : Int64)
    (value : String)
    : (list.lset index value).1.isEmpty = false := by
  unfold lset
  split
  . unfold isEmpty at *
    rw [List.isEmpty_eq_false_iff] at *
    intro hnil
    apply h
    rw [← List.length_eq_zero_iff] at *
    rwa [List.length_set] at hnil
  . exact h

theorem RSet.isEmpty_sadd (set : RSet) (value : String)
    : (set.sadd value).1.isEmpty = false := by
  exact isEmpty_eq_false (Db.mem_sadd.mpr (.inl rfl))

theorem RSortedSet.isEmpty_zadd (zset : RSortedSet) (score : Float) (member : String)
    : (zset.zadd score member).1.isEmpty = false := by
  unfold zadd
  split
  . next old hold =>
    split
    . unfold isEmpty
      rw [Std.ExtTreeMap.isEmpty_eq_false_iff]
      intro hempty
      rw [hempty] at hold
      simp at hold
    . exact Std.ExtTreeMap.isEmpty_eq_false_iff.mpr Std.ExtTreeMap.insert_ne_empty
  . exact Std.ExtTreeMap.isEmpty_eq_false_iff.mpr Std.ExtTreeMap.insert_ne_empty

theorem RHash.isEmpty_hset (hash : RHash) (field value : String)
    : (hash.hset field value).1.isEmpty = false := by
  exact Std.ExtTreeMap.isEmpty_eq_false_iff.mpr Std.ExtTreeMap.insert_ne_empty

namespace Db

/--
What every step of a loop establishes holds after at least one step.
-/
theorem foldl_of_step {motive : σ → Prop} {step : σ → α → σ}
    (hstep : ∀ state item, motive (step state item)) {items : List α} (hne : items ≠ [])
    (state : σ)
    : motive (items.foldl step state) := by
  cases items with
  | nil => exact absurd rfl hne
  | cons item items =>
    rw [List.foldl_cons]
    have hfirst := hstep state item
    generalize step state item = first at hfirst
    clear hne
    induction items generalizing first with
    | nil => exact hfirst
    | cons item items ih => exact ih _ (hstep first item)

variable {value value' : Value}

theorem occupied_pushOn {push : RList → String → RList}
    (hpush : ∀ list item, (push list item).isEmpty = false) {values : List String} {len : Nat}
    (hne : values ≠ []) (h : pushOn push values value = .ok (value', len)) : value'.Occupied := by
  simp only [pushOn, map_eq_ok] at h
  rcases h with ⟨list, -, h⟩
  cases h
  exact foldl_of_step (motive := fun list : RList => list.isEmpty = false) hpush hne list

theorem occupied_saddOn {values : List String} {added : Nat} (hne : values ≠ [])
    (h : saddOn values value = .ok (value', added)) : value'.Occupied := by
  simp only [saddOn, map_eq_ok] at h
  rcases h with ⟨set, -, h⟩
  cases h
  simp only [Value.Occupied]
  rw [countChanges_fst]
  exact foldl_of_step (motive := fun set : RSet => set.isEmpty = false) RSet.isEmpty_sadd hne set

theorem occupied_zaddOn {members : List (Float × String)} {added : Nat} (hne : members ≠ [])
    (h : zaddOn members value = .ok (value', added)) : value'.Occupied := by
  simp only [zaddOn, map_eq_ok] at h
  rcases h with ⟨zset, -, h⟩
  cases h
  simp only [Value.Occupied]
  rw [countChanges_fst]
  refine foldl_of_step (motive := fun zset : RSortedSet => zset.isEmpty = false) ?_ hne zset
  intro zset pair
  exact zset.isEmpty_zadd pair.1 pair.2

theorem occupied_zincrOn {increment score : Float} {member : String}
    (h : zincrOn increment member value = .ok (value', score)) : value'.Occupied := by
  simp only [zincrOn, bind_eq_ok'] at h
  rcases h with ⟨zset, -, h⟩
  split at h
  . cases h
  . cases h
    exact zset.isEmpty_zadd _ member

theorem occupied_hsetOn {field text : String} {isNew : Bool}
    (h : hsetOn field text value = .ok (value', isNew)) : value'.Occupied := by
  simp only [hsetOn, map_eq_ok] at h
  rcases h with ⟨hash, -, h⟩
  cases h
  exact hash.isEmpty_hset field text

theorem occupied_hincrOn {field : String} {delta next : Int64}
    (h : hincrOn field delta value = .ok (value', next)) : value'.Occupied := by
  simp only [hincrOn, bind_eq_ok'] at h
  rcases h with ⟨hash, -, current, -, h⟩
  split at h
  . cases h
    exact hash.isEmpty_hset field _
  . cases h

end Db

/--
A parsed command leaves no empty collection at its key: the commands that create a collection add to
it without failing, and the commands that remove elements drop what becomes empty.
-/
theorem keyOp_occupied {env : Env} {command : Command} {tokens : List String} {key : String}
    {op : KeyOp String} (hparse : command.WellFormed tokens)
    (h : command.keyOp env = some (key, op))
    : op.Preserves Entry.Occupied := by
  cases hread : command.mutates with
  | false =>
    intro found hfound entry hentry
    rw [Command.keyOp_read h hread] at hentry
    exact hfound entry hentry
  | true =>
    cases command
    all_goals simp only [Command.mutates, Command.isWrite, Bool.false_eq_true] at hread
    all_goals simp only [Command.keyOp, Option.some.injEq, Prod.mk.injEq, reduceCtorEq] at h
    all_goals rcases h with ⟨rfl, rfl⟩
    case set => exact KeyOp.preserves_overwriteOp trivial
    case setNx => exact (KeyOp.preserves_setnxOp trivial).reply _
    case getSet => exact (KeyOp.preserves_getsetOp trivial).reply _
    case expire => exact (KeyOp.preserves_expireOp fun _ h => h.withDeadline _).reply _
    case persist => exact (KeyOp.preserves_persistOp fun _ h => h.withDeadline _).reply _
    case lSet index value =>
      refine (KeyOp.preserves_lsetOp ?_).reply _
      rintro ⟨-, expiresAt⟩ list hentry rfl
      exact RList.isEmpty_lset hentry index value
    case lPop | rPop =>
      refine (KeyOp.preserves_removeOp ?_).reply _
      intro entry value result _ h
      simp only [Db.popOn, map_eq_ok, Prod.mk.injEq] at h
      rcases h with ⟨_, -, rfl, -, hempty⟩
      exact hempty
    case hDel =>
      refine (KeyOp.preserves_removeOp ?_).reply _
      intro entry value result _ h
      simp only [Db.hdelOn, map_eq_ok, Prod.mk.injEq] at h
      rcases h with ⟨_, -, rfl, -, hempty⟩
      exact hempty
    case sRem =>
      refine (KeyOp.preserves_removeOp ?_).reply _
      intro entry value result _ h
      simp only [Db.sremOn, map_eq_ok, Prod.mk.injEq] at h
      rcases h with ⟨_, -, rfl, -, hempty⟩
      exact hempty
    case sPop =>
      refine (KeyOp.preserves_removeOp ?_).reply _
      intro entry value result _ h
      simp only [Db.spopOn, map_eq_ok, Prod.mk.injEq] at h
      rcases h with ⟨_, -, rfl, -, hempty⟩
      exact hempty
    case zRem =>
      refine (KeyOp.preserves_removeOp ?_).reply _
      intro entry value result _ h
      simp only [Db.zremOn, map_eq_ok, Prod.mk.injEq] at h
      rcases h with ⟨_, -, rfl, -, hempty⟩
      exact hempty
    case incrBy =>
      refine (KeyOp.preserves_updateOp trivial ?_).reply _
      intro entry value result _ h
      simp only [Db.incrOn, bind_eq_ok'] at h
      rcases h with ⟨text, -, h⟩
      split at h
      . cases h
      . split at h
        . cases h
        . cases h
          exact trivial
    case append =>
      refine (KeyOp.preserves_updateOp trivial ?_).reply _
      intro entry value result _ h
      simp only [Db.appendOn, map_eq_ok] at h
      rcases h with ⟨list, -, h⟩
      cases h
      exact trivial
    case lPush =>
      refine (KeyOp.preserves_updateOp_of_create ⟨_, rfl⟩ ?_ ?_).reply _
      . intro value result h
        exact Db.occupied_pushOn RList.isEmpty_lpush hparse h
      . intro entry value result _ h
        exact Db.occupied_pushOn RList.isEmpty_lpush hparse h
    case rPush =>
      refine (KeyOp.preserves_updateOp_of_create ⟨_, rfl⟩ ?_ ?_).reply _
      . intro value result h
        exact Db.occupied_pushOn RList.isEmpty_rpush hparse h
      . intro entry value result _ h
        exact Db.occupied_pushOn RList.isEmpty_rpush hparse h
    case sAdd =>
      refine (KeyOp.preserves_updateOp_of_create ⟨_, rfl⟩ ?_ ?_).reply _
      . intro value result h
        exact Db.occupied_saddOn hparse.1 h
      . intro entry value result _ h
        exact Db.occupied_saddOn hparse.1 h
    case zAdd =>
      refine (KeyOp.preserves_updateOp_of_create ⟨_, rfl⟩ ?_ ?_).reply _
      . intro value result h
        exact Db.occupied_zaddOn hparse.1 h
      . intro entry value result _ h
        exact Db.occupied_zaddOn hparse.1 h
    case hSet =>
      refine (KeyOp.preserves_updateOp_of_create ⟨_, rfl⟩ ?_ ?_).reply _
      . intro value result h
        exact Db.occupied_hsetOn h
      . intro entry value result _ h
        exact Db.occupied_hsetOn h
    case hIncrBy field delta =>
      refine (KeyOp.preserves_updateOp_of_create (Command.hincrOn_fresh field delta) ?_ ?_).reply _
      . intro value result h
        exact Db.occupied_hincrOn h
      . intro entry value result _ h
        exact Db.occupied_hincrOn h
    case zIncrBy increment member =>
      refine (KeyOp.preserves_updateOp_of_create (Command.zincrOn_fresh hparse member) ?_ ?_).reply _
      . intro value result h
        exact Db.occupied_zincrOn h
      . intro entry value result _ h
        exact Db.occupied_zincrOn h

theorem dispatch_occupied {db : Database} (h : LiveMap.All Entry.Occupied db.store) (env : Env)
    (tokens : List String)
    : LiveMap.All Entry.Occupied (dispatch env tokens db).1.store := by
  apply dispatch_all _ (fun _ => trivial) h
  intro command key op hparse hkey
  exact keyOp_occupied hparse hkey

/-
A snapshot lists the elements of a collection, and loading adds them one by one.
-/

namespace Db

variable {order : List String → List String}

theorem order_ne_nil (hperm : ∀ keys, (order keys).Perm keys) {keys : List String}
    (h : keys ≠ [])
    : order keys ≠ [] := by
  intro hnil
  apply h
  rw [← List.perm_nil, ← hnil]
  exact (hperm keys).symm

theorem deserialize_occupied (hperm : ∀ keys, (order keys).Perm keys) {value : Value}
    (halloc : value.Allocatable) (h : value.Occupied)
    : (deserialize (serialize order value)).Occupied := by
  cases value with
  | str text => exact trivial
  | list inner =>
    have hne : inner.lrange 0 (-1) ≠ [] := by
      unfold RList.lrange
      rw [selectRange_all halloc]
      exact List.isEmpty_eq_false_iff.mp h
    exact foldl_of_step (motive := fun list : RList => list.isEmpty = false) RList.isEmpty_rpush hne _
  | set inner =>
    have hne : inner.smembers order ≠ [] := by
      apply order_ne_nil hperm
      intro hnil
      rw [← List.isEmpty_iff, Std.ExtTreeSet.isEmpty_toList] at hnil
      rw [show inner.set.isEmpty = false from h] at hnil
      cases hnil
    exact foldl_of_step (motive := fun set : RSet => set.isEmpty = false) RSet.isEmpty_sadd hne _
  | hash inner =>
    have hne : inner.hgetall order ≠ [] := by
      intro hnil
      have hempty : inner.map = ∅ := by
        apply Std.ExtTreeMap.ext_getElem?
        intro field
        apply Option.ext
        intro text
        rw [← mem_hgetall hperm, hnil]
        simp
      exact Std.ExtTreeMap.isEmpty_eq_false_iff.mp h hempty
    refine foldl_of_step (motive := fun hash : RHash => hash.isEmpty = false) ?_ hne _
    intro hash pair
    exact hash.isEmpty_hset pair.1 pair.2
  | sortedSet zset =>
    have hne : (zset.zrangeWithScores 0 (-1)).map (fun pair => (pair.1, displayF64 pair.2))
        ≠ [] := by
      rw [zrangeWithScores_all halloc, List.map_map]
      intro hnil
      have hlength : zset.sorted.toList.length = 0 := by
        rw [List.map_eq_nil_iff] at hnil
        rw [hnil, List.length_nil]
      rw [zset.length_toList] at hlength
      have hempty : zset.isEmpty = (zset.members.size == 0) := Std.ExtTreeMap.isEmpty_eq_size_beq_zero
      rw [show zset.members.size = 0 from hlength, show zset.isEmpty = false from h] at hempty
      cases hempty
    refine foldl_of_step (motive := fun zset : RSortedSet => zset.isEmpty = false) ?_ hne _
    intro zset pair
    exact zset.isEmpty_zadd _ pair.1

theorem loadSnapshot_occupied {env : Env} {store : Store} (now : Instant)
    (halloc : LiveMap.All (fun entry => entry.value.Allocatable) store)
    (h : LiveMap.All Entry.Occupied store) (old : Store)
    : LiveMap.All Entry.Occupied (loadSnapshot now (snapshot env store) old) := by
  intro key entry hentry
  rw [getElem?_loadSnapshot, Option.map_eq_some_iff] at hentry
  rcases hentry with ⟨live, hlive, rfl⟩
  exact deserialize_occupied (env.order_perm _) (halloc.of_live hlive) (h.of_live hlive)

theorem sweepExpired_eq (now : Instant) (store : Store)
    : (sweepExpired now store).1 = LiveMap.purge (Entry.isLive now) store := by
  rfl

end Db

/--
The keyspaces that requests, sweeps and loads of snapshots lead to. A snapshot may come from any
other such keyspace; its collections have a size that fits in memory.
-/
inductive ReachableKeyspace : Store → Prop where
  | empty : ReachableKeyspace ∅
  | dispatch {db : Database} (env : Env) (tokens : List String)
    : ReachableKeyspace db.store → ReachableKeyspace (dispatch env tokens db).1.store
  | sweep {store : Store} (now : Instant)
    : ReachableKeyspace store → ReachableKeyspace (Db.sweepExpired now store).1
  | load {store source : Store} (now : Instant) (env : Env)
    : ReachableKeyspace store → ReachableKeyspace source
        → LiveMap.All (fun entry => entry.value.Allocatable) source
        → ReachableKeyspace (Db.loadSnapshot now (Db.snapshot env source) store)

theorem occupied_of_reachable {store : Store} (h : ReachableKeyspace store)
    : LiveMap.All Entry.Occupied store := by
  induction h with
  | empty => exact LiveMap.all_empty
  | dispatch env tokens _ ih => exact dispatch_occupied ih env tokens
  | sweep now _ ih =>
    rw [Db.sweepExpired_eq]
    exact ih.purge
  | load now env _ _ halloc _ ih => exact Db.loadSnapshot_occupied now halloc ih _

/-
Removing the last element.
-/

/--
The key of a command that removes elements, and what it leaves of the collection there.
-/
def Command.remainder (env : Env) : Command → Option (String × (Value → Except StoreError Value))
  | .lPop key => some (key, fun value => value.asList.map fun list => .list list.lpop.1)
  | .rPop key => some (key, fun value => value.asList.map fun list => .list list.rpop.1)
  | .sRem key values =>
    some (key, fun value => value.asSet.map fun set => .set (Db.countChanges RSet.srem values set).1)
  | .sPop key =>
    some (key, fun value => value.asSet.map fun set => .set (set.spop (env.order (.value key))).1)
  | .zRem key member =>
    some (key, fun value => value.asSortedSet.map fun zset => .sortedSet (zset.zrem member).1)
  | .hDel key field =>
    some (key, fun value => value.asHash.map fun hash => .hash (hash.hdel field).1)
  | _ => none

theorem exists_of_absent {env : Env} {key : String} {db : Database} (h : db.store[key]? = none)
    : (execute env (.existsKeys [key]) db).2 = Resp.integer 0 := by
  simp only [execute, Db.existsCount, List.filter_cons, live_of_absent h]
  rfl

/--
A key is dropped if nothing is left of its collection.
-/
theorem keyOp_of_remainder {env : Env} {command : Command} {key : String}
    {take : Value → Except StoreError Value} (hkey : command.remainder env = some (key, take))
    {entry : Entry} {left : Value} (htake : take entry.value = .ok left) (hleft : ¬ left.Occupied)
    : ∃ op, command.keyOp env = some (key, op) ∧ (op (some entry)).1 = none := by
  cases command
  all_goals simp only [Command.remainder, Option.some.injEq, Prod.mk.injEq, reduceCtorEq] at hkey
  all_goals
    rcases hkey with ⟨rfl, rfl⟩
    rw [map_eq_ok] at htake
    rcases htake with ⟨inner, hinner, rfl⟩
    simp only [Value.Occupied, Bool.not_eq_false] at hleft
    refine ⟨_, rfl, ?_⟩
    simp [KeyOp.reply, KeyOp.removeOp, Db.popOn, Db.sremOn, Db.spopOn, Db.zremOn, Db.hdelOn, hinner,
      hleft, Except.map]

theorem execute_of_absent {env : Env} {command : Command} {key : String} {op : KeyOp String}
    (hkey : command.keyOp env = some (key, op)) {db : Database} (habsent : db.store[key]? = none)
    : (execute env command db).2 = (execute env command (.new env.now)).2
        ∧
      (execute env command db).1.store[key]? = (execute env command (.new env.now)).1.store[key]?
    := by
  have hempty : (Database.new env.now).store[key]? = none := by
    simp [Database.new, Database.withPersistence]
  rw [execute_eq_keyOp hkey, execute_eq_keyOp hkey]
  simp only [Database.run, atKey_eq, live_of_absent habsent, live_of_absent hempty, id_eq, true_and]
  rw [LiveMap.getElem?_put_self, LiveMap.getElem?_put_self]

theorem getElem?_of_remainder {env : Env} {command : Command} {key : String}
    {take : Value → Except StoreError Value} (hkey : command.remainder env = some (key, take))
    {db : Database} {entry : Entry} (hlive : live env.now db.store key = some entry) {left : Value}
    (htake : take entry.value = .ok left) (hleft : ¬ left.Occupied)
    : (execute env command db).1.store[key]? = none := by
  rcases keyOp_of_remainder hkey htake hleft with ⟨op, hop, hnone⟩
  rw [execute_eq_keyOp hop]
  simp only [Database.run, atKey_eq, hlive, hnone]
  exact LiveMap.getElem?_put_self none

/--
Every stored collection has at least one element, whatever led to the keyspace. A key whose last
element is removed does not exist any more: it is reported as missing and has no type, and every
command on it finds what it would find in an empty database, whatever type it goes on to create.
-/
theorem no_empty_collection {db : Database} (h : ReachableKeyspace db.store)
    : (∀ (key : String) (entry : Entry), db.store[key]? = some entry → entry.value.Occupied)
        ∧
      ∀ env command key take entry left, command.remainder env = some (key, take)
        → live env.now db.store key = some entry → take entry.value = .ok left → ¬ left.Occupied
        → ∀ env' : Env,
          (execute env' (.existsKeys [key]) (execute env command db).1).2 = Resp.integer 0
            ∧
          (execute env' (.type key) (execute env command db).1).2 = Resp.simpleString "none"
            ∧
          ∀ command' op, command'.keyOp env' = some (key, op) →
            (execute env' command' (execute env command db).1).2
                = (execute env' command' (.new env'.now)).2
              ∧
            (execute env' command' (execute env command db).1).1.store[key]?
              = (execute env' command' (.new env'.now)).1.store[key]? := by
  constructor
  . intro key entry hentry
    exact occupied_of_reachable h key entry hentry
  . intro env command key take entry left hkey hlive htake hleft env'
    have habsent := getElem?_of_remainder hkey hlive htake hleft
    refine ⟨?_, ?_, ?_⟩
    . exact exists_of_absent habsent
    . have hreply := @execute_of_absent env' (.type key) key _ rfl _ habsent
      rw [hreply.1]
      simp [execute, Database.run, Database.new, Database.withPersistence, Db.typeOf, readEntry]
    . intro command' op hop
      exact execute_of_absent hop habsent

/--
A list with one element, which is popped.
-/
theorem no_empty_collection_lpop
    : let env := envAt startOfClock
      let db := (dispatch env ["RPUSH", "k", "v"] (.new env.now)).1
      (execute env (.existsKeys ["k"]) (execute env (.lPop "k") db).1).2 = Resp.integer 0 := by
  intro env db
  have hreachable : ReachableKeyspace db.store := by
    exact .dispatch env _ .empty
  have hlive : live env.now db.store "k" = some ⟨.list ⟨["v"]⟩, none⟩ := by
    have hstore : db.store = (execute env (.rPush "k" ["v"]) (.new env.now)).1.store := by
      simp only [db]
      rw [dispatch_of_parse_ok rfl, logOptional_store]
    rw [hstore, execute_eq_keyOp rfl]
    simp [Database.run, atKey_eq, live, Database.new, Database.withPersistence,
      LiveMap.live, KeyOp.reply, KeyOp.updateOp, Db.pushOn, Value.asList, RList.rpush, RList.new,
      Except.map, Entry.isLive, Entry.isExpired]
  exact ((no_empty_collection hreachable).2 env (.lPop "k") "k" _ _ (.list ⟨[]⟩) rfl hlive rfl
    (by simp [Value.Occupied, RList.isEmpty]) env).1

end RedisClone
