import RedisClone.Database.SortedSet
import RedisClone.Keyspace.Sound

/-!
This module contains the proof that loading a snapshot restores the keyspace it was taken from: the
flat form of a value can be rebuilt, and deadlines keep their whole remaining seconds.
-/

namespace RedisClone

open Store

theorem getElem?_insertMany_eq_some_iff {β : Type} {pairs : List (String × β)}
    (hnodup : (pairs.map Prod.fst).Nodup) {key : String} {value : β}
    : ((∅ : Std.ExtTreeMap String β).insertMany pairs)[key]? = some value
        ↔
      (key, value) ∈ pairs := by
  have hdistinct : pairs.Pairwise fun a b => ¬ compare a.1 b.1 = .eq := by
    rw [List.Nodup, List.pairwise_map] at hnodup
    exact hnodup.imp fun hne heq => hne (Std.LawfulEqCmp.compare_eq_iff_eq.mp heq)
  constructor
  . intro h
    by_cases hmem : key ∈ pairs.map Prod.fst
    . rw [List.mem_map] at hmem
      rcases hmem with ⟨pair, hpair, rfl⟩
      rw [Std.ExtTreeMap.getElem?_insertMany_list_of_mem Std.ReflCmp.compare_self hdistinct hpair]
        at h
      cases h
      exact hpair
    . rw [Std.ExtTreeMap.getElem?_insertMany_list_of_contains_eq_false] at h
      . simp at h
      . simpa using hmem
  . intro h
    exact Std.ExtTreeMap.getElem?_insertMany_list_of_mem Std.ReflCmp.compare_self hdistinct h

/--
A value whose number of elements an allocation can have.
-/
def Value.Allocatable : Value → Prop
  | .list inner => inner.list.length < 2 ^ 63
  | .sortedSet zset => zset.sorted.toList.length < 2 ^ 63
  | _ => True

/--
A value whose scores, unless they are NaN, read back from their text.
-/
def Value.Printable : Value → Prop
  | .sortedSet zset => ∀ (member : String) (score : Float),
    zset.members[member]? = some score → score.isNaN = false
      → parseF64 (displayF64 score) = some score
  | _ => True

theorem Value.printable_sortedSet {zset : RSortedSet}
    : Value.Printable (.sortedSet zset)
        ↔
      ∀ pair ∈ zset.members.toList, pair.2.isNaN = false
        → parseF64 (displayF64 pair.2) = some pair.2 := by
  constructor
  . rintro h ⟨member, score⟩ hmem
    exact h member score (Std.ExtTreeMap.mem_toList_iff_getElem?_eq_some.mp hmem)
  . intro h member score hscore
    exact h (member, score) (Std.ExtTreeMap.mem_toList_iff_getElem?_eq_some.mpr hscore)

instance (value : Value) : Decidable value.Allocatable :=
  match value with
  | .list inner => inferInstanceAs (Decidable (inner.list.length < 2 ^ 63))
  | .sortedSet zset => inferInstanceAs (Decidable (zset.sorted.toList.length < 2 ^ 63))
  | .str _ | .set _ | .hash _ => .isTrue trivial

instance (value : Value) : Decidable value.Printable :=
  match value with
  | .sortedSet _ => decidable_of_iff _ Value.printable_sortedSet.symm
  | .list _ | .str _ | .set _ | .hash _ => .isTrue trivial

namespace Db

theorem foldl_rpush (items : List String) (list : RList)
    : items.foldl RList.rpush list = ⟨list.list ++ items⟩ := by
  induction items generalizing list with
  | nil => simp
  | cons item items ih =>
    rw [List.foldl_cons, ih]
    simp [RList.rpush]

theorem foldl_sadd (items : List String) (set : RSet)
    : items.foldl (fun set item => (set.sadd item).1) set = ⟨set.set.insertMany items⟩ := by
  induction items generalizing set with
  | nil => rfl
  | cons item items ih =>
    rw [List.foldl_cons, ih, Std.ExtTreeSet.insertMany_cons]
    rfl

theorem foldl_hset (items : List (String × String)) (hash : RHash)
    : items.foldl (fun hash (field, value) => (hash.hset field value).1) hash
        =
      ⟨hash.map.insertMany items⟩ := by
  induction items generalizing hash with
  | nil => rfl
  | cons item items ih =>
    rw [List.foldl_cons, ih, Std.ExtTreeMap.insertMany_cons]
    rfl

theorem members_zadd_of_absent {zset : RSortedSet} {member : String}
    (h : zset.members[member]? = none) (score : Float)
    : (zset.zadd score member).1.members = zset.members.insert member score := by
  unfold RSortedSet.zadd
  split
  . next old hsome =>
    rw [h] at hsome
    cases hsome
  . rfl

theorem members_foldl_zadd {items : List (String × Float)} {zset : RSortedSet}
    (hnodup : (items.map Prod.fst).Nodup)
    (habsent : ∀ member ∈ items.map Prod.fst, zset.members[member]? = none)
    : (items.foldl (fun zset (member, score) => (zset.zadd score member).1) zset).members
        =
      zset.members.insertMany items := by
  induction items generalizing zset with
  | nil => rfl
  | cons item items ih =>
    rw [List.map_cons, List.nodup_cons] at hnodup
    have hitem := members_zadd_of_absent (habsent item.1 (by simp)) item.2
    rw [List.foldl_cons, ih hnodup.2, hitem, ← Std.ExtTreeMap.insertMany_cons]
    intro member hmem
    rw [hitem, Std.ExtTreeMap.getElem?_insert, if_neg]
    . exact habsent member (List.mem_cons_of_mem _ hmem)
    . intro heq
      rw [Std.LawfulEqCmp.compare_eq_iff_eq] at heq
      rw [heq] at hnodup
      exact hnodup.1 hmem

variable {order : List String → List String}

theorem nodup_hgetall (hperm : ∀ keys, (order keys).Perm keys) (hash : RHash)
    : ((hash.hgetall order).map Prod.fst).Nodup := by
  unfold RHash.hgetall
  rw [List.map_filterMap]
  refine List.Nodup.filterMap ?_ ((hperm _).nodup_iff.mpr Std.ExtTreeMap.nodup_keys)
  intro field field' found hfound hfound'
  simp only [Option.map_map, Option.mem_def, Option.map_eq_some_iff, Function.comp_apply] at *
  rcases hfound with ⟨-, -, rfl⟩
  rcases hfound' with ⟨-, -, rfl⟩
  rfl

theorem mem_hgetall (hperm : ∀ keys, (order keys).Perm keys) {hash : RHash}
    {field value : String}
    : (field, value) ∈ hash.hgetall order ↔ hash.map[field]? = some value := by
  unfold RHash.hgetall
  rw [List.mem_filterMap]
  constructor
  . rintro ⟨other, -, h⟩
    rw [Option.map_eq_some_iff] at h
    rcases h with ⟨found, hfound, h⟩
    cases h
    exact hfound
  . intro h
    refine ⟨field, ?_, by rw [h]; rfl⟩
    rw [(hperm _).mem_iff, Std.ExtTreeMap.mem_keys, Std.ExtTreeMap.mem_iff_isSome_getElem?, h]
    rfl

theorem zrangeWithScores_all {zset : RSortedSet} (h : Value.Allocatable (.sortedSet zset))
    : zset.zrangeWithScores 0 (-1)
        =
      zset.sorted.toList.map fun entry => (entry.member, entry.score) := by
  unfold RSortedSet.zrangeWithScores
  rw [selectRange_all h]

theorem nodup_scores (zset : RSortedSet)
    : ((zset.sorted.toList.map fun entry => (entry.member, entry.score)).map Prod.fst).Nodup := by
  rw [List.map_map]
  exact zset.nodup_members

/--
Rebuilding a sound value from its flat form gives the value.
-/
theorem deserialize_serialize (hperm : ∀ keys, (order keys).Perm keys) {value : Value}
    (hsound : value.Sound fun _ => True) (halloc : value.Allocatable) (hprint : value.Printable)
    : deserialize (serialize order value) = value := by
  cases value with
  | str text => rfl
  | list list =>
    simp only [serialize, deserialize, RList.lrange, selectRange_all halloc, foldl_rpush]
    rfl
  | set set =>
    simp only [serialize, deserialize, RSet.smembers, foldl_sadd]
    congr 2
    apply Std.ExtTreeSet.ext_mem
    intro member
    rw [Std.ExtTreeSet.mem_insertMany_list, List.contains_iff_mem, (hperm _).mem_iff,
      Std.ExtTreeSet.mem_toList]
    simp [RSet.new]
  | hash hash =>
    simp only [serialize, deserialize, foldl_hset]
    congr 2
    apply Std.ExtTreeMap.ext_getElem?
    intro field
    apply Option.ext
    intro value
    exact (getElem?_insertMany_eq_some_iff (nodup_hgetall hperm hash)).trans (mem_hgetall hperm)
  | sortedSet zset =>
    have hscores : ∀ pair ∈ zset.zrangeWithScores 0 (-1),
        (parseF64 (displayF64 pair.2)).getD f64Zero = pair.2 := by
      intro pair hmem
      rw [zrangeWithScores_all halloc, List.mem_map] at hmem
      rcases hmem with ⟨entry, hentry, rfl⟩
      rw [RSortedSet.mem_toList_iff] at hentry
      rw [hprint _ _ hentry (hsound _ _ hentry)]
      rfl
    simp only [serialize, deserialize, List.foldl_map]
    rw [List.foldl_ext _ (fun zset (pair : String × Float) => (zset.zadd pair.2 pair.1).1) _
      (fun zset pair hmem => by rw [hscores pair hmem])]
    congr 1
    apply RSortedSet.ext
    rw [zrangeWithScores_all halloc, members_foldl_zadd (nodup_scores zset)
      (by simp [RSortedSet.new])]
    apply Std.ExtTreeMap.ext_getElem?
    intro member
    apply Option.ext
    intro score
    have hentry : ⟨member, score⟩ ∈ zset.sorted.toList ↔ zset.members[member]? = some score :=
      RSortedSet.mem_toList_iff
    refine (getElem?_insertMany_eq_some_iff (nodup_scores zset)).trans ?_
    rw [← hentry, List.mem_map]
    constructor
    . rintro ⟨entry, hmem, h⟩
      cases h
      exact hmem
    . intro hmem
      exact ⟨_, hmem, rfl⟩

/--
The entry a snapshot entry is loaded as.
-/
def loadEntry (now : Instant) (entry : SnapshotEntry) : Entry where
  value := deserialize entry.value
  expiresAt := entry.ttlSecs.bind (deadlineAfter now)

theorem loadSnapshot_eq (now : Instant) (snapshot : Snapshot) (store : Store)
    : loadSnapshot now snapshot store
        =
      (∅ : Store).insertMany (snapshot.entries.map fun entry => (entry.key, loadEntry now entry))
    := by
  rw [Std.ExtTreeMap.insertMany_list_eq_foldl, List.foldl_map]
  rfl

theorem nodup_snapshot (env : Env) (store : Store)
    : ((snapshot env store).entries.map SnapshotEntry.key).Nodup := by
  unfold snapshot
  rw [List.map_filterMap]
  refine List.Nodup.filterMap ?_ ((env.order_perm _ _).nodup_iff.mpr Std.ExtTreeMap.nodup_keys)
  intro key key' found hfound hfound'
  simp only [Option.map_map, Option.mem_def, Option.map_eq_some_iff, Function.comp_apply] at *
  rcases hfound with ⟨-, -, rfl⟩
  rcases hfound' with ⟨-, -, rfl⟩
  rfl

/--
The snapshot entry of a live entry.
-/
def snapshotEntry (env : Env) (key : String) (entry : Entry) : SnapshotEntry where
  key := key
  ttlSecs := entry.expiresAt.map fun deadline => .ofNat (deadline.secsSince env.now)
  value := serialize (env.order (.value key)) entry.value

theorem mem_snapshot {env : Env} {store : Store} {found : SnapshotEntry}
    : found ∈ (snapshot env store).entries
        ↔
      ∃ key entry, live env.now store key = some entry ∧ snapshotEntry env key entry = found := by
  unfold snapshot
  rw [List.mem_filterMap]
  simp only [Option.map_eq_some_iff]
  constructor
  . rintro ⟨key, -, entry, hlive, rfl⟩
    exact ⟨key, entry, hlive, rfl⟩
  . rintro ⟨key, entry, hlive, rfl⟩
    refine ⟨key, ?_, entry, hlive, rfl⟩
    rw [(env.order_perm _ _).mem_iff, Std.ExtTreeMap.mem_keys,
      Std.ExtTreeMap.mem_iff_isSome_getElem?, (LiveMap.live_eq_some.mp hlive).1]
    rfl

theorem getElem?_loadSnapshot (env : Env) (now : Instant) (store other : Store) (key : String)
    : (loadSnapshot now (snapshot env store) other)[key]?
        =
      (live env.now store key).map fun entry => loadEntry now (snapshotEntry env key entry) := by
  have hnodup : ((snapshot env store).entries.map fun entry =>
      (entry.key, loadEntry now entry)).map Prod.fst |>.Nodup := by
    rw [List.map_map]
    exact nodup_snapshot env store
  apply Option.ext
  intro loaded
  rw [loadSnapshot_eq, getElem?_insertMany_eq_some_iff hnodup, List.mem_map,
    Option.map_eq_some_iff]
  constructor
  . rintro ⟨found, hfound, h⟩
    rw [mem_snapshot] at hfound
    rcases hfound with ⟨key, entry, hlive, rfl⟩
    cases h
    exact ⟨entry, hlive, rfl⟩
  . rintro ⟨entry, hlive, rfl⟩
    exact ⟨_, mem_snapshot.mpr ⟨key, entry, hlive, rfl⟩, rfl⟩

end Db

/--
An entry restored at `now`: the same value, and the deadline in the whole seconds that remained.
-/
def Entry.RestoredAs (now : Instant) (entry restored : Entry) : Prop :=
  restored.value = entry.value ∧
    match entry.expiresAt, restored.expiresAt with
    | none, none => True
    | some deadline, some restored =>
      restored.nanos = now.nanos + deadline.secsSince now * nanosPerSec
    | _, _ => False

theorem le_of_isLive {now deadline : Instant} {value : Value}
    (h : Entry.isLive now { value, expiresAt := some deadline } = true) : now ≤ deadline := by
  simp only [Entry.isLive, Entry.isExpired, Bool.not_eq_true', decide_eq_false_iff_not] at h
  rw [Instant.le_def] at h ⊢
  omega

theorem loadEntry_expiresAt {now : Instant} {entry : SnapshotEntry} {secs : UInt64}
    (h : entry.ttlSecs = some secs) : (Db.loadEntry now entry).expiresAt = now.checkedAdd secs := by
  unfold Db.loadEntry
  rw [h, Option.bind_some]
  rfl

theorem ttlSecs_snapshotEntry {env : Env} {key : String} {value : Value} {deadline : Instant}
    : (Db.snapshotEntry env key { value, expiresAt := some deadline }).ttlSecs
        =
      some (UInt64.ofNat (deadline.secsSince env.now)) := by
  rfl

theorem loadEntry_snapshotEntry {env : Env} {key : String} {entry : Entry}
    (hlive : entry.isLive env.now = true) (hsound : entry.Sound fun _ => True)
    (halloc : entry.value.Allocatable) (hprint : entry.value.Printable)
    : entry.RestoredAs env.now (Db.loadEntry env.now (Db.snapshotEntry env key entry)) := by
  refine ⟨Db.deserialize_serialize (env.order_perm _) hsound halloc hprint, ?_⟩
  rcases entry with ⟨value, _ | deadline⟩
  . exact trivial
  . rcases Instant.checkedAdd_secsSince (le_of_isLive hlive) with ⟨restored, hrestored, hnanos⟩
    rw [loadEntry_expiresAt ttlSecs_snapshotEntry, hrestored]
    exact hnanos

/--
Loading the snapshot of a reachable database replaces whatever was stored by exactly its live keys,
with equal values, and with deadlines in the whole seconds that remained.
-/
theorem loadSnapshot_restores {db : Database} (hdb : Reachable db) (env : Env) (other : Store)
    (halloc : ∀ key entry, live env.now db.store key = some entry → entry.value.Allocatable)
    (hprint : ∀ key entry, live env.now db.store key = some entry → entry.value.Printable)
    (key : String)
    : Option.Rel (Entry.RestoredAs env.now) (live env.now db.store key)
        (Db.loadSnapshot env.now (Db.snapshot env db.store) other)[key]? := by
  rw [Db.getElem?_loadSnapshot]
  cases hlive : live env.now db.store key with
  | none => exact .none
  | some entry =>
    have hstored := LiveMap.live_eq_some.mp hlive
    exact .some (loadEntry_snapshotEntry hstored.2 (sound_of_reachable hdb key entry hstored.1)
      (halloc key entry hlive) (hprint key entry hlive))

/--
Keys of every type, one that has a second and a half of its hundred seconds behind it, and one that has
expired.
-/
theorem loadSnapshot_restores_types
    : let now : Instant := ⟨nanosPerSec + nanosPerSec / 2, by decide⟩
      let env := envAt now
      let requests := [["SET", "s", "v", "EX", "100"], ["SET", "gone", "v", "EX", "1"],
        ["RPUSH", "l", "x", "y"], ["SADD", "m", "p", "q"], ["HSET", "h", "f", "w"],
        ["ZADD", "z", "1.5", "a"]]
      let db := requests.foldl (fun db tokens => (dispatch (envAt startOfClock) tokens db).1)
        (.withPersistence startOfClock none none)
      let loaded := Db.loadSnapshot now (Db.snapshot env db.store)
        ((∅ : Store).insert "other" { value := .str "v", expiresAt := none })
      (∀ key, Option.Rel (Entry.RestoredAs now) (live now db.store key) loaded[key]?)
        ∧ loaded.keys = ["h", "l", "m", "s", "z"]
        ∧ (loaded["s"]?).map (Entry.remaining now) = some 98 := by
  intro now env requests db loaded
  have hdb : Reachable db := .dispatch _ _ (.dispatch _ _ (.dispatch _ _ (.dispatch _ _
    (.dispatch _ _ (.dispatch _ _ .withPersistence)))))
  have hfits : LiveMap.All (fun entry => entry.value.Allocatable ∧ entry.value.Printable) db.store := by
    apply LiveMap.all_of_toList
    decide +kernel
  refine ⟨?_, by decide +kernel, by decide +kernel⟩
  apply loadSnapshot_restores hdb env
  . intro key entry hlive
    exact (hfits.of_live hlive).1
  . intro key entry hlive
    exact (hfits.of_live hlive).2

end RedisClone
