import RedisClone.Keyspace.Occupied
import RedisClone.Lib.LastWrite
import RedisClone.Server.Recovery

/-!
This module contains what loading an arbitrary snapshot leads to. The values are rebuilt element by
element, but without the checks of the commands, so a snapshot that lists an empty collection or a score
that is not a number makes a keyspace that no command could have made.
-/

namespace RedisClone

open Store

/-
The invariants that the commands maintain.
-/

/--
No score is NaN.
-/
def Value.Numeric : Value → Prop
  | .sortedSet zset => ∀ (member : String) (score : Float),
    zset.members[member]? = some score → score.isNaN = false
  | _ => True

/--
The two indexes of a sorted set hold the same pairs.
-/
def Value.Indexed : Value → Prop
  | .sortedSet zset => zset.sorted.toList.Nodup
    ∧ ∀ item, item ∈ zset.sorted.toList ↔ zset.members[item.member]? = some item.score
  | _ => True

structure Store.WellFormed (store : Store) : Prop where
  once : store.keys.Nodup
  occupied : LiveMap.All (fun entry => entry.value.Occupied) store
  numeric : LiveMap.All (fun entry => entry.value.Numeric) store
  indexed : LiveMap.All (fun entry => entry.value.Indexed) store

theorem Value.indexed (value : Value) : value.Indexed := by
  cases value with
  | sortedSet zset => exact ⟨zset.nodup_toList, fun item => RSortedSet.mem_toList_iff⟩
  | str | list | set | hash => exact trivial

theorem Store.wellFormed_iff {store : Store}
    : store.WellFormed
        ↔
      ∀ (key : String) (entry : Entry), store[key]? = some entry →
        entry.value.Occupied ∧ entry.value.Numeric := by
  constructor
  . intro h key entry hentry
    exact ⟨h.occupied key entry hentry, h.numeric key entry hentry⟩
  . intro h
    exact {
      once := Std.ExtTreeMap.nodup_keys
      occupied := fun key entry hentry => (h key entry hentry).1
      numeric := fun key entry hentry => (h key entry hentry).2
      indexed := fun _ entry _ => entry.value.indexed
    }

theorem Value.sound_iff {value : Value} (h : value.Occupied)
    : value.Sound (fun _ => True) ↔ value.Numeric := by
  cases value with
  | set inner =>
    unfold Value.Sound
    exact iff_of_true ⟨h, fun _ _ => trivial⟩ trivial
  | str | list | sortedSet | hash => exact Iff.rfl

/--
Requests maintain the invariants.
-/
theorem dispatch_wellFormed {db : Database} (h : db.store.WellFormed) (env : Env)
    (tokens : List String)
    : (dispatch env tokens db).1.store.WellFormed := by
  have hoccupied : LiveMap.All Entry.Occupied (dispatch env tokens db).1.store :=
    dispatch_occupied h.occupied env tokens
  have hsound : LiveMap.All (Entry.Sound fun _ => True) (dispatch env tokens db).1.store := by
    apply dispatch_sound
    . intro key entry hentry
      exact (Value.sound_iff (h.occupied key entry hentry)).mpr (h.numeric key entry hentry)
    . exact fun _ _ => trivial
  apply Store.wellFormed_iff.mpr
  intro key entry hentry
  have hvalue : entry.value.Occupied := hoccupied key entry hentry
  exact ⟨hvalue, (Value.sound_iff hvalue).mp (hsound key entry hentry)⟩

theorem dispatchRun_wellFormed {db : Database} (h : db.store.WellFormed)
    (run : List (Env × List String))
    : (dispatchRun run db).store.WellFormed := by
  induction run generalizing db with
  | nil => exact h
  | cons step run ih =>
    apply ih
    exact dispatch_wellFormed h step.1 step.2

/-
What a snapshot lists.
-/

/--
A collection without elements.
-/
def SerValue.isEmpty : SerValue → Bool
  | .str _ => false
  | .list items => items.isEmpty
  | .set items => items.isEmpty
  | .zset items => items.isEmpty
  | .hash items => items.isEmpty

/--
A sorted set in which the last text for a member reads as NaN.
-/
def SerValue.HasNaN : SerValue → Prop
  | .zset items => ∃ item ∈ items, LastWrite.last Prod.fst items item.1 = some item
    ∧ (parseF64 item.2).any Float.isNaN = true
  | _ => False

namespace Db

theorem getElem?_loadSnapshot_last (now : Instant) (snapshot : Snapshot) (old : Store) (key : String)
    : (loadSnapshot now snapshot old)[key]?
        =
      (LastWrite.last SnapshotEntry.key snapshot.entries key).map (loadEntry now) := by
  have hstep : ∀ (store : Store) (entry : SnapshotEntry) (key : String),
      (store.insert entry.key (loadEntry now entry))[key]?
        = if entry.key = key then some (loadEntry now entry) else store[key]? := by
    intro store entry key
    rw [Std.ExtTreeMap.getElem?_insert]
    simp only [Std.LawfulEqCmp.compare_eq_iff_eq]
  have hlast := LastWrite.observe_foldl (fun (store : Store) key => store[key]?) hstep
    snapshot.entries ∅ key
  rw [Std.ExtTreeMap.getElem?_empty, Option.or_none] at hlast
  exact hlast

theorem deserialize_occupied_iff (value : SerValue)
    : (deserialize value).Occupied ↔ value.isEmpty = false := by
  cases value with
  | str text => exact iff_of_true trivial rfl
  | list items =>
    simp only [deserialize, foldl_rpush]
    exact Iff.rfl
  | set items =>
    cases items with
    | nil =>
      apply iff_of_false
      . simp [deserialize, Value.Occupied, RSet.isEmpty, RSet.new]
      . simp [SerValue.isEmpty]
    | cons item items =>
      apply iff_of_true _ rfl
      exact foldl_of_step (motive := fun set : RSet => set.isEmpty = false) RSet.isEmpty_sadd
        (List.cons_ne_nil item items) .new
  | zset items =>
    cases items with
    | nil =>
      apply iff_of_false
      . simp [deserialize, Value.Occupied, RSortedSet.isEmpty, RSortedSet.new]
      . simp [SerValue.isEmpty]
    | cons item items =>
      apply iff_of_true _ rfl
      apply foldl_of_step (motive := fun zset : RSortedSet => zset.isEmpty = false) _
        (List.cons_ne_nil item items) .new
      intro zset pair
      exact zset.isEmpty_zadd _ pair.1
  | hash items =>
    cases items with
    | nil =>
      apply iff_of_false
      . simp [deserialize, Value.Occupied, RHash.isEmpty, RHash.new]
      . simp [SerValue.isEmpty]
    | cons item items =>
      apply iff_of_true _ rfl
      apply foldl_of_step (motive := fun hash : RHash => hash.isEmpty = false) _
        (List.cons_ne_nil item items) .new
      intro hash pair
      exact hash.isEmpty_hset pair.1 pair.2

/--
Whether a stored score is NaN, after `ZADD`: scores that are not replaced are NaN just as the new one.
-/
theorem isNaN_zadd (zset : RSortedSet) (score : Float) (member other : String)
    : ((zset.zadd score member).1.members[other]?).map Float.isNaN
        =
      if member = other then some score.isNaN else (zset.members[other]?).map Float.isNaN := by
  rw [RSortedSet.getElem?_members_zadd]
  by_cases hmember : member = other
  . subst hmember
    by_cases hold : ∃ old, zset.members[member]? = some old ∧ OrderedFloat.eq old score = true
    . rw [if_neg fun h => h.2 hold, if_pos rfl]
      rcases hold with ⟨old, hold, heq⟩
      rw [hold, Option.map_some, OrderedFloat.isNaN_eq_of_eq heq]
    . rw [if_pos ⟨rfl, hold⟩, if_pos rfl]
      rfl
  . rw [if_neg fun h => hmember h.1, if_neg hmember]

/--
The score that a text is loaded as.
-/
def loadScore (text : String) : Float := (parseF64 text).getD f64Zero

theorem isNaN_loadScore (text : String)
    : (loadScore text).isNaN = (parseF64 text).any Float.isNaN := by
  unfold loadScore
  cases parseF64 text with
  | none =>
    have hzero : f64Zero.isNaN = false := by decide +kernel
    exact hzero
  | some score => rfl

def loadZset (items : List (String × String)) : RSortedSet :=
  items.foldl (fun zset (member, text) => (zset.zadd (loadScore text) member).1) .new

theorem deserialize_zset (items : List (String × String))
    : deserialize (.zset items) = .sortedSet (loadZset items) := by
  rfl

theorem isNaN_loadZset (items : List (String × String)) (member : String)
    : ((loadZset items).members[member]?).map Float.isNaN
        =
      (LastWrite.last Prod.fst items member).map fun item => (parseF64 item.2).any Float.isNaN := by
  have hstep : ∀ (zset : RSortedSet) (item : String × String) (member : String),
      ((zset.zadd (loadScore item.2) item.1).1.members[member]?).map Float.isNaN
        = if item.1 = member then some ((parseF64 item.2).any Float.isNaN)
          else (zset.members[member]?).map Float.isNaN := by
    intro zset item member
    rw [isNaN_zadd, isNaN_loadScore]
  have hlast := LastWrite.observe_foldl
    (fun (zset : RSortedSet) member => (zset.members[member]?).map Float.isNaN) hstep
    items .new member
  have hnew : (RSortedSet.new.members[member]?).map Float.isNaN = none := by
    simp [RSortedSet.new]
  rw [hnew, Option.or_none] at hlast
  exact hlast

theorem deserialize_numeric_iff (value : SerValue)
    : (deserialize value).Numeric ↔ ¬ value.HasNaN := by
  cases value with
  | zset items =>
    rw [deserialize_zset]
    constructor
    . rintro hnumeric ⟨item, -, hlast, hnan⟩
      have hscore := isNaN_loadZset items item.1
      rw [hlast, Option.map_some, hnan, Option.map_eq_some_iff] at hscore
      rcases hscore with ⟨score, hscore, hnan⟩
      rw [hnumeric item.1 score hscore] at hnan
      cases hnan
    . intro hnone member score hscore
      have hlast := isNaN_loadZset items member
      rw [hscore, Option.map_some] at hlast
      rcases Option.map_eq_some_iff.mp hlast.symm with ⟨item, hitem, hnan⟩
      rcases LastWrite.mem_of_last hitem with ⟨hmem, rfl⟩
      rw [← hnan, ← Bool.not_eq_true]
      intro htrue
      exact hnone ⟨item, hmem, hitem, htrue⟩
  | str | list | set | hash => exact iff_of_true trivial id

end Db

/--
A keyspace loaded from a snapshot is well-formed if and only if no entry that counts, which is the last
one for its key, lists an empty collection or, last for a member, a score that is not a number.
-/
theorem loadSnapshot_wellFormed_iff (now : Instant) (snapshot : Snapshot) (old : Store)
    : (Db.loadSnapshot now snapshot old).WellFormed
        ↔
      ∀ entry ∈ snapshot.entries,
        LastWrite.last SnapshotEntry.key snapshot.entries entry.key = some entry
          → entry.value.isEmpty = false ∧ ¬ entry.value.HasNaN := by
  rw [Store.wellFormed_iff]
  constructor
  . intro h entry hmem hlast
    have hloaded := Db.getElem?_loadSnapshot_last now snapshot old entry.key
    rw [hlast, Option.map_some] at hloaded
    rcases h entry.key (Db.loadEntry now entry) hloaded with ⟨hoccupied, hnumeric⟩
    exact ⟨(Db.deserialize_occupied_iff entry.value).mp hoccupied,
      (Db.deserialize_numeric_iff entry.value).mp hnumeric⟩
  . intro h key loaded hloaded
    rw [Db.getElem?_loadSnapshot_last, Option.map_eq_some_iff] at hloaded
    rcases hloaded with ⟨entry, hlast, rfl⟩
    rcases LastWrite.mem_of_last hlast with ⟨hmem, rfl⟩
    rcases h entry hmem hlast with ⟨hempty, hnan⟩
    constructor
    . apply (Db.deserialize_occupied_iff entry.value).mpr
      exact hempty
    . apply (Db.deserialize_numeric_iff entry.value).mpr
      exact hnan

/--
An empty list, and a score that `ZADD` refuses.
-/
theorem loadSnapshot_not_wellFormed
    : ¬ (Db.loadSnapshot startOfClock ⟨[⟨"l", none, .list []⟩]⟩ ∅).WellFormed
        ∧ ¬ (Db.loadSnapshot startOfClock ⟨[⟨"z", none, .zset [("m", "NaN")]⟩]⟩ ∅).WellFormed := by
  constructor
  . intro h
    have hloaded := Db.getElem?_loadSnapshot_last startOfClock ⟨[⟨"l", none, .list []⟩]⟩ ∅ "l"
    have hoccupied := h.occupied "l" _ hloaded
    cases hoccupied
  . intro h
    have hloaded := Db.getElem?_loadSnapshot_last startOfClock
      ⟨[⟨"z", none, .zset [("m", "NaN")]⟩]⟩ ∅ "z"
    have hnumeric := h.numeric "z" _ hloaded
    have hnan : SerValue.HasNaN (.zset [("m", "NaN")]) := by
      exact ⟨("m", "NaN"), List.mem_singleton.mpr rfl, rfl, by decide +kernel⟩
    exact (Db.deserialize_numeric_iff (.zset [("m", "NaN")])).mp hnumeric hnan

end RedisClone
