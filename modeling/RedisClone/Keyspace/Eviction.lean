import RedisClone.Keyspace.Blind

/-!
This module contains what follows from blindness to dead entries: the snapshot does not show them, and
sweeping them away in between changes no reply of a run.
-/

namespace RedisClone

open Store

/--
The store without the entries whose deadline has passed.
-/
def Store.purge (now : Instant) (store : Store) : Store :=
  LiveMap.purge (Entry.isLive now) store

theorem isLive_of_le {t t' : Instant} (hle : t ≤ t') {entry : Entry}
    (h : entry.isLive t' = true) : entry.isLive t = true := by
  simp only [Entry.isLive, Entry.isExpired] at *
  split at h
  . next deadline hdeadline =>
    simp only [Bool.not_eq_true', decide_eq_false_iff_not] at *
    intro hdead
    exact h (hdead.trans hle)
  . rfl

namespace Store

variable {t t' : Instant} {store store' : Store}

theorem alike_refl : Alike t store store := fun _ => rfl

theorem Alike.later (hle : t ≤ t') (h : Alike t store store') : Alike t' store store' := by
  intro key
  unfold live
  rw [LiveMap.live_later (fun _ => isLive_of_le hle), LiveMap.live_later (fun _ => isLive_of_le hle)]
  exact congrArg _ (h key)

theorem alike_purge : Alike t store (purge t store) := by
  intro key
  exact (LiveMap.live_purge fun _ => id).symm

theorem alike_iff_purge_eq : Alike t store store' ↔ purge t store = purge t store' := by
  exact LiveMap.purge_eq_iff.symm

end Store

/-
The snapshot.
-/

/--
Serialized values that are equal up to the order of set members and hash fields.
-/
def SerValue.Rearranged : SerValue → SerValue → Prop
  | .set items, .set items' => items.Perm items'
  | .hash items, .hash items' => items.Perm items'
  | value, value' => value = value'

structure SnapshotEntry.Alike (entry entry' : SnapshotEntry) : Prop where
  key : entry.key = entry'.key
  ttlSecs : entry.ttlSecs = entry'.ttlSecs
  value : entry.value.Rearranged entry'.value

/--
Snapshots that list the same entries in some order.
-/
def Snapshot.Alike (snapshot snapshot' : Snapshot) : Prop :=
  ∃ entries, snapshot.entries.Perm entries ∧ List.Forall₂ SnapshotEntry.Alike entries snapshot'.entries

theorem serialize_rearranged {order order' : List String → List String}
    (h : ∀ keys, (order keys).Perm (order' keys)) (value : Value)
    : (Db.serialize order value).Rearranged (Db.serialize order' value) := by
  cases value with
  | set set => exact h _
  | hash hash => exact hash.hgetall_perm h
  | _ => rfl

theorem filterMap_keys_perm (env : Env) (store : Store) (entry : String → Option α)
    (h : ∀ key, live env.now store key = none → entry key = none)
    : ((env.order .keyspace store.keys).filterMap entry).Perm
        ((LiveMap.liveKeys (Entry.isLive env.now) store).filterMap entry) := by
  refine ((env.order_perm _ _).filterMap _).trans (.of_eq ?_)
  unfold LiveMap.liveKeys
  rw [List.filterMap_filter]
  apply List.filterMap_congr
  intro key _
  cases hlive : live env.now store key with
  | none => simp [h key hlive]
  | some entry =>
    unfold live at hlive
    simp [hlive]

theorem forall₂_filterMap {f g : String → Option SnapshotEntry} (keys : List String)
    (h : ∀ key, Option.Rel SnapshotEntry.Alike (f key) (g key))
    : List.Forall₂ SnapshotEntry.Alike (keys.filterMap f) (keys.filterMap g) := by
  induction keys with
  | nil => exact .nil
  | cons key keys ih =>
    have hkey := h key
    rw [List.filterMap_cons, List.filterMap_cons]
    generalize f key = first at hkey
    generalize g key = second at hkey
    cases hkey with
    | none => exact ih
    | some hentry => exact .cons hentry ih

theorem snapshot_alike {env env' : Env} (henv : env.Alike env') {store store' : Store}
    (h : Store.Alike env.now store store')
    : (Db.snapshot env store).Alike (Db.snapshot env' store') := by
  refine ⟨(env'.order .keyspace store'.keys).filterMap fun key =>
    (live env.now store key).map fun entry =>
      { key
        ttlSecs := entry.expiresAt.map fun deadline => .ofNat (deadline.secsSince env.now)
        value := Db.serialize (env.order (.value key)) entry.value }, ?_, ?_⟩
  . refine (filterMap_keys_perm env store _ ?_).trans (.trans ?_ (filterMap_keys_perm env' store' _ ?_).symm)
    . intro key hnone
      simp [hnone]
    . rw [← henv.now]
      exact (LiveMap.liveKeys_perm h).filterMap _
    . intro key hnone
      rw [h key, henv.now, hnone]
      rfl
  . apply forall₂_filterMap
    intro key
    rw [← henv.now, ← h key]
    cases live env.now store key with
    | none => exact .none
    | some entry =>
      exact .some ⟨rfl, rfl, serialize_rearranged (order_perm_order env env' _ _) entry.value⟩

/-
Runs with and without sweeps.
-/

/--
A step of a run: a request, or a round of the background sweeper.
-/
inductive RunEvent where
  | request (env : Env) (tokens : List String)
  | sweep (now : Instant)

def RunEvent.clock : RunEvent → Instant
  | .request env _ => env.now
  | .sweep now => now

/--
The requests of a run with their replies.
-/
def replies : List RunEvent → Database → List (List String × String)
  | [], _ => []
  | .request env tokens :: events, db =>
    (tokens, (dispatch env tokens db).2) :: replies events (dispatch env tokens db).1
  | .sweep now :: events, db =>
    replies events { db with store := (Db.sweepExpired now db.store).1 }

/--
The second run is the first one without its sweeps, in surroundings that are alike.
-/
inductive WithoutSweeps : List RunEvent → List RunEvent → Prop where
  | nil : WithoutSweeps [] []
  | sweep {now events events'}
    : WithoutSweeps events events' → WithoutSweeps (.sweep now :: events) events'
  | request {env env' tokens events events'}
    : env.Alike env' → WithoutSweeps events events'
        → WithoutSweeps (.request env tokens :: events) (.request env' tokens :: events')

def SameAnswer (answer answer' : List String × String) : Prop :=
  answer.1 = answer'.1 ∧ SameReplyTo answer.1 answer.2 answer'.2

theorem Database.Alike.later {t t' : Instant} {db db' : Database} (hle : t ≤ t')
    (h : db.Alike t db') : db.Alike t' db' := by
  exact ⟨h.store.later hle, h.frame⟩

theorem Database.Alike.sweep {now : Instant} {db db' : Database} (h : db.Alike now db')
    : Database.Alike now { db with store := (Db.sweepExpired now db.store).1 } db' := by
  obtain ⟨store', rfl⟩ : ∃ store', db' = { db with store := store' } := ⟨_, h.frame⟩
  refine ⟨fun key => ?_, rfl⟩
  rw [← h.store key]
  exact (alike_purge key).symm

/--
Along a run with a clock that never goes back, databases that are alike stay alike, so sweeping one of
them changes no reply.
-/
theorem replies_withoutSweeps {events events' : List RunEvent} (start : Instant)
    {db db' : Database} (hsweeps : WithoutSweeps events events') (hdb : db.Alike start db')
    (hclock : (start :: events.map RunEvent.clock).Pairwise (· ≤ ·))
    : List.Forall₂ SameAnswer (replies events db) (replies events' db') := by
  induction hsweeps generalizing start db db' with
  | nil => exact .nil
  | sweep hsweeps ih =>
    rw [List.map_cons, List.pairwise_cons] at hclock
    exact ih _ (hdb.later (hclock.1 _ List.mem_cons_self)).sweep hclock.2
  | request henv hsweeps ih =>
    rw [List.map_cons, List.pairwise_cons] at hclock
    have halike := dispatch_alike henv (hdb.later (hclock.1 _ List.mem_cons_self))
    exact .cons ⟨rfl, (halike _).2⟩ (ih _ (halike _).1 hclock.2)

/--
Eviction is invisible: a command gives the same reply on a store and on the store without its dead
entries, and the results have the same live entries; the snapshots of the two are the same; and in a
run with a clock that never goes back, sweeps change no reply.
-/
theorem eviction_invisible {env env' : Env} (henv : env.Alike env') (command : Command)
    (db : Database) {events events' : List RunEvent} (hsweeps : WithoutSweeps events events')
    (hclock : (events.map RunEvent.clock).Pairwise (· ≤ ·))
    : let purged := { db with store := purge env.now db.store }
      (command.SameReply (execute env command db).2 (execute env' command purged).2
          ∧ purge env.now (execute env command db).1.store
            = purge env.now (execute env' command purged).1.store)
        ∧ (Db.snapshot env db.store).Alike (Db.snapshot env' purged.store)
        ∧ List.Forall₂ SameAnswer (replies events db) (replies events' db) := by
  intro purged
  have hpurged : db.Alike env.now purged := ⟨alike_purge, rfl⟩
  have hexecute := execute_alike henv hpurged command
  refine ⟨⟨hexecute.2, alike_iff_purge_eq.mp hexecute.1.store⟩, snapshot_alike henv alike_purge, ?_⟩
  cases events with
  | nil =>
    cases hsweeps
    exact .nil
  | cons event events =>
    apply replies_withoutSweeps event.clock hsweeps ⟨alike_refl, rfl⟩
    rw [List.map_cons, List.pairwise_cons]
    refine ⟨?_, hclock⟩
    intro clock hmem
    rw [List.map_cons, List.pairwise_cons] at hclock
    rcases List.mem_cons.mp hmem with rfl | hmem
    . exact le_rfl
    . exact hclock.1 clock hmem

/--
A key with a deadline, swept away before it is read.
-/
theorem eviction_invisible_swept
    : let env := fun seconds : Fin 10 =>
        envAt ⟨seconds * nanosPerSec, by simp only [nanosPerSec]; omega⟩
      let db := Database.new (env 0).now
      let set := RunEvent.request (env 0) ["SET", "k", "v", "EX", "1"]
      let get := RunEvent.request (env 2) ["GET", "k"]
      List.Forall₂ SameAnswer (replies [set, .sweep (env 2).now, get] db)
        (replies [set, get] db) := by
  intro env db set get
  refine (eviction_invisible (env 0).alike_refl .dbSize db ?_ ?_).2.2
  . exact .request (env 0).alike_refl (.sweep (.request (env 2).alike_refl .nil))
  . simp [RunEvent.clock, set, get, env, envAt, Instant.le_def]

end RedisClone
