import RedisClone.Keyspace.Restore

/-!
This module contains what saving and loading does to deadlines: the remaining time is cut to whole
seconds, and a key with less than a second left does not survive it.
-/

namespace RedisClone

open Store

variable {env : Env} {store : Store} {key : String} {entry : Entry}

theorem liveEntry_of_live (h : live env.now store key = some entry)
    : entry.isLive env.now = true := by
  apply And.right
  apply LiveMap.live_eq_some.mp h

theorem ttl_eq (now : Instant) (store : Store) (key : String)
    : (Db.ttl now key store).2
        =
      match live now store key with
      | some entry => entry.remaining now
      | none => -2 := by
  unfold Db.ttl
  rw [readEntry_eq_atKey, atKey_eq]
  cases live now store key <;> rfl

theorem live_loadSnapshot (env : Env) (store other : Store) (key : String)
    : live env.now (Db.loadSnapshot env.now (Db.snapshot env store) other) key
        =
      ((live env.now store key).map fun entry =>
        Db.loadEntry env.now (Db.snapshotEntry env key entry)).filter (Entry.isLive env.now) := by
  rw [← Db.getElem?_loadSnapshot env env.now store other key]
  rfl

/--
A deadline in whole seconds from now is live if and only if there is at least one of them, and the
seconds are what `TTL` answers.
-/
theorem loadEntry_isLive {now deadline : Instant} {entry : SnapshotEntry}
    (hle : now ≤ deadline)
    (hsecs : entry.ttlSecs = some (UInt64.ofNat (deadline.secsSince now)))
    : ((Db.loadEntry now entry).isLive now = true ↔ now.nanos + nanosPerSec ≤ deadline.nanos)
        ∧ (Db.loadEntry now entry).remaining now = Int64.ofNat (deadline.secsSince now) := by
  rcases Instant.checkedAdd_secsSince hle with ⟨restored, hrestored, hnanos⟩
  have hexpires : (Db.loadEntry now entry).expiresAt = some restored := by
    rw [loadEntry_expiresAt hsecs, hrestored]
  have hpos : 0 < nanosPerSec := by decide
  rw [Instant.le_def] at hle
  have hwhole : 1 ≤ deadline.secsSince now ↔ now.nanos + nanosPerSec ≤ deadline.nanos := by
    unfold Instant.secsSince
    rw [Nat.le_div_iff_mul_le hpos]
    omega
  constructor
  . rw [← hwhole]
    unfold Entry.isLive Entry.isExpired
    rw [hexpires]
    simp only [Bool.not_eq_true', decide_eq_false_iff_not]
    rw [Instant.le_def, hnanos]
    constructor
    . intro hlt
      by_contra hzero
      have hzero : deadline.secsSince now = 0 := by omega
      rw [hzero] at hlt
      omega
    . intro hone hge
      have := Nat.mul_le_mul_right nanosPerSec hone
      omega
  . unfold Entry.remaining
    rw [hexpires]
    dsimp only
    congr 1
    unfold Instant.secsSince at hnanos ⊢
    rw [hnanos, Nat.add_sub_cancel_left, Nat.mul_div_cancel _ hpos]

/--
A live key is still live after its snapshot was loaded, with the same answer of `TTL`, if and only if
it has no deadline or at least a whole second until then.
-/
theorem loadSnapshot_keeps_ttl_iff (env : Env) (store other : Store) (key : String) (entry : Entry)
    (h : live env.now store key = some entry)
    : let loaded := Db.loadSnapshot env.now (Db.snapshot env store) other
      ((live env.now loaded key).isSome
          ∧ (Db.ttl env.now key loaded).2 = (Db.ttl env.now key store).2)
        ↔
      ∀ deadline, entry.expiresAt = some deadline
        → env.now.nanos + nanosPerSec ≤ deadline.nanos := by
  intro loaded
  have hloaded : live env.now loaded key
      = (some (Db.loadEntry env.now (Db.snapshotEntry env key entry))).filter
          (Entry.isLive env.now) := by
    simp only [loaded, live_loadSnapshot, h, Option.map_some]
  rcases entry with ⟨value, _ | deadline⟩
  . -- Without a deadline nothing is stored, and nothing is restored.
    have hexpires : (Db.loadEntry env.now (Db.snapshotEntry env key ⟨value, none⟩)).expiresAt = none
        := by rfl
    have hlive : live env.now loaded key
        = some (Db.loadEntry env.now (Db.snapshotEntry env key ⟨value, none⟩)) := by
      rw [hloaded, Option.filter_some, if_pos]
      unfold Entry.isLive Entry.isExpired
      rw [hexpires]
      rfl
    constructor
    . intro _ deadline hdeadline
      cases hdeadline
    . intro _
      rw [ttl_eq, ttl_eq, hlive, h]
      unfold Entry.remaining
      dsimp only
      rw [hexpires]
      exact ⟨rfl, rfl⟩
  . have hsecs : (Db.snapshotEntry env key ⟨value, some deadline⟩).ttlSecs
        = some (UInt64.ofNat (deadline.secsSince env.now)) := ttlSecs_snapshotEntry
    have hload := loadEntry_isLive (le_of_isLive (liveEntry_of_live h)) hsecs
    constructor
    . rintro ⟨hsome, -⟩ deadline' hdeadline'
      cases hdeadline'
      apply hload.1.mp
      by_contra hdead
      rw [hloaded, Option.filter_some, if_neg hdead] at hsome
      cases hsome
    . intro hsecond
      have hlive : live env.now loaded key
          = some (Db.loadEntry env.now (Db.snapshotEntry env key ⟨value, some deadline⟩)) := by
        rw [hloaded, Option.filter_some, if_pos (hload.1.mpr (hsecond deadline rfl))]
      rw [ttl_eq, ttl_eq, hlive, h]
      dsimp only
      rw [hload.2]
      exact ⟨rfl, rfl⟩

/-
A key that is set to expire in one second, saved and loaded half a second later.
-/

def halfSecond : Instant := ⟨nanosPerSec / 2, by decide⟩

def expiring : Store :=
  (dispatch (envAt startOfClock) ["SET", "k", "v", "EX", "1"] (.new startOfClock)).1.store

theorem loadSnapshot_loses_key
    : let loaded := Db.loadSnapshot halfSecond (Db.snapshot (envAt halfSecond) expiring) ∅
      (live halfSecond expiring "k").isSome = true
        ∧ (Db.ttl halfSecond "k" expiring).2 = 0
        ∧ (live halfSecond loaded "k").isSome = false
        ∧ (Db.ttl halfSecond "k" loaded).2 = -2 := by
  decide +kernel

/--
A key that has a second and a half left keeps what `TTL` says of it.
-/
theorem loadSnapshot_keeps_ttl_iff_seconds
    : let store := (dispatch (envAt startOfClock) ["SET", "k", "v", "EX", "2"]
        (.new startOfClock)).1.store
      let loaded := Db.loadSnapshot halfSecond (Db.snapshot (envAt halfSecond) store) ∅
      (live halfSecond loaded "k").isSome ∧ (Db.ttl halfSecond "k" loaded).2 = 1
        ∧ (Db.ttl halfSecond "k" store).2 = 1 := by
  intro store loaded
  let deadline : Instant := ⟨2 * nanosPerSec, by decide⟩
  have hstored : (live halfSecond store "k").map Entry.expiresAt = some (some deadline) := by
    decide +kernel
  obtain ⟨entry, hlive, hdeadline⟩ := Option.map_eq_some_iff.mp hstored
  have hsecond : ∀ found, entry.expiresAt = some found
      → halfSecond.nanos + nanosPerSec ≤ found.nanos := by
    intro found hfound
    rw [hdeadline] at hfound
    cases hfound
    decide
  have hleft : (Db.ttl halfSecond "k" store).2 = 1 := by
    decide +kernel
  obtain ⟨hkept, hsame⟩ :=
    (loadSnapshot_keeps_ttl_iff (envAt halfSecond) store ∅ "k" entry hlive).mpr hsecond
  exact ⟨hkept, hsame.trans hleft, hleft⟩

end RedisClone
