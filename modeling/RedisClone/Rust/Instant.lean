import RedisClone.Rust.Float

/-!
This module contains the monotonic clock. An `Instant` counts the nanoseconds since an arbitrary
origin; its whole seconds fit in an `i64`, so adding a duration to it may fail.
-/

namespace RedisClone

def nanosPerSec : Nat := 10 ^ 9

structure Instant where
  nanos : Nat
  inRange : nanos < 2 ^ 63 * nanosPerSec
deriving DecidableEq

namespace Instant

theorem zero_inRange : 0 < 2 ^ 63 * nanosPerSec := by decide

instance : LE Instant where
  le a b := a.nanos ≤ b.nanos

instance : LT Instant where
  lt a b := a.nanos < b.nanos

instance (a b : Instant) : Decidable (a ≤ b) := inferInstanceAs (Decidable (a.nanos ≤ b.nanos))

instance (a b : Instant) : Decidable (a < b) := inferInstanceAs (Decidable (a.nanos < b.nanos))

theorem le_def {a b : Instant} : a ≤ b ↔ a.nanos ≤ b.nanos := Iff.rfl

theorem lt_def {a b : Instant} : a < b ↔ a.nanos < b.nanos := Iff.rfl

instance : Preorder Instant where
  le_refl a := Nat.le_refl a.nanos
  le_trans _ _ _ := Nat.le_trans
  lt_iff_le_not_ge a b := by
    simp only [le_def, lt_def]
    omega

/--
`Instant::checked_add` with a whole number of seconds.
-/
def checkedAdd (now : Instant) (seconds : UInt64) : Option Instant :=
  let sum := now.nanos + seconds.toNat * nanosPerSec
  if h : sum < 2 ^ 63 * nanosPerSec then some ⟨sum, h⟩ else none

/--
`Instant::saturating_duration_since`, in whole seconds.
-/
def secsSince (later earlier : Instant) : Nat :=
  (later.nanos - earlier.nanos) / nanosPerSec

theorem secsSince_lt (later earlier : Instant) : later.secsSince earlier < 2 ^ 63 := by
  have hlater := later.inRange
  unfold secsSince
  rw [Nat.div_lt_iff_lt_mul (by decide)]
  omega

theorem secsSince_spec {later earlier : Instant} (h : earlier ≤ later)
    : earlier.nanos + later.secsSince earlier * nanosPerSec ≤ later.nanos := by
  have hdiv : later.secsSince earlier * nanosPerSec ≤ later.nanos - earlier.nanos :=
    Nat.div_mul_le_self _ _
  rw [le_def] at h
  omega

/--
Adding back the whole seconds that remain until a deadline never leaves the clock's range.
-/
theorem checkedAdd_secsSince {later earlier : Instant} (h : earlier ≤ later)
    : ∃ sum, earlier.checkedAdd (UInt64.ofNat (later.secsSince earlier)) = some sum
        ∧ sum.nanos = earlier.nanos + later.secsSince earlier * nanosPerSec := by
  have hspec := secsSince_spec h
  have hlater := later.inRange
  have hsecs : (UInt64.ofNat (later.secsSince earlier)).toNat = later.secsSince earlier := by
    have := secsSince_lt later earlier
    rw [UInt64.toNat_ofNat']
    omega
  have hsum : earlier.nanos + later.secsSince earlier * nanosPerSec < 2 ^ 63 * nanosPerSec := by
    omega
  refine ⟨⟨_, hsum⟩, ?_, rfl⟩
  unfold checkedAdd
  simp only [hsecs]
  rw [dif_pos hsum]

end Instant

end RedisClone
