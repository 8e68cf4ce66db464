import RedisClone.Rust.Str

/-!
This module contains Rust's integer parsing, printing and checked arithmetic.
-/

namespace RedisClone

/--
The `?` operator: a computation that goes on after `x` succeeds only if `x` does.
-/
theorem bind_eq_ok {ε α β : Type} {x : Except ε α} {f : α → Except ε β} {b : β}
    : (x >>= f) = .ok b ↔ ∃ a, x = .ok a ∧ f a = .ok b := by
  cases x <;> simp [bind, Except.bind]

/--
The value of a nonempty run of ASCII digits.
-/
def parseDigits (cs : List Char) : Option Nat :=
  if cs.isEmpty then
    none
  else if cs.all Char.isDigit then
    some (Nat.ofDigitChars 10 cs 0)
  else
    none

/--
`str::parse::<i64>`: an optional sign and digits whose value is in range.
-/
def parseI64 (s : String) : Option Int64 :=
  match s.toList with
  | '-' :: cs => (parseDigits cs).bind fun n =>
    if n ≤ 2 ^ 63 then some (Int64.ofInt (-n)) else none
  | '+' :: cs => (parseDigits cs).bind fun n =>
    if n < 2 ^ 63 then some (Int64.ofInt n) else none
  | cs => (parseDigits cs).bind fun n =>
    if n < 2 ^ 63 then some (Int64.ofInt n) else none

/--
`str::parse::<usize>` on a 64-bit platform: as `parseI64`, but no minus sign is accepted.
-/
def parseUsize (s : String) : Option Nat :=
  match s.toList with
  | '+' :: cs => (parseDigits cs).bind fun n => if n < 2 ^ 64 then some n else none
  | cs => (parseDigits cs).bind fun n => if n < 2 ^ 64 then some n else none

/--
`str::parse::<u64>`.
-/
def parseU64 (s : String) : Option UInt64 :=
  (parseUsize s).map UInt64.ofNat

/--
`i64::checked_add`.
-/
def checkedAdd (a b : Int64) : Option Int64 :=
  let sum := a.toInt + b.toInt
  if -2 ^ 63 ≤ sum ∧ sum < 2 ^ 63 then some (Int64.ofInt sum) else none

/--
`i64::checked_neg`.
-/
def checkedNeg (a : Int64) : Option Int64 :=
  if a = Int64.minValue then none else some (-a)

@[simp]
theorem checkedAdd_zero_left (a : Int64) : checkedAdd 0 a = some a := by
  have hlo := a.le_toInt
  have hhi := a.toInt_lt
  simp only [checkedAdd, Int64.toInt_zero, Int.zero_add, Int64.ofInt_toInt]
  rw [if_pos ⟨hlo, hhi⟩]

@[simp]
theorem parseDigits_toDigits (n : Nat) : parseDigits (Nat.toDigits 10 n) = some n := by
  have hdigit : (Nat.toDigits 10 n).all Char.isDigit = true := by
    rw [List.all_eq_true]
    intro c hc
    exact Nat.isDigit_of_mem_toDigits (by omega) (by omega) hc
  simp [parseDigits, hdigit, Nat.toDigits_ne_nil]

theorem parseUsize_toString {n : Nat} (h : n < 2 ^ 64) : parseUsize (toString n) = some n := by
  unfold parseUsize
  split
  . next cs heq =>
    have hplus : '+' ∈ Nat.toDigits 10 n := by
      have : (toString n).toList = Nat.toDigits 10 n := by simp
      rw [← this, heq]
      simp
    have := Nat.isDigit_of_mem_toDigits (by omega) (by omega) hplus
    simp at this
  . simpa using h

theorem toString_int64 (value : Int64) : toString value = toString value.toInt := by
  rfl

theorem digit_of_toDigits {n : Nat} {c : Char} {cs : List Char} (h : Nat.toDigits 10 n = c :: cs)
    : c.isDigit = true := by
  have hmem : c ∈ Nat.toDigits 10 n := by
    rw [h]
    exact List.mem_cons_self
  exact Nat.isDigit_of_mem_toDigits (by omega) (by omega) hmem

theorem parseI64_toString (value : Int64) : parseI64 (toString value) = some value := by
  rw [toString_int64]
  have hlo := value.le_toInt
  have hhi := value.toInt_lt
  have hvalue : Int64.ofInt value.toInt = value := Int64.ofInt_toInt value
  generalize value.toInt = number at hlo hhi hvalue
  subst hvalue
  unfold parseI64
  cases number with
  | ofNat n =>
    have hlist : (toString (Int.ofNat n)).toList = Nat.toDigits 10 n := by
      rw [show toString (Int.ofNat n) = n.repr from rfl, Nat.toList_repr]
    have hn : n < 2 ^ 63 := by
      rw [Int.ofNat_eq_natCast] at hhi
      omega
    rw [hlist]
    split
    . next h => exact absurd (digit_of_toDigits h) (by decide)
    . next h => exact absurd (digit_of_toDigits h) (by decide)
    . rw [parseDigits_toDigits, Option.bind_some, if_pos hn]
      rfl
  | negSucc n =>
    have hlist : (toString (Int.negSucc n)).toList = '-' :: Nat.toDigits 10 (n + 1) := by
      rw [show toString (Int.negSucc n) = "-" ++ (n + 1).repr from rfl, String.toList_append,
        Nat.toList_repr]
      rfl
    have hn : n + 1 ≤ 2 ^ 63 := by
      rw [Int.negSucc_eq] at hlo
      omega
    rw [hlist]
    have hparse : parseDigits (Nat.toDigits 10 (n + 1)) = some (n + 1) := parseDigits_toDigits (n + 1)
    simp only [hparse, Option.bind_some, if_pos hn]
    rfl

theorem toString_int64_injective {a b : Int64} (h : toString a = toString b) : a = b := by
  have hparse := congrArg parseI64 h
  rw [parseI64_toString, parseI64_toString] at hparse
  exact Option.some.inj hparse

theorem isWhitespace_of_isDigit {c : Char} (h : c.isDigit = true) : isWhitespace c = false := by
  have hc : 48 ≤ c.val.toNat ∧ c.val.toNat ≤ 57 := by
    simpa [Char.isDigit, UInt32.le_iff_toNat_le] using h
  have : c.toNat = c.val.toNat := rfl
  simp only [isWhitespace, Bool.or_eq_false_iff, Bool.and_eq_false_iff, decide_eq_false_iff_not,
    beq_eq_false_iff_ne]
  omega

end RedisClone
