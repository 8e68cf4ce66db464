import RedisClone.Rust.Str

/-!
This module contains the proof that the order of strings by their characters, which is Lean's, is the
order by their UTF-8 bytes, which is Rust's.
-/

namespace RedisClone

theorem cons_ofNat_lt_of_lt {m n : Nat} (hn : n < 256) (h : m < n) (x y : List UInt8)
    : UInt8.ofNat m :: x < UInt8.ofNat n :: y := by
  rw [List.cons_lt_cons_iff]
  left
  rw [UInt8.lt_iff_toNat_lt, UInt8.toNat_ofNat', UInt8.toNat_ofNat', Nat.mod_eq_of_lt (by omega),
    Nat.mod_eq_of_lt (by omega)]
  exact h

theorem cons_ofNat_lt_of_le {m n : Nat} (hn : n < 256) (h : m ≤ n) {x y : List UInt8}
    (hlt : m = n → x < y)
    : UInt8.ofNat m :: x < UInt8.ofNat n :: y := by
  rcases Nat.lt_or_eq_of_le h with h | rfl
  . exact cons_ofNat_lt_of_lt hn h x y
  . rw [List.cons_lt_cons_iff]
    right
    exact ⟨rfl, hlt rfl⟩

/--
The bytes of a character are ordered as the characters are, whatever follows them: the first byte
grows with the number of bytes, and the others are digits.
-/
theorem utf8EncodeChar_append_lt {c d : Char} (h : c < d) (x y : List UInt8)
    : String.utf8EncodeChar c ++ x < String.utf8EncodeChar d ++ y := by
  have h : c.val.toNat < d.val.toNat := h
  have hd : d.val.toNat < 0x110000 := by
    have hvalid := d.valid
    rcases hvalid with hvalid | hvalid <;> omega
  unfold String.utf8EncodeChar
  dsimp only
  generalize c.val.toNat = m at h
  generalize d.val.toNat = n at h hd
  split
  . split
    . apply cons_ofNat_lt_of_lt (by omega) h
    . split
      . apply cons_ofNat_lt_of_lt (by omega) (by omega)
      . split
        . apply cons_ofNat_lt_of_lt (by omega) (by omega)
        . apply cons_ofNat_lt_of_lt (by omega) (by omega)
  . rw [if_neg (show ¬ n ≤ 127 by omega)]
    split
    . split
      . apply cons_ofNat_lt_of_le (by omega) (by omega)
        intro heq
        apply cons_ofNat_lt_of_lt (by omega) (by omega)
      . split
        . apply cons_ofNat_lt_of_lt (by omega) (by omega)
        . apply cons_ofNat_lt_of_lt (by omega) (by omega)
    . rw [if_neg (show ¬ n ≤ 2047 by omega)]
      split
      . split
        . apply cons_ofNat_lt_of_le (by omega) (by omega)
          intro heq
          apply cons_ofNat_lt_of_le (by omega) (by omega)
          intro heq
          apply cons_ofNat_lt_of_lt (by omega) (by omega)
        . apply cons_ofNat_lt_of_lt (by omega) (by omega)
      . rw [if_neg (show ¬ n ≤ 65535 by omega)]
        apply cons_ofNat_lt_of_le (by omega) (by omega)
        intro heq
        apply cons_ofNat_lt_of_le (by omega) (by omega)
        intro heq
        apply cons_ofNat_lt_of_le (by omega) (by omega)
        intro heq
        apply cons_ofNat_lt_of_lt (by omega) (by omega)

theorem asBytes_lt {s t : String} (h : s < t) : asBytes s < asBytes t := by
  have h : s.toList < t.toList := h
  rw [asBytes_eq_flatMap, asBytes_eq_flatMap]
  generalize s.toList = cs at h
  generalize t.toList = ds at h
  induction cs generalizing ds with
  | nil =>
    cases ds with
    | nil => exact absurd h (List.lt_irrefl [])
    | cons d ds =>
      rw [List.flatMap_cons, List.flatMap_nil]
      cases hencode : String.utf8EncodeChar d with
      | nil => exact absurd hencode String.utf8EncodeChar_ne_nil
      | cons byte bytes => exact List.nil_lt_cons byte _
  | cons c cs ih =>
    cases ds with
    | nil => exact absurd h (List.not_lt_nil _)
    | cons d ds =>
      rw [List.flatMap_cons, List.flatMap_cons]
      rw [List.cons_lt_cons_iff] at h
      rcases h with h | ⟨rfl, h⟩
      . exact utf8EncodeChar_append_lt h _ _
      . apply List.append_left_lt
        exact ih ds h

end RedisClone
