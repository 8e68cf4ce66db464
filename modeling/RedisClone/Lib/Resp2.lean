import Mathlib

/-!
This module contains a library with the reply format of RESP2 as a client reads it: a decoder that
takes one value off a stream of bytes.
-/

namespace Resp2

/--
What a client can be told. Texts are the bytes of a line, without its end.
-/
inductive Value where
  | simple (text : List UInt8)
  | error (text : List UInt8)
  | integer (value : Int)
  | bulk (bytes : List UInt8)
  | null
  | array (items : List Value)

/--
The line at the front of a stream. It ends with CR LF and has no other CR or LF.
-/
def takeLine : List UInt8 → Option (List UInt8 × List UInt8)
  | 13 :: 10 :: rest => some ([], rest)
  | b :: bytes =>
    if b = 13 ∨ b = 10 then
      none
    else
      (takeLine bytes).map fun (text, rest) => (b :: text, rest)
  | [] => none

/--
The value of a nonempty text of digits.
-/
def digits (text : List UInt8) : Option Nat :=
  let cs := text.map fun b => Char.ofNat b.toNat
  if text ≠ [] ∧ cs.all Char.isDigit then some (Nat.ofDigitChars 10 cs 0) else none

def decimal : List UInt8 → Option Int
  | 45 :: text => (digits text).map fun n : Nat => -(n : Int)
  | text => (digits text).map fun n : Nat => (n : Int)

/--
A payload of the given length and the CR LF behind it; no value has the length -1.
-/
def takeBulk (len : Int) (bytes : List UInt8) : Option (Value × List UInt8) :=
  if len = -1 then
    some (.null, bytes)
  else if len < 0 then
    none
  else
    match bytes.drop len.toNat with
    | 13 :: 10 :: rest => some (.bulk (bytes.take len.toNat), rest)
    | _ => none

def decodeMany (one : List UInt8 → Option (Value × List UInt8))
    : Nat → List UInt8 → Option (List Value × List UInt8)
  | 0, bytes => some ([], bytes)
  | n + 1, bytes =>
    match one bytes with
    | some (value, bytes) =>
      (decodeMany one n bytes).map fun (values, rest) => (value :: values, rest)
    | none => none

/--
A value by its kind, its first line and the bytes after that.
-/
def decodeLine (one : List UInt8 → Option (Value × List UInt8)) (kind : UInt8)
    (text rest : List UInt8) : Option (Value × List UInt8) :=
  match kind with
  | 43 => some (.simple text, rest)
  | 45 => some (.error text, rest)
  | 58 => (decimal text).map fun value => (.integer value, rest)
  | 36 => (decimal text).bind fun len => takeBulk len rest
  | 42 =>
    (decimal text).bind fun len =>
      if len < 0 then
        none
      else
        (decodeMany one len.toNat rest).map fun (items, rest) => (.array items, rest)
  | _ => none

/--
The value at the front of a stream, which is nested at most as deep as `depth` says.
-/
def decode (depth : Nat) (bytes : List UInt8) : Option (Value × List UInt8) :=
  match depth, bytes with
  | depth + 1, kind :: bytes =>
    match takeLine bytes with
    | some (text, rest) => decodeLine (decode depth) kind text rest
    | none => none
  | _, _ => none

/--
A stream that holds exactly so many values. Values are not nested deeper than there are bytes.
-/
def parseMany (n : Nat) (bytes : List UInt8) : Option (List Value) :=
  match decodeMany (decode bytes.length) n bytes with
  | some (values, []) => some values
  | _ => none

/--
A stream that holds exactly one value.
-/
def parse (bytes : List UInt8) : Option Value :=
  match decode bytes.length bytes with
  | some (value, []) => some value
  | _ => none

theorem takeLine_append {text : List UInt8} (htext : ∀ b ∈ text, b ≠ 13 ∧ b ≠ 10)
    (rest : List UInt8)
    : takeLine (text ++ 13 :: 10 :: rest) = some (text, rest) := by
  induction text with
  | nil => rfl
  | cons b text ih =>
    have hb := htext b List.mem_cons_self
    rw [List.cons_append, takeLine]
    . rw [ih fun b hmem => htext b (List.mem_cons_of_mem _ hmem)]
      simp [hb]
    . intro rest heq
      exact absurd heq hb.1

/-
The text of a number.
-/

def digitBytes (n : Nat) : List UInt8 := (Nat.toDigits 10 n).map fun c => .ofNat c.toNat

theorem ofNat_toNat_of_isDigit {c : Char} (h : c.isDigit = true)
    : Char.ofNat (UInt8.ofNat c.toNat).toNat = c := by
  have hc : 48 ≤ c.val.toNat ∧ c.val.toNat ≤ 57 := by
    simpa [Char.isDigit, UInt32.le_iff_toNat_le] using h
  have hval : c.toNat = c.val.toNat := rfl
  rw [UInt8.toNat_ofNat', Nat.mod_eq_of_lt (by omega), Char.ofNat_toNat]

theorem digits_digitBytes (n : Nat) : digits (digitBytes n) = some n := by
  have hdigit : ∀ c ∈ Nat.toDigits 10 n, c.isDigit = true := by
    intro c hmem
    exact Nat.isDigit_of_mem_toDigits (by omega) (by omega) hmem
  have hchars : (digitBytes n).map (fun b => Char.ofNat b.toNat) = Nat.toDigits 10 n := by
    unfold digitBytes
    rw [List.map_map]
    apply (List.map_congr_left _).trans (List.map_id _)
    intro c hmem
    exact ofNat_toNat_of_isDigit (hdigit c hmem)
  unfold digits
  dsimp only
  rw [hchars, if_pos]
  . simp
  . refine ⟨?_, ?_⟩
    . simp [digitBytes, Nat.toDigits_ne_nil]
    . rw [List.all_eq_true]
      exact hdigit

theorem mem_digitBytes {n : Nat} {b : UInt8} (h : b ∈ digitBytes n) : 48 ≤ b ∧ b ≤ 57 := by
  unfold digitBytes at h
  rw [List.mem_map] at h
  rcases h with ⟨c, hmem, rfl⟩
  have hdigit := Nat.isDigit_of_mem_toDigits (by omega) (by omega) hmem
  have hc : 48 ≤ c.val.toNat ∧ c.val.toNat ≤ 57 := by
    simpa [Char.isDigit, UInt32.le_iff_toNat_le] using hdigit
  have hval : c.toNat = c.val.toNat := rfl
  have hbyte : (UInt8.ofNat c.toNat).toNat = c.val.toNat := by
    rw [UInt8.toNat_ofNat', Nat.mod_eq_of_lt (by omega), hval]
  rw [UInt8.le_iff_toNat_le, UInt8.le_iff_toNat_le, hbyte]
  exact hc

def intBytes (value : Int) : List UInt8 :=
  if 0 ≤ value then digitBytes value.toNat else 45 :: digitBytes (-value).toNat

theorem decimal_intBytes (value : Int) : decimal (intBytes value) = some value := by
  unfold intBytes
  split
  . next hvalue =>
    unfold decimal
    split
    . next text heq =>
      have hmem : 45 ∈ digitBytes value.toNat := by
        rw [heq]
        exact List.mem_cons_self
      exact absurd (mem_digitBytes hmem).1 (by decide)
    . rw [digits_digitBytes, Option.map_some, Int.toNat_of_nonneg hvalue]
  . next hvalue =>
    rw [decimal, digits_digitBytes, Option.map_some, Int.toNat_of_nonneg (by omega), Int.neg_neg]

theorem mem_intBytes {value : Int} {b : UInt8} (h : b ∈ intBytes value) : b ≠ 13 ∧ b ≠ 10 := by
  have hdigit : ∀ {n : Nat}, b ∈ digitBytes n → b ≠ 13 ∧ b ≠ 10 := by
    intro n hmem
    have hb := mem_digitBytes hmem
    constructor
    . rintro rfl
      exact absurd hb.1 (by decide)
    . rintro rfl
      exact absurd hb.1 (by decide)
  unfold intBytes at h
  split at h
  . exact hdigit h
  . rcases List.mem_cons.mp h with rfl | hmem
    . decide
    . exact hdigit hmem

/-
What is decoded of each kind of value, whatever follows it.
-/

/--
The bytes of a value: however the stream goes on, they are taken off its front.
-/
def Encodes (depth : Nat) (bytes : List UInt8) (value : Value) : Prop :=
  ∀ rest, decode depth (bytes ++ rest) = some (value, rest)

variable {depth : Nat} {kind : UInt8} {text payload bytes : List UInt8} {value : Value}

theorem decode_line (htext : ∀ b ∈ text, b ≠ 13 ∧ b ≠ 10) (rest : List UInt8)
    : decode (depth + 1) (kind :: text ++ [13, 10] ++ rest)
        =
      decodeLine (decode depth) kind text rest := by
  rw [List.append_assoc, List.cons_append, decode]
  simp only [List.cons_append, List.nil_append]
  rw [takeLine_append htext]

theorem encodes_simple (htext : ∀ b ∈ text, b ≠ 13 ∧ b ≠ 10)
    : Encodes (depth + 1) (43 :: text ++ [13, 10]) (.simple text) := by
  intro rest
  rw [decode_line htext]
  rfl

theorem encodes_error (htext : ∀ b ∈ text, b ≠ 13 ∧ b ≠ 10)
    : Encodes (depth + 1) (45 :: text ++ [13, 10]) (.error text) := by
  intro rest
  rw [decode_line htext]
  rfl

theorem encodes_integer (n : Int)
    : Encodes (depth + 1) (58 :: intBytes n ++ [13, 10]) (.integer n) := by
  intro rest
  rw [decode_line fun b hmem => mem_intBytes hmem]
  simp only [decodeLine]
  rw [decimal_intBytes, Option.map_some]

theorem encodes_null : Encodes (depth + 1) [36, 45, 49, 13, 10] .null := by
  intro rest
  rfl

theorem encodes_bulk
    : Encodes (depth + 1) (36 :: intBytes payload.length ++ [13, 10] ++ payload ++ [13, 10])
        (.bulk payload) := by
  intro rest
  rw [List.append_assoc _ payload, List.append_assoc, decode_line fun b hmem => mem_intBytes hmem]
  simp only [decodeLine]
  rw [decimal_intBytes, Option.bind_some, takeBulk, if_neg (by omega), if_neg (by omega),
    Int.toNat_natCast]
  simp only [List.append_assoc, List.cons_append, List.nil_append, List.drop_left, List.take_left]

theorem decodeMany_flatten {chunks : List (List UInt8)} {values : List Value}
    (h : List.Forall₂ (Encodes depth) chunks values) (rest : List UInt8)
    : decodeMany (decode depth) chunks.length (chunks.flatten ++ rest) = some (values, rest) := by
  induction h with
  | nil => rfl
  | cons hfirst _ ih =>
    rw [List.length_cons, decodeMany, List.flatten_cons, List.append_assoc, hfirst]
    dsimp only
    rw [ih, Option.map_some]

theorem encodes_array {chunks : List (List UInt8)} {values : List Value}
    (h : List.Forall₂ (Encodes depth) chunks values)
    : Encodes (depth + 1) (42 :: intBytes chunks.length ++ [13, 10] ++ chunks.flatten)
        (.array values) := by
  intro rest
  rw [List.append_assoc _ chunks.flatten, decode_line fun b hmem => mem_intBytes hmem]
  simp only [decodeLine]
  rw [decimal_intBytes, Option.bind_some, if_neg (by omega), Int.toNat_natCast, decodeMany_flatten h,
    Option.map_some]

/-
Deeper nesting than needed does no harm.
-/

theorem decodeMany_mono {one one' : List UInt8 → Option (Value × List UInt8)}
    (hone : ∀ bytes found, one bytes = some found → one' bytes = some found) {n : Nat}
    {found : List Value × List UInt8} (h : decodeMany one n bytes = some found)
    : decodeMany one' n bytes = some found := by
  induction n generalizing bytes found with
  | zero => exact h
  | succ n ih =>
    rw [decodeMany] at h
    split at h
    . next value between hfirst =>
      rw [Option.map_eq_some_iff] at h
      rcases h with ⟨⟨values, rest⟩, hrest, rfl⟩
      rw [decodeMany, hone _ _ hfirst]
      dsimp only
      rw [ih hrest, Option.map_some]
    . cases h

theorem decode_succ {found : Value × List UInt8} (h : decode depth bytes = some found)
    : decode (depth + 1) bytes = some found := by
  induction depth generalizing bytes found with
  | zero => cases h
  | succ depth ih =>
    cases bytes with
    | nil => cases h
    | cons kind bytes =>
      rw [decode] at h ⊢
      split at h
      . next text rest hline =>
        unfold decodeLine at h ⊢
        split at h
        . exact h
        . exact h
        . exact h
        . exact h
        . rw [Option.bind_eq_some_iff] at h ⊢
          rcases h with ⟨len, hlen, h⟩
          refine ⟨len, hlen, ?_⟩
          split at h
          . cases h
          . next hnonneg =>
            rw [Option.map_eq_some_iff] at h
            rcases h with ⟨items, hitems, rfl⟩
            rw [if_neg hnonneg, decodeMany_mono (fun bytes found h => ih h) hitems]
            rfl
        . cases h
      . cases h

theorem decode_mono {depth' : Nat} (hle : depth ≤ depth') {found : Value × List UInt8}
    (h : decode depth bytes = some found)
    : decode depth' bytes = some found := by
  induction hle with
  | refl => exact h
  | step _ ih => exact decode_succ ih

theorem Encodes.mono {depth' : Nat} (hle : depth ≤ depth') (h : Encodes depth bytes value)
    : Encodes depth' bytes value := by
  intro rest
  exact decode_mono hle (h rest)

/-
No value takes less than three bytes, which bounds the nesting of what is in a stream.
-/

theorem length_of_takeLine {found : List UInt8 × List UInt8} (h : takeLine bytes = some found)
    : 2 ≤ bytes.length := by
  induction bytes generalizing found with
  | nil => cases h
  | cons b bytes ih =>
    rw [takeLine.eq_def] at h
    split at h
    . next heq =>
      rw [heq]
      simp
    . next heq =>
      cases heq
      split at h
      . cases h
      . rw [Option.map_eq_some_iff] at h
        rcases h with ⟨found, hline, -⟩
        exact Nat.le_succ_of_le (ih hline)
    . next heq => cases heq

theorem length_of_decode {found : Value × List UInt8} (h : decode depth bytes = some found)
    : 3 ≤ bytes.length := by
  unfold decode at h
  split at h
  . split at h
    . next hline => exact Nat.succ_le_succ (length_of_takeLine hline)
    . cases h
  . cases h

theorem Encodes.length (h : Encodes depth bytes value) : 3 ≤ bytes.length := by
  have hdecode := h []
  rw [List.append_nil] at hdecode
  exact length_of_decode hdecode

theorem parse_of_encodes (h : Encodes depth bytes value) (hdepth : depth ≤ 3)
    : parse bytes = some value := by
  have hdecode := decode_mono (Nat.le_trans hdepth h.length) (h [])
  rw [List.append_nil] at hdecode
  unfold parse
  rw [hdecode]

theorem parseMany_of_encodes {chunks : List (List UInt8)} {values : List Value}
    (h : List.Forall₂ (Encodes depth) chunks values) (hne : chunks ≠ []) (hdepth : depth ≤ 3)
    : parseMany chunks.length chunks.flatten = some values := by
  have hlength : depth ≤ chunks.flatten.length := by
    cases h with
    | nil => exact absurd rfl hne
    | cons hfirst _ =>
      have hfirst := hfirst.length
      rw [List.flatten_cons, List.length_append]
      omega
  have hdecode := decodeMany_mono (fun bytes found => decode_mono hlength) (decodeMany_flatten h [])
  rw [List.append_nil] at hdecode
  unfold parseMany
  rw [hdecode]

end Resp2
