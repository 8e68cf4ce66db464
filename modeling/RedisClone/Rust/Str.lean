import Mathlib

/-!
This module contains the fragment of Rust's `str` the server relies on. A Rust `String` is modelled
by Lean's `String`: both are byte buffers that carry the guarantee of being valid UTF-8.
-/

namespace RedisClone

/--
The UTF-8 bytes of a string, `str::as_bytes`.
-/
def asBytes (s : String) : List UInt8 :=
  s.toByteArray.data.toList

/--
`String::from_utf8`: the string with the given bytes if they are valid UTF-8.
-/
def fromUtf8 (bytes : List UInt8) : Option String :=
  String.fromUTF8? ⟨bytes.toArray⟩

@[simp]
theorem asBytes_append (s t : String) : asBytes (s ++ t) = asBytes s ++ asBytes t := by
  simp [asBytes]

@[simp]
theorem asBytes_empty : asBytes "" = [] := by
  rfl

@[simp]
theorem length_asBytes (s : String) : (asBytes s).length = s.utf8ByteSize := by
  rw [← String.size_toByteArray]
  rfl

@[simp]
theorem asBytes_join (l : List String) : asBytes (String.join l) = l.flatMap asBytes := by
  induction l with
  | nil => simp
  | cons s l ih => rw [String.join_cons, asBytes_append, ih, List.flatMap_cons]

theorem asBytes_inj {s t : String} : asBytes s = asBytes t ↔ s = t := by
  constructor
  . intro h
    apply String.toByteArray_inj.mp
    apply ByteArray.ext
    apply Array.ext'
    exact h
  . rintro rfl
    rfl

@[simp]
theorem fromUtf8_asBytes (s : String) : fromUtf8 (asBytes s) = some s := by
  have hbytes : (⟨(asBytes s).toArray⟩ : ByteArray) = s.toByteArray := by
    simp [asBytes]
  unfold fromUtf8
  rw [hbytes]
  simp [String.fromUTF8?, s.isValidUTF8, String.fromUTF8]

theorem fromUtf8_eq_some {bytes : List UInt8} {s : String}
    : fromUtf8 bytes = some s ↔ asBytes s = bytes := by
  constructor
  . intro h
    unfold fromUtf8 String.fromUTF8? at h
    split at h
    . simp only [Option.some.injEq] at h
      rw [← h]
      simp [asBytes, String.fromUTF8]
    . simp at h
  . rintro rfl
    simp

theorem asBytes_ofList (cs : List Char)
    : asBytes (String.ofList cs) = cs.flatMap String.utf8EncodeChar := by
  simp [asBytes, String.toByteArray_ofList, List.utf8Encode]

theorem asBytes_eq_flatMap (s : String) : asBytes s = s.toList.flatMap String.utf8EncodeChar := by
  rw [← asBytes_ofList, String.ofList_toList]

/--
A byte below 128 only ever encodes the ASCII character with that code point.
-/
theorem eq_of_mem_utf8EncodeChar {c : Char} {b : UInt8} (hmem : b ∈ String.utf8EncodeChar c)
    (hb : b < 128) : c.toNat = b.toNat := by
  have hb : b.toNat < 128 := by simpa [UInt8.lt_iff_toNat_lt] using hb
  unfold String.utf8EncodeChar at hmem
  dsimp only at hmem
  split at hmem
  . simp only [List.mem_singleton] at hmem
    subst hmem
    rename_i hle
    simp only [UInt8.toNat_ofNat']
    rw [Nat.mod_eq_of_lt (by omega)]
    rfl
  . exfalso
    split at hmem
    . simp only [List.mem_cons, List.not_mem_nil, or_false] at hmem
      rcases hmem with rfl | rfl <;> simp only [UInt8.toNat_ofNat'] at hb <;> omega
    . split at hmem
      . simp only [List.mem_cons, List.not_mem_nil, or_false] at hmem
        rcases hmem with rfl | rfl | rfl <;> simp only [UInt8.toNat_ofNat'] at hb <;> omega
      . simp only [List.mem_cons, List.not_mem_nil, or_false] at hmem
        rcases hmem with rfl | rfl | rfl | rfl <;> simp only [UInt8.toNat_ofNat'] at hb <;> omega

/--
`str::to_ascii_uppercase`.
-/
def toAsciiUppercase (s : String) : String :=
  String.ofList (s.toList.map Char.toUpper)

/--
`str::to_ascii_lowercase`.
-/
def toAsciiLowercase (s : String) : String :=
  String.ofList (s.toList.map Char.toLower)

/--
`str::eq_ignore_ascii_case`.
-/
def eqIgnoreAsciiCase (s t : String) : Bool :=
  toAsciiLowercase s == toAsciiLowercase t

/--
`char::is_whitespace`, the Unicode property `White_Space`.
-/
def isWhitespace (c : Char) : Bool :=
  let v := c.toNat
  (9 ≤ v && v ≤ 13) || v == 0x20 || v == 0x85 || v == 0xA0 || v == 0x1680
    || (0x2000 ≤ v && v ≤ 0x200A) || v == 0x2028 || v == 0x2029 || v == 0x202F || v == 0x205F
    || v == 0x3000

/--
`str::trim_end`.
-/
def trimEnd (s : String) : String :=
  String.ofList (s.toList.rdropWhile isWhitespace)

/--
`str::strip_prefix` with a single character.
-/
def stripPrefix (c : Char) (s : String) : Option String :=
  match s.toList with
  | d :: cs => if d = c then some (String.ofList cs) else none
  | [] => none

/--
`str::split_whitespace`, collected.
-/
def splitWhitespace (s : String) : List String :=
  ((s.toList.splitOnP isWhitespace).filter (!·.isEmpty)).map String.ofList

@[simp]
theorem trimEnd_append_crlf (s : String) : trimEnd (s ++ "\r\n") = trimEnd s := by
  unfold trimEnd
  rw [String.toList_append]
  rw [show "\r\n".toList = ['\r'] ++ ['\n'] by rfl, ← List.append_assoc]
  rw [List.rdropWhile_concat_pos _ _ _ (by decide), List.rdropWhile_concat_pos _ _ _ (by decide)]

theorem trimEnd_eq_self {s : String} (h : ∀ c ∈ s.toList.getLast?, isWhitespace c = false)
    : trimEnd s = s := by
  unfold trimEnd
  rw [List.rdropWhile_eq_self_iff.mpr]
  . exact String.ofList_toList
  . intro hne
    rw [h _ (List.getLast?_eq_some_getLast hne)]
    simp

theorem stripPrefix_append (c : Char) (s : String)
    : stripPrefix c (String.singleton c ++ s) = some s := by
  simp [stripPrefix]

end RedisClone
