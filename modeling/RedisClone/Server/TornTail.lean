import RedisClone.Server.Limits

/-!
This module contains what the reader makes of bytes that follow a torn entry: it goes on where the
entry broke off, and takes them for the rest of the payload.
-/

namespace RedisClone

/--
Where the bytes of a torn array of bulk strings break off: `start` is there of a payload, `missing`
bytes are not, and `after` bulk strings should follow.
-/
structure TornTail where
  init : List String
  start : List UInt8
  missing : Nat
  after : Nat

/--
Going on with the bytes that follow.
-/
def TornTail.resume (self : TornTail) (bytes : List UInt8)
    : Except ReadError (List String × List UInt8) := do
  let (buffer, rest) ← readExact self.missing bytes
  match fromUtf8 (self.start ++ buffer.take (self.missing - 2)) with
  | some token => do
    let (tokens, rest) ← readBulkStrings self.after rest
    .ok (self.init ++ token :: tokens, rest)
  | none => .error (.protocol "invalid UTF-8 in bulk string")

/-
Lines that run into a `*`.
-/

theorem splitLine_append_of_notMem {line : List UInt8} (h : lineFeed ∉ line) (rest : List UInt8)
    : splitLine (line ++ rest) = (line ++ (splitLine rest).1, (splitLine rest).2) := by
  induction line with
  | nil => rfl
  | cons byte line ih =>
    rw [List.mem_cons, not_or] at h
    rw [List.cons_append, splitLine, if_neg (Ne.symm h.1), ih h.2]
    rfl

theorem prefix_of_isLine {torn rest line rest' : List UInt8} {byte : UInt8} (hbyte : byte ≠ lineFeed)
    (hnotMem : lineFeed ∉ torn) (hline : IsLine line rest')
    (h : torn ++ byte :: rest = line ++ rest')
    : torn ++ [byte] <+: line := by
  have hsplit := splitLine_eq_iff.mpr ⟨h, hline⟩
  rw [splitLine_append_of_notMem hnotMem, splitLine, if_neg hbyte, Prod.mk.injEq] at hsplit
  rw [← hsplit.1, List.prefix_append_right_inj, List.cons_prefix_cons]
  exact ⟨rfl, List.nil_prefix⟩

theorem star_notMem_header {marker : Char} {limit n : Nat} {line : List UInt8}
    (h : IsHeader marker limit n line)
    : ∃ body, line = asBytes (String.singleton marker) ++ body ∧ 42 ∉ body := by
  rcases h with ⟨-, text, number, rfl, htrim, digits, hdigits, -, hall, -⟩
  let spaces := text.toList.rtakeWhile isWhitespace
  have htext : text.toList = marker :: number ++ spaces := by
    rw [← htrim]
    unfold trimEnd
    rw [String.toList_ofList]
    exact (List.rdropWhile_append_rtakeWhile).symm
  refine ⟨asBytes (String.ofList (number ++ spaces)), ?_, ?_⟩
  . rw [← asBytes_append]
    apply congrArg
    apply String.toList_inj.mp
    rw [htext, String.toList_append, String.toList_ofList, String.toList_singleton]
    rfl
  . intro hmem
    rw [asBytes_eq_flatMap, String.toList_ofList, List.mem_flatMap] at hmem
    rcases hmem with ⟨c, hc, hbyte⟩
    have hcode : c.toNat = '*'.toNat := eq_of_mem_utf8EncodeChar hbyte (by decide)
    rw [Char.toNat_inj.mp hcode, List.mem_append] at hc
    rcases hc with hnumber | hspaces
    . have hdigit : ¬ '*' ∈ digits := by
        intro hmem
        have hdigit := List.all_eq_true.mp hall '*' hmem
        cases hdigit
      rcases hdigits with rfl | rfl
      . exact hdigit hnumber
      . rcases List.mem_cons.mp hnumber with hplus | hnumber
        . cases hplus
        . exact hdigit hnumber
    . have hspace : isWhitespace '*' = true := List.mem_rtakeWhile_imp hspaces
      cases hspace

theorem readBulkString_of_star {torn : List UInt8} (h : lineFeed ∉ torn) (rest : List UInt8)
    : ∃ error, readBulkString (torn ++ 42 :: rest) = .error error := by
  cases hread : readBulkString (torn ++ 42 :: rest) with
  | error error => exact ⟨error, rfl⟩
  | ok result =>
    exfalso
    rw [readBulkString_eq_ok] at hread
    rcases hread with ⟨line, trailer, hinput, hheader, hline, -⟩
    have hstart : torn ++ [42] <+: line ++ [lineFeed] := by
      apply prefix_of_isLine (by decide) h (.inl ⟨line, hline, rfl⟩)
      rw [hinput, List.append_assoc, List.append_assoc]
    rcases star_notMem_header hheader with ⟨body, hbody, hstar⟩
    have hmem : 42 ∈ line ++ [lineFeed] := hstart.mem (List.mem_append_right _ List.mem_cons_self)
    rw [hbody, List.mem_append] at hmem
    exact hmem.elim (by decide) hstar

theorem readRequest_of_star {torn : List UInt8} (hstar : torn.head? = some 42)
    (h : lineFeed ∉ torn) (rest : List UInt8)
    : ∃ error, readRequest (torn ++ 42 :: rest) = .error error := by
  have hhead : (torn ++ 42 :: rest).head? = some 42 := by
    rw [List.head?_append, hstar]
    rfl
  rcases hread : readRequest (torn ++ 42 :: rest) with error | _ | ⟨tokens, after⟩
  . exact ⟨error, rfl⟩
  . exact absurd hread (readRequest_ne_none hhead)
  . exfalso
    rw [readRequest_eq_ok hhead] at hread
    rcases hread with ⟨trailers, line, body, hinput, hline, hheader, -⟩
    have hstart : torn ++ [42] <+: line := by
      apply prefix_of_isLine (by decide) h hline
      rw [hinput, List.append_assoc]
    rcases star_notMem_header hheader with ⟨body, hbody, hnotMem⟩
    -- the line starts with the `*` of the torn entry and has another one
    cases torn with
    | nil => cases hstar
    | cons byte torn =>
      have hmarker : asBytes (String.singleton '*') = [42] := by rfl
      rw [hbody, hmarker, List.cons_append, List.singleton_append, List.cons_prefix_cons] at hstart
      apply hnotMem
      apply hstart.2.mem
      exact List.mem_append_right _ List.mem_cons_self

/-
Payloads that are completed.
-/

theorem TornTail.resume_cons (self : TornTail) (token : String) (bytes : List UInt8)
    : { self with init := token :: self.init }.resume bytes
        =
      (self.resume bytes).bind fun (tokens, rest) => .ok (token :: tokens, rest) := by
  unfold TornTail.resume
  simp only [bind, Except.bind]
  cases readExact self.missing bytes with
  | error error => rfl
  | ok result =>
    dsimp only
    split
    . cases readBulkStrings self.after result.2 <;> rfl
    . rfl

theorem TornTail.resume_of_lt {self : TornTail} {bytes : List UInt8}
    (h : bytes.length < self.missing)
    : self.resume bytes = .error .unexpectedEof := by
  unfold TornTail.resume readExact
  rw [if_pos h]
  rfl

theorem TornTail.resume_of_le {self : TornTail} {bytes : List UInt8}
    (h : self.missing ≤ bytes.length)
    : self.resume bytes
        =
      match fromUtf8 (self.start ++ bytes.take (self.missing - 2)) with
      | some token =>
        (readBulkStrings self.after (bytes.drop self.missing)).bind fun (tokens, rest) =>
          .ok (self.init ++ token :: tokens, rest)
      | none => .error (.protocol "invalid UTF-8 in bulk string") := by
  unfold TornTail.resume readExact
  rw [if_neg (by omega)]
  simp only [bind, Except.bind, List.take_take, Nat.min_eq_left (Nat.sub_le self.missing 2)]

theorem readBulkStrings_append_payload {value : String} (hvalue : value.utf8ByteSize ≤ maxBulkBytes)
    {torn : List UInt8} (h : torn.length < value.utf8ByteSize + 2) (count : Nat) (bytes : List UInt8)
    : readBulkStrings (count + 1)
          (asBytes (String.singleton '$' ++ toString value.utf8ByteSize ++ "\r\n") ++ (torn ++ bytes))
        =
      TornTail.resume
        ⟨[], torn.take value.utf8ByteSize, value.utf8ByteSize + 2 - torn.length, count⟩ bytes := by
  have hexact : readExact (value.utf8ByteSize + 2) (torn ++ bytes)
      = (readExact (value.utf8ByteSize + 2 - torn.length) bytes).map fun (buffer, rest) =>
          (torn ++ buffer, rest) := by
    unfold readExact
    rw [List.length_append]
    by_cases hshort : torn.length + bytes.length < value.utf8ByteSize + 2
    . rw [if_pos hshort, if_pos (by omega)]
      rfl
    . rw [if_neg hshort, if_neg (by omega), List.take_append, List.drop_append,
        List.take_of_length_le (by omega), List.drop_of_length_le (by omega)]
      rfl
  unfold TornTail.resume
  rw [readBulkStrings]
  unfold readBulkString
  rw [readLine_header (by decide)]
  simp only [bind, Except.bind, isEmpty_append_crlf, Bool.false_eq_true, if_false]
  rw [bulkLength_header hvalue]
  dsimp only
  rw [hexact]
  cases readExact (value.utf8ByteSize + 2 - torn.length) bytes with
  | error error => rfl
  | ok result =>
    have hmissing : value.utf8ByteSize + 2 - torn.length - 2 = value.utf8ByteSize - torn.length := by
      omega
    simp only [Except.map, List.take_append, hmissing]
    cases fromUtf8 (torn.take value.utf8ByteSize
        ++ result.1.take (value.utf8ByteSize - torn.length)) with
    | none => rfl
    | some token => rfl

/--
Reading torn bulk strings with an array behind them.
-/
theorem readBulkStrings_append_torn {tokens : List String} {torn : List UInt8}
    (h : torn <+: asBytes (String.join (tokens.map Resp.bulkString)))
    (hne : torn ≠ asBytes (String.join (tokens.map Resp.bulkString)))
    : (∀ rest, ∃ error, readBulkStrings tokens.length (torn ++ 42 :: rest) = .error error)
        ∨ ∃ tail : TornTail, 0 < tail.missing
            ∧ ∀ bytes, readBulkStrings tokens.length (torn ++ bytes) = tail.resume bytes := by
  induction tokens generalizing torn with
  | nil =>
    have hnil : torn = [] := List.prefix_nil.mp h
    rw [hnil] at hne
    exact absurd rfl hne
  | cons token tokens ih =>
    let header := String.singleton '$' ++ toString token.utf8ByteSize
    have hsplit : asBytes (Resp.bulkString token)
        = asBytes (header ++ "\r\n") ++ asBytes (token ++ "\r\n") := asBytes_bulkString token
    rw [List.map_cons, String.join_cons, asBytes_append] at h hne
    rw [List.length_cons]
    rcases prefix_append_cases h with ⟨hstart, hstrict⟩ | ⟨rest, rfl, hrest⟩
    . rw [hsplit] at hstart hstrict
      rcases prefix_append_cases hstart with ⟨hhead, hshort⟩ | ⟨payload, rfl, hpayload⟩
      . -- The cut is inside of the header line, which now has a `*` in it.
        left
        intro rest
        rw [asBytes_crlf] at hhead hshort
        have hnotMem : lineFeed ∉ torn := by
          intro hmem
          have hmem := (prefix_of_strict_prefix_concat hhead hshort).mem hmem
          revert hmem
          apply lineFeed_notMem_asBytes
          simp only [header, String.toList_append, List.mem_append, not_or]
          exact ⟨⟨by decide, lineFeed_notMem_toString _⟩, by decide⟩
        rcases readBulkString_of_star hnotMem rest with ⟨error, herror⟩
        rw [readBulkStrings, herror]
        exact ⟨error, rfl⟩
      . -- The cut is inside of the payload, which the reader does not go into beyond its limit.
        by_cases hlimit : maxBulkBytes < token.utf8ByteSize
        . left
          intro rest
          rcases readBulkString_header_of_lt hlimit (payload ++ 42 :: rest) with ⟨error, herror⟩
          rw [List.append_assoc, readBulkStrings, herror]
          exact ⟨error, rfl⟩
        right
        have hlength : payload.length < token.utf8ByteSize + 2 := by
          have htotal : (asBytes (token ++ "\r\n")).length = token.utf8ByteSize + 2 := by
            rw [asBytes_append, List.length_append, length_asBytes]
            rfl
          rw [← htotal]
          apply Nat.lt_of_le_of_ne hpayload.length_le
          intro heq
          apply hstrict
          rw [hpayload.eq_of_length heq]
        let tail : TornTail := ⟨[], payload.take token.utf8ByteSize,
          token.utf8ByteSize + 2 - payload.length, tokens.length⟩
        refine ⟨tail, Nat.sub_pos_of_lt hlength, ?_⟩
        intro bytes
        rw [List.append_assoc]
        exact readBulkStrings_append_payload (by omega) hlength tokens.length bytes
    . by_cases hlimit : maxBulkBytes < token.utf8ByteSize
      . left
        intro after
        rcases readBulkString_of_lt hlimit (rest ++ 42 :: after) with ⟨error, herror⟩
        rw [List.append_assoc, readBulkStrings, herror]
        exact ⟨error, rfl⟩
      have hstrict : rest ≠ asBytes (String.join (tokens.map Resp.bulkString)) := by
        rintro rfl
        exact hne rfl
      have hread : ∀ bytes, readBulkStrings (tokens.length + 1)
          (asBytes (Resp.bulkString token) ++ rest ++ bytes)
            = (readBulkStrings tokens.length (rest ++ bytes)).bind fun (others, rest) =>
                .ok (token :: others, rest) := by
        intro bytes
        rw [List.append_assoc, readBulkStrings, readBulkString_bulkString (by omega)]
        rfl
      rcases ih hrest hstrict
        with hfails | ⟨tail, hmissing, htail⟩
      . left
        intro bytes
        rcases hfails bytes with ⟨error, herror⟩
        rw [hread, herror]
        exact ⟨error, rfl⟩
      . right
        refine ⟨{ tail with init := token :: tail.init }, hmissing, ?_⟩
        intro bytes
        rw [hread, htail, TornTail.resume_cons]

/--
Behind a torn entry another one is either an error or the continuation of a payload.
-/
theorem readRequest_append_torn {tokens : List String} {torn : List UInt8}
    (h : torn <+: asBytes (Resp.array tokens))
    (hstrict : torn ≠ asBytes (Resp.array tokens)) (hnonempty : torn ≠ [])
    : (∀ rest, ∃ error, readRequest (torn ++ 42 :: rest) = .error error)
        ∨ ∃ tail : TornTail, 0 < tail.missing
            ∧ ∀ bytes, readRequest (torn ++ bytes)
                = (tail.resume bytes).bind fun request => .ok (some request) := by
  let header := String.singleton '*' ++ toString tokens.length
  have hsplit : asBytes (Resp.array tokens)
      = asBytes (header ++ "\r\n") ++ asBytes (String.join (tokens.map Resp.bulkString)) :=
    asBytes_array tokens
  rw [hsplit] at h hstrict
  rcases prefix_append_cases h with ⟨hstart, hshort⟩ | ⟨payload, rfl, hpayload⟩
  . -- The cut is inside of the header line.
    left
    rw [asBytes_crlf] at hstart hshort
    have hstart := prefix_of_strict_prefix_concat hstart hshort
    have hnotMem : lineFeed ∉ torn := by
      intro hmem
      have hmem := hstart.mem hmem
      revert hmem
      apply lineFeed_notMem_asBytes
      simp only [header, String.toList_append, List.mem_append, not_or]
      exact ⟨⟨by decide, lineFeed_notMem_toString _⟩, by decide⟩
    have hstar : torn.head? = some 42 := by
      have hmarker : asBytes (String.singleton '*') = [42] := by rfl
      simp only [header, asBytes_append, hmarker, List.singleton_append] at hstart
      cases torn with
      | nil => exact absurd rfl hnonempty
      | cons byte torn =>
        rw [List.cons_append, List.cons_prefix_cons] at hstart
        rw [hstart.1]
        rfl
    exact readRequest_of_star hstar hnotMem
  . -- The header line is there.
    have hshort : payload ≠ asBytes (String.join (tokens.map Resp.bulkString)) := by
      rintro rfl
      exact hstrict rfl
    have hheader : ∀ bytes, readRequest (asBytes (header ++ "\r\n") ++ payload ++ bytes)
        = (readMultibulk (toString tokens.length) (payload ++ bytes)).bind fun request =>
            .ok (some request) := by
      intro bytes
      unfold readRequest
      rw [List.append_assoc, readLine_header (by decide)]
      simp only [bind, Except.bind, isEmpty_append_crlf, Bool.false_eq_true, if_false]
      rw [trimEnd_header, stripPrefix_append]
    by_cases hlimit : maxMultibulk < tokens.length
    . left
      intro rest
      rcases readMultibulk_of_lt hlimit (payload ++ 42 :: rest) with ⟨error, herror⟩
      rw [hheader, herror]
      exact ⟨error, rfl⟩
    have hread : ∀ bytes, readRequest (asBytes (header ++ "\r\n") ++ payload ++ bytes)
        = (readBulkStrings tokens.length (payload ++ bytes)).bind fun request =>
            .ok (some request) := by
      intro bytes
      have hmultibulk : readMultibulk (toString tokens.length) (payload ++ bytes)
          = readBulkStrings tokens.length (payload ++ bytes) := by
        unfold readMultibulk
        rw [parseUsize_toString (by unfold maxMultibulk at hlimit; omega)]
        dsimp only
        rw [if_neg (by omega)]
      rw [hheader, hmultibulk]
    rcases readBulkStrings_append_torn hpayload hshort with hfails | ⟨tail, hmissing, htail⟩
    . left
      intro rest
      rcases hfails rest with ⟨error, herror⟩
      rw [hread, herror]
      exact ⟨error, rfl⟩
    . right
      refine ⟨tail, hmissing, ?_⟩
      intro bytes
      rw [hread, htail]

end RedisClone
