import RedisClone.Server.Torn

/-!
This module contains the grammar of request arrays, independent of the reader, and the proof of what
the reader accepts in terms of it.
-/

namespace RedisClone

/--
A line and the bytes behind it: the line ends with its only line feed, or at the end of the stream.
-/
def IsLine (line rest : List UInt8) : Prop :=
  (∃ body, lineFeed ∉ body ∧ line = body ++ [lineFeed]) ∨ (lineFeed ∉ line ∧ rest = [])

/--
A decimal number, with an optional plus sign.
-/
def IsDecimal (n : Nat) (cs : List Char) : Prop :=
  ∃ digits, (cs = digits ∨ cs = '+' :: digits) ∧ digits ≠ [] ∧ digits.all Char.isDigit = true
    ∧ Nat.ofDigitChars 10 digits 0 = n

/--
A header line: without trailing white space it is a marker and a number within a limit.
-/
def IsHeader (marker : Char) (limit n : Nat) (line : List UInt8) : Prop :=
  n ≤ limit ∧ ∃ text number, asBytes text = line ∧ (trimEnd text).toList = marker :: number
    ∧ IsDecimal n number

/--
Consecutive bulk strings: a header line with the length of the token, the bytes of the token, and two
more bytes.
-/
inductive IsBulkStrings : List String → List (List UInt8) → List UInt8 → Prop where
  | nil : IsBulkStrings [] [] []
  | cons {token tokens trailer trailers body line}
    : IsHeader '$' maxBulkBytes token.utf8ByteSize (line ++ [lineFeed]) → lineFeed ∉ line
        → trailer.length = 2 → IsBulkStrings tokens trailers body
        → IsBulkStrings (token :: tokens) (trailer :: trailers)
            (line ++ [lineFeed] ++ asBytes token ++ trailer ++ body)

/--
A stream that begins with a request array: a header line with the number of tokens, and that many bulk
strings. `trailers` are the two bytes after each payload.
-/
def IsArray (input : List UInt8) (tokens : List String) (trailers : List (List UInt8))
    (rest : List UInt8) : Prop :=
  ∃ line body, input = line ++ body ++ rest ∧ IsLine line (body ++ rest)
    ∧ IsHeader '*' maxMultibulk tokens.length line ∧ IsBulkStrings tokens trailers body

/--
The line break that ends a bulk string.
-/
def crlf : List UInt8 := [13, 10]

/--
An array whose payloads are all followed by a line break.
-/
def IsWellFormedArray (input : List UInt8) (tokens : List String) (rest : List UInt8) : Prop :=
  ∃ trailers, IsArray input tokens trailers rest ∧ ∀ trailer ∈ trailers, trailer = crlf

/-
Lines and numbers.
-/

theorem splitLine_eq_iff {input line rest : List UInt8}
    : splitLine input = (line, rest) ↔ input = line ++ rest ∧ IsLine line rest := by
  constructor
  . intro h
    by_cases hmem : lineFeed ∈ input
    . rcases List.append_of_mem hmem with ⟨pre, post, rfl⟩
      induction pre generalizing line with
      | nil =>
        rw [List.nil_append, splitLine, if_pos rfl] at h
        cases h
        exact ⟨rfl, .inl ⟨[], List.not_mem_nil, rfl⟩⟩
      | cons byte pre ih =>
        rw [List.cons_append, splitLine] at h
        split at h
        . next hbyte =>
          cases h
          rw [hbyte]
          exact ⟨rfl, .inl ⟨[], List.not_mem_nil, rfl⟩⟩
        . next hbyte =>
          dsimp only at h
          cases h
          rcases ih rfl (List.mem_append_right _ List.mem_cons_self) with ⟨heq, hline⟩
          constructor
          . rw [List.cons_append, List.cons_append, ← heq]
          . rcases hline with ⟨body, hbody, hline⟩ | ⟨hline, hrest⟩
            . left
              refine ⟨byte :: body, ?_, by rw [hline]; rfl⟩
              rw [List.mem_cons, not_or]
              exact ⟨Ne.symm hbyte, hbody⟩
            . right
              refine ⟨?_, hrest⟩
              rw [List.mem_cons, not_or]
              exact ⟨Ne.symm hbyte, hline⟩
    . rw [splitLine_of_notMem hmem] at h
      cases h
      exact ⟨(List.append_nil _).symm, .inr ⟨hmem, rfl⟩⟩
  . rintro ⟨rfl, ⟨body, hbody, rfl⟩ | ⟨hline, rfl⟩⟩
    . rw [List.append_assoc]
      exact splitLine_append hbody rest
    . rw [List.append_nil]
      exact splitLine_of_notMem hline

theorem readLine_eq_ok {input rest : List UInt8} {line : String}
    : readLine input = .ok (line, rest) ↔ input = asBytes line ++ rest ∧ IsLine (asBytes line) rest
    := by
  rw [← splitLine_eq_iff]
  unfold readLine
  rcases hsplit : splitLine input with ⟨bytes, after⟩
  dsimp only
  constructor
  . intro h
    split at h
    . next text htext =>
      cases h
      rw [fromUtf8_eq_some.mp htext]
    . cases h
  . intro h
    cases h
    rw [fromUtf8_asBytes]

theorem parseDigits_eq_some {cs : List Char} {n : Nat}
    : parseDigits cs = some n
        ↔
      cs ≠ [] ∧ cs.all Char.isDigit = true ∧ Nat.ofDigitChars 10 cs 0 = n := by
  unfold parseDigits
  cases cs with
  | nil => simp
  | cons c cs =>
    rw [if_neg (by simp)]
    split
    . next hdigits => simp [hdigits]
    . next hdigits =>
      constructor
      . intro h
        cases h
      . intro h
        exact absurd h.2.1 hdigits

theorem parseUsize_eq_some {s : String} {n : Nat} (hn : n < 2 ^ 64)
    : parseUsize s = some n ↔ IsDecimal n s.toList := by
  have hbound : ∀ {cs : List Char},
      ((parseDigits cs).bind fun m => if m < 2 ^ 64 then some m else none) = some n
        ↔ parseDigits cs = some n := by
    intro cs
    constructor
    . intro h
      rw [Option.bind_eq_some_iff] at h
      rcases h with ⟨m, hm, h⟩
      split at h
      . cases h
        exact hm
      . cases h
    . intro h
      rw [h, Option.bind_some, if_pos hn]
  unfold parseUsize IsDecimal
  split
  . next cs hcs =>
    rw [hbound, parseDigits_eq_some, hcs]
    constructor
    . intro h
      exact ⟨cs, .inr rfl, h⟩
    . rintro ⟨digits, hdigits | hdigits, hne, hall, hvalue⟩
      . rw [← hdigits] at hall
        simp at hall
      . cases hdigits
        exact ⟨hne, hall, hvalue⟩
  . next hplus =>
    rw [hbound, parseDigits_eq_some]
    constructor
    . intro h
      exact ⟨s.toList, .inl rfl, h⟩
    . rintro ⟨digits, hdigits | hdigits, h⟩
      . rw [hdigits]
        exact h
      . exact absurd hdigits (hplus digits)

theorem stripPrefix_eq_some {c : Char} {s text : String}
    : stripPrefix c s = some text ↔ s.toList = c :: text.toList := by
  unfold stripPrefix
  split
  . next d cs hcs =>
    rw [hcs]
    constructor
    . intro h
      split at h
      . next hd =>
        cases h
        rw [hd, String.toList_ofList]
      . cases h
    . intro h
      rw [List.cons.injEq] at h
      rw [if_pos h.1, h.2, String.ofList_toList]
  . next hnil =>
    rw [hnil]
    constructor
    . intro h
      cases h
    . intro h
      cases h

/-
Bulk strings.
-/

theorem bulkLength_eq_ok {text : String} {n : Nat}
    : bulkLength text = .ok n ↔ IsHeader '$' maxBulkBytes n (asBytes text) := by
  have hlimit : maxBulkBytes < 2 ^ 64 := by decide
  constructor
  . intro h
    unfold bulkLength at h
    split at h
    . cases h
    . next number hnumber =>
      split at h
      . cases h
      . next m hm =>
        split at h
        . cases h
        . next hle =>
          cases h
          refine ⟨by omega, text, number.toList, rfl, stripPrefix_eq_some.mp hnumber, ?_⟩
          rwa [← parseUsize_eq_some (by omega)]
  . rintro ⟨hle, text', number, htext, htrim, hdecimal⟩
    rw [asBytes_inj] at htext
    subst htext
    have hstrip : stripPrefix '$' (trimEnd text') = some (String.ofList number) := by
      rw [stripPrefix_eq_some, String.toList_ofList]
      exact htrim
    have hparse : parseUsize (String.ofList number) = some n := by
      rw [parseUsize_eq_some (by omega), String.toList_ofList]
      exact hdecimal
    unfold bulkLength
    rw [hstrip]
    dsimp only
    rw [hparse]
    exact if_neg (by omega)

theorem readExact_eq_ok {length : Nat} {input buffer rest : List UInt8}
    : readExact length input = .ok (buffer, rest)
        ↔
      input = buffer ++ rest ∧ buffer.length = length := by
  unfold readExact
  constructor
  . intro h
    split at h
    . cases h
    . next hle =>
      cases h
      constructor
      . exact (List.take_append_drop length input).symm
      . rw [List.length_take]
        omega
  . rintro ⟨rfl, rfl⟩
    rw [if_neg (by rw [List.length_append]; omega), List.take_left, List.drop_left]

theorem readBulkString_eq_ok {input rest : List UInt8} {token : String}
    : readBulkString input = .ok (token, rest)
        ↔
      ∃ line trailer, input = line ++ [lineFeed] ++ asBytes token ++ trailer ++ rest
        ∧ IsHeader '$' maxBulkBytes token.utf8ByteSize (line ++ [lineFeed]) ∧ lineFeed ∉ line
        ∧ trailer.length = 2 := by
  constructor
  . intro h
    unfold readBulkString at h
    rw [bind_eq_ok] at h
    rcases h with ⟨⟨header, afterHeader⟩, hheader, h⟩
    dsimp only at h
    split at h
    . cases h
    . rw [bind_eq_ok] at h
      rcases h with ⟨length, hlength, h⟩
      rw [bind_eq_ok] at h
      rcases h with ⟨⟨buffer, afterBuffer⟩, hbuffer, h⟩
      dsimp only at h
      split at h
      . next text htext =>
        cases h
        rw [readLine_eq_ok] at hheader
        rw [readExact_eq_ok] at hbuffer
        rw [bulkLength_eq_ok] at hlength
        rw [fromUtf8_eq_some] at htext
        rcases hheader with ⟨rfl, hline⟩
        rcases hbuffer with ⟨rfl, hbuffer⟩
        have hbytes : token.utf8ByteSize = length := by
          rw [← length_asBytes, htext, List.length_take]
          omega
        rcases hline with ⟨line, hline, heq⟩ | ⟨-, hnil⟩
        . refine ⟨line, buffer.drop length, ?_, ?_, hline, ?_⟩
          . rw [← heq, htext, List.append_assoc (asBytes header), List.take_append_drop,
              List.append_assoc]
          . rw [hbytes, ← heq]
            exact hlength
          . rw [List.length_drop]
            omega
        . -- A header that ends the stream leaves nothing for the payload.
          rw [List.append_eq_nil_iff] at hnil
          rw [hnil.1] at hbuffer
          simp at hbuffer
      . cases h
  . rintro ⟨line, trailer, rfl, hheader, hline, htrailer⟩
    have hlength := hheader
    rcases hheader with ⟨-, text, number, htext, -, -⟩
    rw [← htext, ← bulkLength_eq_ok] at hlength
    have hread : readLine (line ++ [lineFeed] ++ asBytes token ++ trailer ++ rest)
        = .ok (text, asBytes token ++ trailer ++ rest) := by
      rw [readLine_eq_ok, htext]
      constructor
      . simp only [List.append_assoc]
      . exact .inl ⟨line, hline, rfl⟩
    have hempty : text.isEmpty = false := by
      cases hcase : text.isEmpty with
      | false => rfl
      | true =>
        have hnil : text = "" := by simpa using hcase
        rw [hnil] at htext
        simp at htext
    have hexact : readExact (token.utf8ByteSize + 2) (asBytes token ++ trailer ++ rest)
        = .ok (asBytes token ++ trailer, rest) := by
      rw [readExact_eq_ok]
      refine ⟨rfl, ?_⟩
      rw [List.length_append, length_asBytes, htrailer]
    have htake : (asBytes token ++ trailer).take token.utf8ByteSize = asBytes token := by
      rw [← length_asBytes, List.take_left]
    unfold readBulkString
    rw [hread]
    simp only [bind, Except.bind, hempty, Bool.false_eq_true, if_false]
    rw [hlength]
    dsimp only
    rw [hexact]
    dsimp only
    rw [htake, fromUtf8_asBytes]

theorem readBulkStrings_eq_ok {count : Nat} {input rest : List UInt8} {tokens : List String}
    : readBulkStrings count input = .ok (tokens, rest)
        ↔
      tokens.length = count
        ∧ ∃ trailers body, input = body ++ rest ∧ IsBulkStrings tokens trailers body := by
  induction count generalizing input tokens with
  | zero =>
    constructor
    . intro h
      cases h
      exact ⟨rfl, [], [], rfl, .nil⟩
    . rintro ⟨hlength, trailers, body, rfl, hbody⟩
      rw [List.length_eq_zero_iff] at hlength
      subst hlength
      cases hbody
      rfl
  | succ count ih =>
    constructor
    . intro h
      rw [readBulkStrings, bind_eq_ok] at h
      rcases h with ⟨⟨token, afterToken⟩, htoken, h⟩
      rw [bind_eq_ok] at h
      rcases h with ⟨⟨others, afterOthers⟩, hothers, h⟩
      cases h
      rw [ih] at hothers
      rw [readBulkString_eq_ok] at htoken
      rcases hothers with ⟨hlength, trailers, body, rfl, hbody⟩
      rcases htoken with ⟨line, trailer, rfl, hheader, hline, htrailer⟩
      refine ⟨by rw [List.length_cons, hlength], trailer :: trailers, _, ?_,
        .cons hheader hline htrailer hbody⟩
      simp only [List.append_assoc]
    . rintro ⟨hlength, trailers, body, rfl, hbody⟩
      cases hbody with
      | nil => cases hlength
      | @cons token tokens trailer trailers body line hheader hline htrailer hbody =>
        rw [List.length_cons, Nat.add_right_cancel_iff] at hlength
        have htoken : readBulkString
            (line ++ [lineFeed] ++ asBytes token ++ trailer ++ body ++ rest)
              = .ok (token, body ++ rest) := by
          rw [readBulkString_eq_ok]
          exact ⟨line, trailer, by simp only [List.append_assoc], hheader, hline, htrailer⟩
        have hothers := ih.mpr ⟨hlength, trailers, body, rfl, hbody⟩
        rw [readBulkStrings, htoken]
        simp only [bind, Except.bind, hothers]

/-
Request arrays.
-/

theorem toList_of_asBytes_cons {s : String} {bytes : List UInt8} (h : asBytes s = 42 :: bytes)
    : ∃ cs, s.toList = '*' :: cs := by
  rw [asBytes_eq_flatMap] at h
  cases hlist : s.toList with
  | nil =>
    rw [hlist] at h
    cases h
  | cons c cs =>
    rw [hlist, List.flatMap_cons] at h
    have hmem : (42 : UInt8) ∈ String.utf8EncodeChar c := by
      cases hencode : String.utf8EncodeChar c with
      | nil => exact absurd hencode String.utf8EncodeChar_ne_nil
      | cons byte others =>
        rw [hencode, List.cons_append, List.cons.injEq] at h
        rw [h.1]
        exact List.mem_cons_self
    have hc : c.toNat = 42 := eq_of_mem_utf8EncodeChar hmem (by decide)
    have hstar : c = '*' := by
      rw [← Char.ofNat_toNat c, hc]
    exact ⟨cs, by rw [hstar]⟩

theorem trimEnd_star {s : String} {cs : List Char} (h : s.toList = '*' :: cs)
    : ∃ text, stripPrefix '*' (trimEnd s) = some text := by
  have hhead : (trimEnd s).toList.head? = some '*' := by
    unfold trimEnd
    rw [String.toList_ofList, h]
    cases htrim : ('*' :: cs).rdropWhile isWhitespace with
    | nil =>
      rw [List.rdropWhile_eq_nil_iff] at htrim
      have hspace := htrim '*' List.mem_cons_self
      cases hspace
    | cons c trimmed =>
      rcases List.rdropWhile_prefix isWhitespace (l := '*' :: cs) with ⟨spaces, hspaces⟩
      rw [htrim, List.cons_append, List.cons.injEq] at hspaces
      rw [hspaces.1]
      rfl
  rcases hlist : (trimEnd s).toList with _ | ⟨c, text⟩
  . rw [hlist] at hhead
    cases hhead
  . rw [hlist, List.head?_cons, Option.some.injEq] at hhead
    refine ⟨String.ofList text, ?_⟩
    rw [stripPrefix_eq_some, hlist, hhead, String.toList_ofList]

theorem readMultibulk_eq_ok {count : String} {input rest : List UInt8} {tokens : List String}
    : readMultibulk count input = .ok (tokens, rest)
        ↔
      tokens.length ≤ maxMultibulk ∧ IsDecimal tokens.length count.toList
        ∧ ∃ trailers body, input = body ++ rest ∧ IsBulkStrings tokens trailers body := by
  have hlimit : maxMultibulk < 2 ^ 64 := by decide
  constructor
  . intro h
    unfold readMultibulk at h
    split at h
    . cases h
    . next n hn =>
      split at h
      . cases h
      . next hle =>
        rw [readBulkStrings_eq_ok] at h
        rcases h with ⟨rfl, hbody⟩
        rw [parseUsize_eq_some (by omega)] at hn
        exact ⟨by omega, hn, hbody⟩
  . rintro ⟨hle, hdecimal, hbody⟩
    rw [← parseUsize_eq_some (by omega)] at hdecimal
    unfold readMultibulk
    rw [hdecimal]
    dsimp only
    rw [if_neg (by omega), readBulkStrings_eq_ok]
    exact ⟨rfl, hbody⟩

/--
What the reader accepts of a stream that starts with `*`.
-/
theorem readRequest_eq_ok {input rest : List UInt8} {tokens : List String}
    (hstar : input.head? = some 42)
    : readRequest input = .ok (some (tokens, rest)) ↔ ∃ trailers, IsArray input tokens trailers rest
    := by
  constructor
  . intro h
    unfold readRequest at h
    rw [bind_eq_ok] at h
    rcases h with ⟨⟨line, afterLine⟩, hread, h⟩
    dsimp only at h
    rw [readLine_eq_ok] at hread
    rcases hread with ⟨rfl, hline⟩
    split at h
    . cases h
    . split at h
      . next count hcount =>
        rw [bind_eq_ok] at h
        rcases h with ⟨request, hrequest, h⟩
        cases h
        rw [readMultibulk_eq_ok] at hrequest
        rcases hrequest with ⟨hle, hdecimal, trailers, body, rfl, hbody⟩
        refine ⟨trailers, asBytes line, body, ?_, hline, ?_, hbody⟩
        . rw [List.append_assoc]
        . exact ⟨hle, line, count.toList, rfl, stripPrefix_eq_some.mp hcount, hdecimal⟩
      . -- The line starts with `*`, so it is not read as an inline command.
        next hnone =>
        exfalso
        cases hbytes : asBytes line with
        | nil =>
          rw [hbytes] at hline hstar
          rcases hline with ⟨body, -, hnil⟩ | ⟨-, hnil⟩
          . simp at hnil
          . rw [hnil] at hstar
            cases hstar
        | cons byte bytes =>
          rw [hbytes, List.cons_append, List.head?_cons, Option.some.injEq] at hstar
          rw [hstar] at hbytes
          rcases toList_of_asBytes_cons hbytes with ⟨cs, hcs⟩
          rcases trimEnd_star hcs with ⟨text, htext⟩
          rw [htext] at hnone
          cases hnone
  . rintro ⟨trailers, line, body, rfl, hline, ⟨hle, text, number, rfl, htrim, hdecimal⟩, hbody⟩
    have hread : readLine (asBytes text ++ body ++ rest) = .ok (text, body ++ rest) := by
      rw [readLine_eq_ok, List.append_assoc]
      exact ⟨rfl, hline⟩
    have hstrip : stripPrefix '*' (trimEnd text) = some (String.ofList number) := by
      rw [stripPrefix_eq_some, String.toList_ofList]
      exact htrim
    have hempty : text.isEmpty = false := by
      cases hcase : text.isEmpty with
      | false => rfl
      | true =>
        have hnil : text = "" := by simpa using hcase
        rw [hnil] at htrim
        cases htrim
    have hmultibulk : readMultibulk (String.ofList number) (body ++ rest) = .ok (tokens, rest) := by
      rw [readMultibulk_eq_ok, String.toList_ofList]
      exact ⟨hle, hdecimal, trailers, body, rfl, hbody⟩
    unfold readRequest
    rw [hread]
    simp only [bind, Except.bind, hempty, Bool.false_eq_true, if_false]
    rw [hstrip]
    dsimp only
    rw [hmultibulk]

theorem readRequest_ne_none {input : List UInt8} (hstar : input.head? = some 42)
    : readRequest input ≠ .ok none := by
  intro h
  unfold readRequest at h
  rw [bind_eq_ok] at h
  rcases h with ⟨⟨line, rest⟩, hread, h⟩
  dsimp only at h
  split at h
  . next hempty =>
    rw [readLine_eq_ok] at hread
    rcases hread with ⟨rfl, hline⟩
    have hnil : line = "" := by simpa using hempty
    subst hnil
    rcases hline with ⟨body, -, hbody⟩ | ⟨-, rfl⟩
    . simp at hbody
    . cases hstar
  . split at h
    . rw [bind_eq_ok] at h
      rcases h with ⟨request, -, h⟩
      cases h
    . cases h

theorem isLine_unique {line line' rest rest' : List UInt8} (h : line ++ rest = line' ++ rest')
    (hline : IsLine line rest) (hline' : IsLine line' rest')
    : line = line' ∧ rest = rest' := by
  have hsplit := splitLine_eq_iff.mpr ⟨rfl, hline⟩
  have hsplit' := splitLine_eq_iff.mpr ⟨rfl, hline'⟩
  rw [h, hsplit'] at hsplit
  cases hsplit
  exact ⟨rfl, rfl⟩

/--
The two bytes behind each payload are determined by the bytes and the tokens.
-/
theorem isBulkStrings_unique {tokens : List String} {trailers trailers' : List (List UInt8)}
    {body body' rest rest' : List UInt8} (h : body ++ rest = body' ++ rest')
    (hbody : IsBulkStrings tokens trailers body) (hbody' : IsBulkStrings tokens trailers' body')
    : trailers = trailers' := by
  induction hbody generalizing trailers' body' with
  | nil =>
    cases hbody'
    rfl
  | @cons token tokens trailer trailers body line hheader hline htrailer hbody ih =>
    cases hbody' with
    | @cons _ _ trailer' trailers' body' line' hheader' hline' htrailer' hbody' =>
      have hlines : IsLine (line ++ [lineFeed]) (asBytes token ++ trailer ++ body ++ rest) := by
        exact .inl ⟨line, hline, rfl⟩
      have hlines' : IsLine (line' ++ [lineFeed]) (asBytes token ++ trailer' ++ body' ++ rest') := by
        exact .inl ⟨line', hline', rfl⟩
      have hrest := (isLine_unique (by simpa using h) hlines hlines').2
      simp only [List.append_assoc, List.append_cancel_left_eq] at hrest
      have htrailers := List.append_inj hrest (by omega)
      rw [htrailers.1, ih htrailers.2 hbody']

theorem isArray_unique {input rest rest' : List UInt8} {tokens : List String}
    {trailers trailers' : List (List UInt8)} (h : IsArray input tokens trailers rest)
    (h' : IsArray input tokens trailers' rest')
    : trailers = trailers' := by
  rcases h with ⟨line, body, rfl, hline, -, hbody⟩
  rcases h' with ⟨line', body', heq, hline', -, hbody'⟩
  rw [List.append_assoc, List.append_assoc] at heq
  exact isBulkStrings_unique (isLine_unique heq hline hline').2 hbody hbody'

/--
Reading an array accepts nothing but well-formed arrays and fails on every other stream.
-/
def AcceptsOnlyArrays (input : List UInt8) : Prop :=
  (∀ tokens rest, readRequest input = .ok (some (tokens, rest)) → IsWellFormedArray input tokens rest)
    ∧
  ((¬ ∃ tokens rest, IsWellFormedArray input tokens rest) → ∃ e, readRequest input = .error e)

/--
The reader never looks at the two bytes behind a payload. It accepts nothing but well-formed arrays on
exactly the streams where these bytes are a line break.
-/
theorem readRequest_acceptsOnlyArrays_iff (input : List UInt8) (hstar : input.head? = some 42)
    : AcceptsOnlyArrays input
        ↔
      ∀ tokens trailers rest, IsArray input tokens trailers rest →
        ∀ trailer ∈ trailers, trailer = crlf := by
  constructor
  . rintro ⟨haccepts, -⟩ tokens trailers rest harray
    rcases haccepts tokens rest ((readRequest_eq_ok hstar).mpr ⟨trailers, harray⟩)
      with ⟨trailers', harray', hcrlf⟩
    rw [isArray_unique harray harray']
    exact hcrlf
  . intro hcrlf
    have haccepts : ∀ tokens rest, readRequest input = .ok (some (tokens, rest))
        → IsWellFormedArray input tokens rest := by
      intro tokens rest h
      rcases (readRequest_eq_ok hstar).mp h with ⟨trailers, harray⟩
      exact ⟨trailers, harray, hcrlf tokens trailers rest harray⟩
    refine ⟨haccepts, ?_⟩
    intro hmalformed
    cases hread : readRequest input with
    | error e => exact ⟨e, rfl⟩
    | ok request =>
      exfalso
      cases request with
      | none => exact readRequest_ne_none hstar hread
      | some request =>
        apply hmalformed
        exact ⟨request.1, request.2, haccepts _ _ hread⟩

theorem isArray_ping {trailer : List UInt8} (h : trailer.length = 2)
    : IsArray (asBytes "*1\r\n$4\r\nPING" ++ trailer) ["PING"] [trailer] [] := by
  have hheader : IsHeader '*' maxMultibulk 1 (asBytes "*1\r\n") := by
    refine ⟨by decide, "*1\r\n", ['1'], rfl, by decide, ['1'], .inl rfl, ?_⟩
    decide
  have hbulk : IsHeader '$' maxBulkBytes "PING".utf8ByteSize (asBytes "$4\r" ++ [lineFeed]) := by
    refine ⟨by decide, "$4\r\n", ['4'], by decide, by decide, ['4'], .inl rfl, ?_⟩
    decide
  refine ⟨asBytes "*1\r\n", _, ?_, ?_, hheader, .cons hbulk (by decide) h .nil⟩
  . have hsplit : asBytes "*1\r\n$4\r\nPING"
        = asBytes "*1\r\n" ++ (asBytes "$4\r" ++ [lineFeed] ++ asBytes "PING") := by
      decide
    rw [hsplit]
    simp only [List.append_assoc, List.append_nil]
  . exact .inl ⟨asBytes "*1\r", by decide, by decide⟩

/--
A stream in which the condition holds.
-/
theorem readRequest_acceptsOnlyArrays_iff_ping
    : AcceptsOnlyArrays (asBytes "*1\r\n$4\r\nPING" ++ crlf) := by
  apply (readRequest_acceptsOnlyArrays_iff (asBytes "*1\r\n$4\r\nPING" ++ crlf) rfl).mpr
  intro tokens trailers rest harray
  have hping := @isArray_ping crlf rfl
  have hread := (readRequest_eq_ok rfl).mpr ⟨trailers, harray⟩
  rw [(readRequest_eq_ok rfl).mpr ⟨_, hping⟩] at hread
  cases hread
  rw [isArray_unique harray hping]
  simp

/--
A payload that is followed by something else than a line break.
-/
theorem readRequest_accepts_trailing_bytes
    : ¬ AcceptsOnlyArrays (asBytes "*1\r\n$4\r\nPINGXY") := by
  have hinput : asBytes "*1\r\n$4\r\nPINGXY" = asBytes "*1\r\n$4\r\nPING" ++ asBytes "XY" := by
    decide
  have hping := @isArray_ping (asBytes "XY") rfl
  rw [hinput]
  rintro ⟨haccepts, -⟩
  rcases haccepts ["PING"] [] ((readRequest_eq_ok rfl).mpr ⟨_, hping⟩) with ⟨trailers, harray, hcrlf⟩
  rw [← isArray_unique hping harray] at hcrlf
  have hxy := hcrlf (asBytes "XY") List.mem_cons_self
  revert hxy
  decide

end RedisClone
