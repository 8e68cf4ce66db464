import RedisClone.Server.RoundTrip

/-!
This module contains the proof that of a truncated append-only file all complete entries are read back
and nothing else: a strict prefix of an entry is an error.
-/

namespace RedisClone

/-
Prefixes.
-/

theorem prefix_append_cases {α : Type} {torn first second : List α} (h : torn <+: first ++ second)
    : (torn <+: first ∧ torn ≠ first) ∨ ∃ rest, torn = first ++ rest ∧ rest <+: second := by
  by_cases heq : torn = first
  . right
    refine ⟨[], ?_, List.nil_prefix⟩
    rw [heq, List.append_nil]
  . rcases List.prefix_or_prefix_of_prefix h (List.prefix_append first second) with hle | hle
    . left
      exact ⟨hle, heq⟩
    . right
      rcases hle with ⟨rest, rfl⟩
      rw [List.prefix_append_right_inj] at h
      exact ⟨rest, rfl, h⟩

theorem prefix_of_strict_prefix_concat {α : Type} {torn init : List α} {last : α}
    (h : torn <+: init ++ [last]) (hne : torn ≠ init ++ [last]) : torn <+: init := by
  rcases prefix_append_cases h with ⟨hinit, -⟩ | ⟨rest, rfl, hrest⟩
  . exact hinit
  . cases rest with
    | nil => simp
    | cons c rest =>
      rcases hrest with ⟨tail, htail⟩
      simp only [List.cons_append, List.cons.injEq, List.append_eq_nil_iff] at htail
      rcases htail with ⟨rfl, rfl, -⟩
      exact absurd rfl hne

/-
Reading what is left of a header line.
-/

theorem splitLine_of_notMem {input : List UInt8} (h : lineFeed ∉ input)
    : splitLine input = (input, []) := by
  induction input with
  | nil => rfl
  | cons byte input ih =>
    rw [List.mem_cons, not_or] at h
    rw [splitLine, if_neg (Ne.symm h.1), ih h.2]

theorem asBytes_crlf (s : String)
    : asBytes (s ++ "\r\n") = asBytes (s ++ "\r") ++ [lineFeed] := by
  rw [asBytes_append s, asBytes_append s, List.append_assoc]
  rfl

theorem readExact_nil (length : Nat) : readExact (length + 2) [] = .error .unexpectedEof := by
  unfold readExact
  apply if_pos
  simp

/--
A bulk string cannot be read from a single line, whatever the line is.
-/
theorem readBulkString_of_notMem {input : List UInt8} (h : lineFeed ∉ input)
    : ∃ error, readBulkString input = .error error := by
  unfold readBulkString readLine
  rw [splitLine_of_notMem h]
  dsimp only
  cases fromUtf8 input with
  | none => exact ⟨_, rfl⟩
  | some header =>
    simp only [bind, Except.bind]
    split
    . exact ⟨_, rfl⟩
    . cases bulkLength header with
      | error error => exact ⟨_, rfl⟩
      | ok length =>
        dsimp only
        rw [readExact_nil]
        exact ⟨_, rfl⟩

theorem readBulkString_torn {value : String} (hvalue : value.utf8ByteSize ≤ maxBulkBytes)
    {torn : List UInt8} (h : torn <+: asBytes (Resp.bulkString value))
    (hne : torn ≠ asBytes (Resp.bulkString value))
    : ∃ error, readBulkString torn = .error error := by
  let header := String.singleton '$' ++ toString value.utf8ByteSize
  have hsplit : asBytes (Resp.bulkString value)
      = asBytes (header ++ "\r\n") ++ asBytes (value ++ "\r\n") := asBytes_bulkString value
  rw [hsplit] at h hne
  rcases prefix_append_cases h with ⟨hstart, hstrict⟩ | ⟨payload, rfl, hpayload⟩
  . -- The cut is inside of the header line.
    apply readBulkString_of_notMem
    rw [asBytes_crlf] at hstart hstrict
    intro hmem
    have hmem := (prefix_of_strict_prefix_concat hstart hstrict).mem hmem
    revert hmem
    apply lineFeed_notMem_asBytes
    rw [String.toList_append, List.mem_append, not_or]
    refine ⟨?_, by decide⟩
    simp only [header, String.toList_append, List.mem_append, not_or]
    exact ⟨by decide, lineFeed_notMem_toString _⟩
  . -- The cut is inside of the payload, so there are not enough bytes.
    have hlength : payload.length < value.utf8ByteSize + 2 := by
      have hle := hpayload.length_le
      have htotal : (asBytes (value ++ "\r\n")).length = value.utf8ByteSize + 2 := by
        rw [asBytes_append, List.length_append, length_asBytes]
        rfl
      have hneq : payload.length ≠ (asBytes (value ++ "\r\n")).length := by
        intro heq
        rw [hpayload.eq_of_length heq] at hne
        exact hne rfl
      omega
    have hexact : readExact (value.utf8ByteSize + 2) payload = .error .unexpectedEof := by
      unfold readExact
      rw [if_pos hlength]
    unfold readBulkString
    rw [readLine_header (by decide)]
    simp only [bind, Except.bind, isEmpty_append_crlf, Bool.false_eq_true, if_false]
    rw [bulkLength_header hvalue]
    dsimp only
    rw [hexact]
    exact ⟨_, rfl⟩

theorem readBulkStrings_torn {tokens : List String}
    (htokens : ∀ token ∈ tokens, token.utf8ByteSize ≤ maxBulkBytes) {torn : List UInt8}
    (h : torn <+: asBytes (String.join (tokens.map Resp.bulkString)))
    (hne : torn ≠ asBytes (String.join (tokens.map Resp.bulkString)))
    : ∃ error, readBulkStrings tokens.length torn = .error error := by
  induction tokens generalizing torn with
  | nil =>
    have hnil : torn = [] := List.prefix_nil.mp h
    rw [hnil] at hne
    exact absurd rfl hne
  | cons token tokens ih =>
    have htoken := htokens token List.mem_cons_self
    rw [List.map_cons, String.join_cons, asBytes_append] at h hne
    rw [List.length_cons, readBulkStrings]
    rcases prefix_append_cases h with ⟨hstart, hstrict⟩ | ⟨rest, rfl, hrest⟩
    . rcases readBulkString_torn htoken hstart hstrict with ⟨error, herror⟩
      rw [herror]
      exact ⟨_, rfl⟩
    . rw [readBulkString_bulkString htoken]
      have hstrict : rest ≠ asBytes (String.join (tokens.map Resp.bulkString)) := by
        rintro rfl
        exact hne rfl
      rcases ih (fun other hmem => htokens other (List.mem_cons_of_mem _ hmem)) hrest hstrict
        with ⟨error, herror⟩
      simp only [bind, Except.bind, herror]
      exact ⟨_, rfl⟩

/-
Reading what is left of the first line of an array.
-/

theorem ofDigitChars_prefix_pos {n : Nat} (hn : 0 < n) {digits : List Char}
    (h : digits <+: Nat.toDigits 10 n) (hne : digits ≠ [])
    : 0 < Nat.ofDigitChars 10 digits 0 := by
  induction n using Nat.strongRecOn generalizing digits with
  | ind n ih =>
    by_cases heq : digits = Nat.toDigits 10 n
    . rw [heq, Nat.ofDigitChars_ten_toDigits]
      exact hn
    . rw [Nat.toDigits_eq_if (by omega)] at h heq
      split at h
      . next hlt =>
        rw [if_pos hlt] at heq
        have hnil : digits <+: [] := by
          apply prefix_of_strict_prefix_concat h heq
        exact absurd (List.prefix_nil.mp hnil) hne
      . next hge =>
        rw [if_neg hge] at heq
        apply ih (n / 10) (by omega) (by omega) _ hne
        exact prefix_of_strict_prefix_concat h heq

theorem parseUsize_prefix_pos {n : Nat} (hn : 0 < n) {digits : List Char}
    (h : digits <+: Nat.toDigits 10 n) {m : Nat} (hm : parseUsize (String.ofList digits) = some m)
    : 0 < m := by
  have hdigits : parseDigits digits = some m := by
    unfold parseUsize at hm
    rw [String.toList_ofList] at hm
    split at hm
    . next cs =>
      have hplus : '+' ∈ Nat.toDigits 10 n := h.mem List.mem_cons_self
      have hdigit := Nat.isDigit_of_mem_toDigits (by omega) (by omega) hplus
      simp at hdigit
    . rw [Option.bind_eq_some_iff] at hm
      rcases hm with ⟨value, hvalue, hm⟩
      split at hm
      . rw [hvalue, ← hm]
      . cases hm
  unfold parseDigits at hdigits
  split at hdigits
  . cases hdigits
  . next hempty =>
    split at hdigits
    . cases hdigits
      apply ofDigitChars_prefix_pos hn h
      simpa using hempty
    . cases hdigits

theorem asBytes_ofList_ascii {cs : List Char} (h : ∀ c ∈ cs, c.toNat < 128)
    : asBytes (String.ofList cs) = cs.map fun c => c.toNat.toUInt8 := by
  rw [asBytes_ofList]
  induction cs with
  | nil => rfl
  | cons c cs ih =>
    have hc : String.utf8EncodeChar c = [c.toNat.toUInt8] := by
      have hlt := h c List.mem_cons_self
      unfold String.utf8EncodeChar
      dsimp only
      rw [if_pos (by exact Nat.le_of_lt_succ hlt)]
      rfl
    rw [List.flatMap_cons, hc, List.map_cons, ih fun d hd => h d (List.mem_cons_of_mem _ hd)]
    rfl

theorem exists_ofList_of_prefix {cs : List Char} (h : ∀ c ∈ cs, c.toNat < 128)
    {torn : List UInt8} (htorn : torn <+: asBytes (String.ofList cs))
    : ∃ cs', cs' <+: cs ∧ torn = asBytes (String.ofList cs') := by
  rw [asBytes_ofList_ascii h, List.prefix_map_iff] at htorn
  rcases htorn with ⟨cs', hstart, rfl⟩
  refine ⟨cs', hstart, ?_⟩
  rw [asBytes_ofList_ascii]
  intro c hc
  exact h c (hstart.mem hc)

theorem readMultibulk_nil {digits : List Char} {n : Nat} (hn : 0 < n)
    (h : digits <+: Nat.toDigits 10 n)
    : ∃ error, readMultibulk (String.ofList digits) [] = .error error := by
  unfold readMultibulk
  cases hparse : parseUsize (String.ofList digits) with
  | none => exact ⟨_, rfl⟩
  | some m =>
    dsimp only
    split
    . exact ⟨_, rfl⟩
    . have hpos := parseUsize_prefix_pos hn h hparse
      rcases Nat.exists_eq_add_of_lt hpos with ⟨count, rfl⟩
      rcases readBulkString_of_notMem (List.not_mem_nil : lineFeed ∉ []) with ⟨error, herror⟩
      rw [Nat.zero_add, readBulkStrings, herror]
      exact ⟨_, rfl⟩

theorem trimEnd_torn_header {n : Nat} {cs : List Char}
    (h : cs <+: Nat.toDigits 10 n ++ ['\r'])
    : ∃ digits, digits <+: Nat.toDigits 10 n
        ∧ trimEnd (String.ofList ('*' :: cs)) = String.ofList ('*' :: digits) := by
  have hself : ∀ digits, digits <+: Nat.toDigits 10 n
      → trimEnd (String.ofList ('*' :: digits)) = String.ofList ('*' :: digits) := by
    intro digits hdigits
    apply trimEnd_eq_self
    intro c hc
    rw [String.toList_ofList] at hc
    rcases List.mem_cons.mp (List.mem_of_mem_getLast? hc) with rfl | hmem
    . decide
    . apply isWhitespace_of_isDigit
      exact Nat.isDigit_of_mem_toDigits (by omega) (by omega) (hdigits.mem hmem)
  by_cases heq : cs = Nat.toDigits 10 n ++ ['\r']
  . refine ⟨Nat.toDigits 10 n, List.prefix_refl _, ?_⟩
    have hdigits := hself (Nat.toDigits 10 n) (List.prefix_refl _)
    unfold trimEnd at hdigits ⊢
    rw [String.toList_ofList] at hdigits ⊢
    rw [heq, ← List.cons_append, List.rdropWhile_concat_pos _ _ _ (by decide), hdigits]
  . refine ⟨cs, prefix_of_strict_prefix_concat h heq, ?_⟩
    apply hself
    exact prefix_of_strict_prefix_concat h heq

theorem isAscii_of_mem_header {n : Nat} {c : Char} (h : c ∈ '*' :: (Nat.toDigits 10 n ++ ['\r']))
    : c.toNat < 128 := by
  rcases List.mem_cons.mp h with rfl | h
  . decide
  . rcases List.mem_append.mp h with h | h
    . have hdigit := Nat.isDigit_of_mem_toDigits (by omega) (by omega) h
      have hrange : 48 ≤ c.val.toNat ∧ c.val.toNat ≤ 57 := by
        simpa [Char.isDigit, UInt32.le_iff_toNat_le] using hdigit
      have hval : c.toNat = c.val.toNat := rfl
      omega
    . rw [List.mem_singleton.mp h]
      decide

/--
A strict prefix of an entry is an error.
-/
theorem readRequest_torn {tokens : List String} (hne : tokens ≠ []) (htokens : Readable tokens)
    {torn : List UInt8} (h : torn <+: asBytes (Resp.array tokens))
    (hstrict : torn ≠ asBytes (Resp.array tokens)) (hnonempty : torn ≠ [])
    : ∃ error, readRequest torn = .error error := by
  let header := String.singleton '*' ++ toString tokens.length
  have hcount : 0 < tokens.length := List.length_pos_of_ne_nil hne
  have hsplit : asBytes (Resp.array tokens)
      = asBytes (header ++ "\r\n") ++ asBytes (String.join (tokens.map Resp.bulkString)) :=
    asBytes_array tokens
  rw [hsplit] at h hstrict
  rcases prefix_append_cases h with ⟨hstart, hshort⟩ | ⟨rest, rfl, hrest⟩
  . -- The cut is inside of the header line: what is left of it announces at least one bulk string.
    rw [asBytes_crlf] at hstart hshort
    have hheader : header ++ "\r"
        = String.ofList ('*' :: (Nat.toDigits 10 tokens.length ++ ['\r'])) := by
      apply String.toList_inj.mp
      simp only [header, String.toList_append, toString_toList, String.toList_ofList]
      rfl
    have hstart := prefix_of_strict_prefix_concat hstart hshort
    rw [hheader] at hstart
    rcases exists_ofList_of_prefix (fun c hc => isAscii_of_mem_header hc) hstart
      with ⟨cs, hcs, rfl⟩
    cases cs with
    | nil => exact absurd rfl hnonempty
    | cons c cs =>
      rw [List.cons_prefix_cons] at hcs
      rcases hcs with ⟨rfl, hcs⟩
      rcases trimEnd_torn_header hcs with ⟨digits, hdigits, htrim⟩
      have hnotMem : lineFeed ∉ asBytes (String.ofList ('*' :: cs)) := by
        apply lineFeed_notMem_asBytes
        rw [String.toList_ofList, List.mem_cons, not_or]
        refine ⟨by decide, ?_⟩
        intro hmem
        rcases List.mem_append.mp (hcs.mem hmem) with hmem | hmem
        . have hdigit := Nat.isDigit_of_mem_toDigits (by omega) (by omega) hmem
          simp at hdigit
        . simp at hmem
      have hempty : (String.ofList ('*' :: cs)).isEmpty = false := by simp
      have hstrip : stripPrefix '*' (String.ofList ('*' :: digits))
          = some (String.ofList digits) := by
        unfold stripPrefix
        rw [String.toList_ofList]
        rfl
      rcases readMultibulk_nil hcount hdigits with ⟨error, herror⟩
      unfold readRequest readLine
      rw [splitLine_of_notMem hnotMem]
      simp only [fromUtf8_asBytes, bind, Except.bind, hempty, Bool.false_eq_true, if_false]
      rw [htrim, hstrip]
      dsimp only
      rw [herror]
      exact ⟨_, rfl⟩
  . -- The header line is there, but the bulk strings it announces are not.
    have hshort : rest ≠ asBytes (String.join (tokens.map Resp.bulkString)) := by
      rintro rfl
      exact hstrict rfl
    rcases readBulkStrings_torn htokens.bytes hrest hshort with ⟨error, herror⟩
    have hlimit := htokens.count
    have hmultibulk : readMultibulk (toString tokens.length) rest = .error error := by
      unfold readMultibulk
      rw [parseUsize_toString (by unfold maxMultibulk at hlimit; omega)]
      dsimp only
      rw [if_neg (by omega), herror]
    unfold readRequest
    rw [readLine_header (by decide)]
    simp only [bind, Except.bind, isEmpty_append_crlf, Bool.false_eq_true, if_false]
    rw [trimEnd_header, stripPrefix_append]
    dsimp only
    rw [hmultibulk]
    exact ⟨_, rfl⟩

/-
Reading a whole file.
-/

/--
Calling `readRequest` until it reports the end of the stream or an error.
-/
inductive ReadsAll : List UInt8 → List (List String) → Except ReadError Unit → Prop where
  | done {input} : readRequest input = .ok none → ReadsAll input [] (.ok ())
  | failed {input error} : readRequest input = .error error → ReadsAll input [] (.error error)
  | request {input tokens rest requests outcome}
    : readRequest input = .ok (some (tokens, rest)) → ReadsAll rest requests outcome
        → ReadsAll input (tokens :: requests) outcome

/--
The entries whose bytes are all among the first `cut` bytes of the log.
-/
def entriesWithin (cut : Nat) : List (List String) → List (List String)
  | [] => []
  | entry :: entries =>
    if (asBytes (Resp.array entry)).length ≤ cut then
      entry :: entriesWithin (cut - (asBytes (Resp.array entry)).length) entries
    else
      []

theorem readRequest_nil : readRequest [] = .ok none := by
  rfl

theorem logBytes_cons (entry : List String) (entries : List (List String))
    : logBytes (entry :: entries) = asBytes (Resp.array entry) ++ logBytes entries := by
  exact List.flatMap_cons

theorem readsAll_prefix {entries : List (List String)} (hne : ∀ entry ∈ entries, entry ≠ [])
    (hlimits : ∀ entry ∈ entries, Readable entry) {input : List UInt8}
    (h : input <+: logBytes entries)
    : (input = logBytes (entriesWithin input.length entries)
          → ReadsAll input (entriesWithin input.length entries) (.ok ()))
        ∧ (input ≠ logBytes (entriesWithin input.length entries)
          → ∃ error, ReadsAll input (entriesWithin input.length entries) (.error error)) := by
  induction entries generalizing input with
  | nil =>
    have hnil : input = [] := List.prefix_nil.mp h
    subst hnil
    constructor
    . intro _
      exact .done readRequest_nil
    . intro hneq
      exact absurd rfl hneq
  | cons entry entries ih =>
    have hentry := hlimits entry List.mem_cons_self
    rw [logBytes_cons] at h
    rcases prefix_append_cases h with ⟨hstart, hstrict⟩ | ⟨rest, rfl, hrest⟩
    . -- Not even the first entry is complete.
      have hlt : ¬ (asBytes (Resp.array entry)).length ≤ input.length := by
        intro hle
        exact hstrict (hstart.eq_of_length_le hle)
      rw [entriesWithin, if_neg hlt]
      constructor
      . intro hnil
        rw [hnil]
        exact .done readRequest_nil
      . intro hnonempty
        rcases readRequest_torn (hne entry List.mem_cons_self) hentry hstart hstrict hnonempty
          with ⟨error, herror⟩
        exact ⟨error, .failed herror⟩
    . have hle : (asBytes (Resp.array entry)).length
          ≤ (asBytes (Resp.array entry) ++ rest).length := by
        rw [List.length_append]
        omega
      have hcut : (asBytes (Resp.array entry) ++ rest).length
          - (asBytes (Resp.array entry)).length = rest.length := by
        rw [List.length_append]
        omega
      rw [entriesWithin, if_pos hle, hcut, logBytes_cons, List.append_cancel_left_eq]
      have hread := readRequest_array hentry rest
      have hentries := ih (fun other hmem => hne other (List.mem_cons_of_mem _ hmem))
        (fun other hmem => hlimits other (List.mem_cons_of_mem _ hmem)) hrest
      constructor
      . intro heq
        exact .request hread (hentries.1 heq)
      . intro hneq
        have hrestNe : rest ≠ logBytes (entriesWithin rest.length entries) := by
          intro heq
          exact hneq (congrArg _ heq)
        rcases hentries.2 hrestNe with ⟨error, herror⟩
        exact ⟨error, .request hread herror⟩

theorem readsAll_unique {input : List UInt8} {requests requests' : List (List String)}
    {outcome outcome' : Except ReadError Unit} (h : ReadsAll input requests outcome)
    (h' : ReadsAll input requests' outcome') : requests = requests' ∧ outcome = outcome' := by
  induction h generalizing requests' with
  | done hread =>
    cases h' with
    | done _ => exact ⟨rfl, rfl⟩
    | failed hread' => simp [hread] at hread'
    | request hread' _ => simp [hread] at hread'
  | failed hread =>
    cases h' with
    | done hread' => simp [hread] at hread'
    | failed hread' =>
      rw [hread] at hread'
      cases hread'
      exact ⟨rfl, rfl⟩
    | request hread' _ => simp [hread] at hread'
  | request hread _ ih =>
    cases h' with
    | done hread' => simp [hread] at hread'
    | failed hread' => simp [hread] at hread'
    | request hread' hrest' =>
      rw [hread] at hread'
      cases hread'
      rcases ih hrest' with ⟨rfl, rfl⟩
      exact ⟨rfl, rfl⟩

/--
Of every prefix of a log, exactly the entries that lie entirely inside of it are read, followed by the
end of the stream if it ends with an entry and by an error otherwise. No strict prefix of an entry is
read as a request.
-/
theorem truncated_log_recovers (entries : List (List String)) (hne : ∀ entry ∈ entries, entry ≠ [])
    (hlimits : ∀ entry ∈ entries, Readable entry)
    : (∀ input, input <+: logBytes entries →
        (∃ outcome, ReadsAll input (entriesWithin input.length entries) outcome
          ∧ (outcome = .ok () ↔ input = logBytes (entriesWithin input.length entries)))
          ∧ ∀ requests outcome, ReadsAll input requests outcome
              → requests = entriesWithin input.length entries)
        ∧
      ∀ entry ∈ entries, ∀ torn, torn <+: asBytes (Resp.array entry)
        → torn ≠ asBytes (Resp.array entry) → torn ≠ []
        → ∃ error, readRequest torn = .error error := by
  constructor
  . intro input hstart
    have hread := readsAll_prefix hne hlimits hstart
    have hexists : ∃ outcome, ReadsAll input (entriesWithin input.length entries) outcome
        ∧ (outcome = .ok () ↔ input = logBytes (entriesWithin input.length entries)) := by
      by_cases heq : input = logBytes (entriesWithin input.length entries)
      . exact ⟨.ok (), hread.1 heq, iff_of_true rfl heq⟩
      . rcases hread.2 heq with ⟨error, herror⟩
        refine ⟨.error error, herror, iff_of_false ?_ heq⟩
        intro h
        cases h
    refine ⟨hexists, ?_⟩
    intro requests outcome hrequests
    rcases hexists with ⟨outcome', hrequests', -⟩
    exact (readsAll_unique hrequests hrequests').1
  . intro entry hmem torn hstart hstrict hnonempty
    exact readRequest_torn (hne entry hmem) (hlimits entry hmem) hstart hstrict hnonempty

/--
A log of two entries, cut inside of the last payload.
-/
theorem truncated_log_recovers_payload
    : let entries := [["SET", "k", "v"], ["DEL", "k"]]
      ∀ input, input <+: logBytes entries →
        ∃ outcome, ReadsAll input (entriesWithin input.length entries) outcome
          ∧ (outcome = .ok () ↔ input = logBytes (entriesWithin input.length entries)) := by
  intro entries input hstart
  have hlimits : ∀ entry ∈ entries, Readable entry := by
    simp only [entries, List.mem_cons, List.not_mem_nil, or_false]
    rintro entry (rfl | rfl)
    all_goals
      constructor
      . decide
      . unfold maxBulkBytes
        decide
  exact ((truncated_log_recovers entries (by decide) hlimits).1 input hstart).1

end RedisClone
