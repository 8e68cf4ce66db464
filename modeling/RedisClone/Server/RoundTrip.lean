import RedisClone.Resp
import RedisClone.Server.Replay

/-!
This module contains the round trip of the append-only file: the reader of requests gets back the
entries that were appended, one after the other.
-/

namespace RedisClone

theorem lineFeed_notMem_asBytes {s : String} (h : '\n' ∉ s.toList) : lineFeed ∉ asBytes s := by
  intro hmem
  rw [asBytes_eq_flatMap, List.mem_flatMap] at hmem
  rcases hmem with ⟨c, hc, hbyte⟩
  have hcode : c.toNat = '\n'.toNat := eq_of_mem_utf8EncodeChar hbyte (by decide)
  rw [Char.toNat_inj.mp hcode] at hc
  exact h hc

theorem splitLine_append {line : List UInt8} (h : lineFeed ∉ line) (rest : List UInt8)
    : splitLine (line ++ lineFeed :: rest) = (line ++ [lineFeed], rest) := by
  induction line with
  | nil => rfl
  | cons byte line ih =>
    rw [List.mem_cons, not_or] at h
    rw [List.cons_append, splitLine, if_neg (Ne.symm h.1), ih h.2]
    rfl

theorem readLine_append {s : String} (h : '\n' ∉ s.toList) (rest : List UInt8)
    : readLine (asBytes (s ++ "\r\n") ++ rest) = .ok (s ++ "\r\n", rest) := by
  have hcr : lineFeed ∉ asBytes (s ++ "\r") := by
    apply lineFeed_notMem_asBytes
    simpa using h
  have hsplit : asBytes (s ++ "\r\n") ++ rest = asBytes (s ++ "\r") ++ lineFeed :: rest := by
    have hcrlf : asBytes "\r\n" = asBytes "\r" ++ [lineFeed] := by rfl
    rw [asBytes_append, asBytes_append, hcrlf]
    simp
  have hline : asBytes (s ++ "\r") ++ [lineFeed] = asBytes (s ++ "\r\n") := by
    have hcrlf : asBytes "\r\n" = asBytes "\r" ++ [lineFeed] := by rfl
    rw [asBytes_append, asBytes_append, hcrlf]
    simp
  unfold readLine
  rw [hsplit, splitLine_append hcr, hline]
  simp only [fromUtf8_asBytes]

theorem toString_toList (n : Nat) : (toString n).toList = Nat.toDigits 10 n := by
  simp

theorem lineFeed_notMem_toString (n : Nat) : '\n' ∉ (toString n).toList := by
  rw [toString_toList]
  intro hmem
  have := Nat.isDigit_of_mem_toDigits (by omega) (by omega) hmem
  simp at this

theorem trimEnd_header (marker : Char) (n : Nat)
    : trimEnd (String.singleton marker ++ toString n ++ "\r\n")
        =
      String.singleton marker ++ toString n := by
  rw [trimEnd_append_crlf]
  apply trimEnd_eq_self
  intro c hc
  have hlast : (String.singleton marker ++ toString n).toList.getLast?
      = (Nat.toDigits 10 n).getLast? := by
    rw [String.toList_append, toString_toList, List.getLast?_append_of_ne_nil _ Nat.toDigits_ne_nil]
  rw [hlast] at hc
  apply isWhitespace_of_isDigit
  exact Nat.isDigit_of_mem_toDigits (by omega) (by omega) (List.mem_of_mem_getLast? hc)

theorem readLine_header {marker : Char} (h : marker ≠ '\n') (n : Nat) (rest : List UInt8)
    : readLine (asBytes (String.singleton marker ++ toString n ++ "\r\n") ++ rest)
        =
      .ok (String.singleton marker ++ toString n ++ "\r\n", rest) := by
  apply readLine_append
  rw [String.toList_append, List.mem_append, not_or]
  refine ⟨?_, lineFeed_notMem_toString n⟩
  simpa using Ne.symm h

theorem isEmpty_append_crlf (s : String) : (s ++ "\r\n").isEmpty = false := by
  simp

theorem bulkLength_header {n : Nat} (h : n ≤ maxBulkBytes)
    : bulkLength (String.singleton '$' ++ toString n ++ "\r\n") = .ok n := by
  unfold maxBulkBytes at h
  unfold bulkLength
  rw [trimEnd_header, stripPrefix_append]
  simp only
  rw [parseUsize_toString (by omega)]
  exact if_neg (by unfold maxBulkBytes; omega)

theorem asBytes_bulkString (value : String)
    : asBytes (Resp.bulkString value)
        =
      asBytes (String.singleton '$' ++ toString value.utf8ByteSize ++ "\r\n")
        ++ asBytes (value ++ "\r\n") := by
  unfold Resp.bulkString
  simp only [asBytes_append, List.append_assoc]
  rfl

theorem asBytes_array (tokens : List String)
    : asBytes (Resp.array tokens)
        =
      asBytes (String.singleton '*' ++ toString tokens.length ++ "\r\n")
        ++ asBytes (String.join (tokens.map Resp.bulkString)) := by
  rw [Resp.array_eq, asBytes_append]
  rfl

theorem readBulkString_bulkString {value : String} (h : value.utf8ByteSize ≤ maxBulkBytes)
    (rest : List UInt8)
    : readBulkString (asBytes (Resp.bulkString value) ++ rest) = .ok (value, rest) := by
  have hlength : (asBytes (value ++ "\r\n")).length = value.utf8ByteSize + 2 := by
    rw [asBytes_append, List.length_append, length_asBytes]
    rfl
  have hexact : readExact (value.utf8ByteSize + 2) (asBytes (value ++ "\r\n") ++ rest)
      = .ok (asBytes (value ++ "\r\n"), rest) := by
    unfold readExact
    rw [if_neg (by rw [List.length_append, hlength]; omega), ← hlength, List.take_left,
      List.drop_left]
  have htake : (asBytes (value ++ "\r\n")).take value.utf8ByteSize = asBytes value := by
    rw [asBytes_append, ← length_asBytes, List.take_left]
  unfold readBulkString
  rw [asBytes_bulkString, List.append_assoc, readLine_header (by decide)]
  simp only [bind, Except.bind, isEmpty_append_crlf, Bool.false_eq_true, if_false]
  rw [bulkLength_header h]
  simp only [hexact, htake, fromUtf8_asBytes]

theorem readBulkStrings_bulkStrings {tokens : List String}
    (h : ∀ token ∈ tokens, token.utf8ByteSize ≤ maxBulkBytes) (rest : List UInt8)
    : readBulkStrings tokens.length (asBytes (String.join (tokens.map Resp.bulkString)) ++ rest)
        =
      .ok (tokens, rest) := by
  induction tokens with
  | nil => rfl
  | cons token tokens ih =>
    rw [List.map_cons, String.join_cons, asBytes_append, List.append_assoc, List.length_cons,
      readBulkStrings, readBulkString_bulkString (h token List.mem_cons_self)]
    have hrest := ih fun other hmem => h other (List.mem_cons_of_mem _ hmem)
    simp only [bind, Except.bind, hrest]

/--
The limits of the reader on a request.
-/
structure Readable (tokens : List String) : Prop where
  count : tokens.length ≤ maxMultibulk
  bytes : ∀ token ∈ tokens, token.utf8ByteSize ≤ maxBulkBytes

instance (tokens : List String) : Decidable (Readable tokens) :=
  decidable_of_iff
    (tokens.length ≤ maxMultibulk ∧ ∀ token ∈ tokens, token.utf8ByteSize ≤ maxBulkBytes)
    ⟨fun h => ⟨h.1, h.2⟩, fun h => ⟨h.count, h.bytes⟩⟩

/--
The reader gets back an entry of the append-only file.
-/
theorem readRequest_array {tokens : List String} (h : Readable tokens) (rest : List UInt8)
    : readRequest (asBytes (Resp.array tokens) ++ rest) = .ok (some (tokens, rest)) := by
  have hcount := h.count
  unfold maxMultibulk at hcount
  have hmultibulk : readMultibulk (toString tokens.length)
      (asBytes (String.join (tokens.map Resp.bulkString)) ++ rest) = .ok (tokens, rest) := by
    unfold readMultibulk
    rw [parseUsize_toString (by omega)]
    simp only
    rw [if_neg (by unfold maxMultibulk; omega), readBulkStrings_bulkStrings h.bytes]
  unfold readRequest
  rw [asBytes_array, List.append_assoc, readLine_header (by decide)]
  simp only [bind, Except.bind, isEmpty_append_crlf, Bool.false_eq_true, if_false]
  rw [trimEnd_header, stripPrefix_append]
  simp only [hmultibulk]

/-
Reading a whole file.
-/

theorem length_splitLine (input : List UInt8)
    : (splitLine input).1.length + (splitLine input).2.length = input.length := by
  induction input with
  | nil => rfl
  | cons byte input ih =>
    rw [splitLine]
    split
    . simp only [List.length_cons, List.length_nil]
      omega
    . simp only [List.length_cons]
      omega

theorem length_readLine {input rest : List UInt8} {line : String}
    (h : readLine input = .ok (line, rest)) : line.utf8ByteSize + rest.length = input.length := by
  unfold readLine at h
  dsimp only at h
  split at h
  . next hline =>
    cases h
    rw [← length_asBytes, fromUtf8_eq_some.mp hline]
    exact length_splitLine input
  . cases h

theorem length_readBulkString {input rest : List UInt8} {token : String}
    (h : readBulkString input = .ok (token, rest)) : rest.length ≤ input.length := by
  unfold readBulkString at h
  rw [bind_eq_ok] at h
  rcases h with ⟨⟨header, afterHeader⟩, hheader, h⟩
  have hlength := length_readLine hheader
  simp only at h
  split at h
  . cases h
  . simp only [bind_eq_ok] at h
    rcases h with ⟨length, -, ⟨buffer, afterBuffer⟩, hexact, h⟩
    unfold readExact at hexact
    split at hexact
    . cases hexact
    . cases hexact
      simp only at h
      split at h
      . cases h
        rw [List.length_drop]
        omega
      . cases h

theorem length_readBulkStrings {count : Nat} {input rest : List UInt8} {tokens : List String}
    (h : readBulkStrings count input = .ok (tokens, rest)) : rest.length ≤ input.length := by
  induction count generalizing input tokens with
  | zero =>
    cases h
    exact Nat.le_refl _
  | succ count ih =>
    simp only [readBulkStrings, bind_eq_ok] at h
    rcases h with ⟨⟨token, afterToken⟩, htoken, ⟨others, afterOthers⟩, hothers, h⟩
    cases h
    exact Nat.le_trans (ih hothers) (length_readBulkString htoken)

theorem length_readMultibulk {count : String} {input rest : List UInt8} {tokens : List String}
    (h : readMultibulk count input = .ok (tokens, rest)) : rest.length ≤ input.length := by
  unfold readMultibulk at h
  generalize maxMultibulk = limit at h
  split at h
  . cases h
  . split at h
    . cases h
    . exact length_readBulkStrings h

theorem length_readRequest {input rest : List UInt8} {tokens : List String}
    (h : readRequest input = .ok (some (tokens, rest))) : rest.length < input.length := by
  unfold readRequest at h
  rw [bind_eq_ok] at h
  rcases h with ⟨⟨line, afterLine⟩, hline, h⟩
  have hlength := length_readLine hline
  simp only at h
  split at h
  . cases h
  . next hne =>
    have hpos : 0 < line.utf8ByteSize := by
      simpa [Nat.pos_iff_ne_zero, String.utf8ByteSize_eq_zero_iff] using hne
    split at h
    . rw [bind_eq_ok] at h
      rcases h with ⟨⟨request, afterRequest⟩, hrequest, h⟩
      cases h
      have hrest := length_readMultibulk hrequest
      omega
    . simp only [Except.ok.injEq, Option.some.injEq, Prod.mk.injEq] at h
      rw [← h.2]
      omega

/--
The requests of a file, up to its end or to the first malformed one.
-/
def requests (rounds : Nat) (input : List UInt8) : List (List String) :=
  match rounds with
  | 0 => []
  | rounds + 1 =>
    match readRequest input with
    | .ok (some (tokens, rest)) => tokens :: requests rounds rest
    | _ => []

/--
More rounds than bytes change nothing.
-/
theorem requests_rounds {rounds rounds' : Nat} {input : List UInt8} (h : input.length < rounds)
    (h' : input.length < rounds') : requests rounds input = requests rounds' input := by
  induction rounds generalizing rounds' input with
  | zero => omega
  | succ rounds ih =>
    cases rounds' with
    | zero => omega
    | succ rounds' =>
      unfold requests
      split
      . next tokens rest hread =>
        have hlength := length_readRequest hread
        exact congrArg _ (ih (by omega) (by omega))
      . rfl

def requestsOf (input : List UInt8) : List (List String) := requests (input.length + 1) input

theorem requestsOf_of_read {input rest : List UInt8} {tokens : List String}
    (h : readRequest input = .ok (some (tokens, rest)))
    : requestsOf input = tokens :: requestsOf rest := by
  have hlength := length_readRequest h
  unfold requestsOf
  rw [requests, h]
  exact congrArg _ (requests_rounds hlength (Nat.lt_succ_self _))

theorem requestsOf_of_error {input : List UInt8} {error : ReadError}
    (h : readRequest input = .error error)
    : requestsOf input = [] := by
  unfold requestsOf
  rw [requests, h]

theorem requestsOf_of_end {input : List UInt8} (h : readRequest input = .ok none)
    : requestsOf input = [] := by
  unfold requestsOf
  rw [requests, h]

/--
The bytes of a log.
-/
def logBytes (entries : List (List String)) : List UInt8 :=
  entries.flatMap fun tokens => asBytes (Resp.array tokens)

theorem logBytes_append (entries entries' : List (List String))
    : logBytes (entries ++ entries') = logBytes entries ++ logBytes entries' := by
  exact List.flatMap_append

theorem append_eq_logBytes (tokens : List String) (entries : List (List String))
    : Aof.append tokens (logBytes entries) = logBytes (entries ++ [tokens]) := by
  rw [logBytes_append]
  simp [Aof.append, logBytes]

theorem requestsOf_logBytes_append {entries : List (List String)}
    (h : ∀ entry ∈ entries, Readable entry) (rest : List UInt8)
    : requestsOf (logBytes entries ++ rest) = entries ++ requestsOf rest := by
  induction entries with
  | nil => rfl
  | cons entry entries ih =>
    have hread : readRequest (logBytes (entry :: entries) ++ rest)
        = .ok (some (entry, logBytes entries ++ rest)) := by
      rw [← readRequest_array (h entry List.mem_cons_self), logBytes, List.flatMap_cons,
        List.append_assoc]
      rfl
    rw [requestsOf_of_read hread, ih fun other hmem => h other (List.mem_cons_of_mem _ hmem)]
    rfl

theorem requestsOf_logBytes {entries : List (List String)} (h : ∀ entry ∈ entries, Readable entry)
    : requestsOf (logBytes entries) = entries := by
  have hrest := requestsOf_logBytes_append h []
  rw [List.append_nil] at hrest
  rw [hrest]
  exact List.append_nil entries

/-
Replaying a whole file.
-/

/--
Dispatch requests one after the other, each in its own surroundings.
-/
def applyAll (envs : Nat → Env) : List (List String) → Database → Database
  | [], db => db
  | tokens :: requests, db =>
    applyAll (fun i => envs (i + 1)) requests (dispatch (envs 0) tokens db).1

theorem replayLoop_eq (rounds : Nat) (envs : Nat → Env) (input : List UInt8) (db : Database)
    (count : Nat)
    : replayLoop rounds envs input db count
        =
      (applyAll envs (requests rounds input) db, count + (requests rounds input).length) := by
  induction rounds generalizing envs input db count with
  | zero => rfl
  | succ rounds ih =>
    unfold replayLoop requests
    rcases hread : readRequest input with error | _ | ⟨tokens, rest⟩
    . rfl
    . rfl
    . simp only [ih, applyAll, List.length_cons, Nat.add_assoc, Nat.add_comm 1]

/--
Replay dispatches the requests of the file, with logging suppressed.
-/
theorem replayAof_eq (envs : Nat → Env) (file : List UInt8) (db : Database)
    : replayAof envs file db
        =
      ((applyAll envs (requestsOf file) db.beginReplay).endReplay, (requestsOf file).length) := by
  unfold replayAof
  rw [replayLoop_eq, Nat.zero_add]
  rfl

end RedisClone
