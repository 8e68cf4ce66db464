import RedisClone.Server.Grammar
import RedisClone.Server.Pipeline
import RedisClone.Command.Dispatch

/-!
This module contains the proof of which logged entries the reader gets back. Arrays are read within
limits that lines of words do not have, and the log is always read back as arrays.
-/

namespace RedisClone

/-
Beyond the limits.
-/

theorem isDecimal_toString {m n : Nat} (h : IsDecimal m (toString n).toList)
    : m = n := by
  rcases h with ⟨digits, hdigits, -, -, hvalue⟩
  rw [toString_toList] at hdigits
  rcases hdigits with rfl | hplus
  . have hparse := parseDigits_toDigits n
    rw [parseDigits_eq_some] at hparse
    rw [← hvalue, hparse.2.2]
  . exfalso
    have hmem : '+' ∈ Nat.toDigits 10 n := by
      rw [hplus]
      exact List.mem_cons_self
    have hdigit := Nat.isDigit_of_mem_toDigits (by omega) (by omega) hmem
    cases hdigit

theorem bulkLength_header_of_lt {n : Nat} (h : maxBulkBytes < n)
    : ∃ e, bulkLength (String.singleton '$' ++ toString n ++ "\r\n") = .error e := by
  cases hlength : bulkLength (String.singleton '$' ++ toString n ++ "\r\n") with
  | error e => exact ⟨e, rfl⟩
  | ok m =>
    exfalso
    rw [bulkLength_eq_ok] at hlength
    rcases hlength with ⟨hle, text, number, htext, htrim, hdecimal⟩
    rw [asBytes_inj] at htext
    rw [htext, trimEnd_header, String.toList_append, String.toList_singleton,
      List.singleton_append, List.cons.injEq] at htrim
    rw [← htrim.2] at hdecimal
    rw [isDecimal_toString hdecimal] at hle
    omega

theorem readBulkString_header_of_lt {n : Nat} (h : maxBulkBytes < n) (rest : List UInt8)
    : ∃ e, readBulkString (asBytes (String.singleton '$' ++ toString n ++ "\r\n") ++ rest)
        = .error e := by
  rcases bulkLength_header_of_lt h with ⟨e, hlength⟩
  refine ⟨e, ?_⟩
  unfold readBulkString
  rw [readLine_header (by decide)]
  simp only [bind, Except.bind, isEmpty_append_crlf, Bool.false_eq_true, if_false]
  rw [hlength]

theorem readBulkString_of_lt {value : String} (h : maxBulkBytes < value.utf8ByteSize)
    (rest : List UInt8)
    : ∃ e, readBulkString (asBytes (Resp.bulkString value) ++ rest) = .error e := by
  rw [asBytes_bulkString, List.append_assoc]
  exact readBulkString_header_of_lt h _

theorem readBulkStrings_of_lt {tokens : List String}
    (h : ∃ token ∈ tokens, maxBulkBytes < token.utf8ByteSize) (rest : List UInt8)
    : ∃ e, readBulkStrings tokens.length (asBytes (String.join (tokens.map Resp.bulkString)) ++ rest)
        = .error e := by
  induction tokens with
  | nil => simp at h
  | cons token tokens ih =>
    rw [List.map_cons, String.join_cons, asBytes_append, List.append_assoc, List.length_cons,
      readBulkStrings]
    by_cases htoken : maxBulkBytes < token.utf8ByteSize
    . rcases readBulkString_of_lt htoken
        (asBytes (String.join (tokens.map Resp.bulkString)) ++ rest) with ⟨e, he⟩
      rw [he]
      exact ⟨e, rfl⟩
    . have hothers : ∃ token ∈ tokens, maxBulkBytes < token.utf8ByteSize := by
        rcases h with ⟨other, hmem, hother⟩
        rcases List.mem_cons.mp hmem with rfl | hmem
        . exact absurd hother htoken
        . exact ⟨other, hmem, hother⟩
      rcases ih hothers with ⟨e, he⟩
      rw [readBulkString_bulkString (by omega)]
      simp only [bind, Except.bind]
      rw [he]
      exact ⟨e, rfl⟩

theorem readMultibulk_of_lt {n : Nat} (h : maxMultibulk < n) (input : List UInt8)
    : ∃ e, readMultibulk (toString n) input = .error e := by
  cases hread : readMultibulk (toString n) input with
  | error e => exact ⟨e, rfl⟩
  | ok request =>
    exfalso
    rw [readMultibulk_eq_ok] at hread
    rcases hread with ⟨hle, hdecimal, -⟩
    rw [isDecimal_toString hdecimal] at hle
    omega

theorem readMultibulk_of_not_readable {tokens : List String} (h : ¬ Readable tokens)
    (rest : List UInt8)
    : ∃ e, readMultibulk (toString tokens.length)
        (asBytes (String.join (tokens.map Resp.bulkString)) ++ rest) = .error e := by
  by_cases hcount : tokens.length ≤ maxMultibulk
  . have htoken : ∃ token ∈ tokens, maxBulkBytes < token.utf8ByteSize := by
      by_contra hnone
      apply h
      refine ⟨hcount, ?_⟩
      intro token hmem
      by_contra hlt
      exact hnone ⟨token, hmem, by omega⟩
    rcases readBulkStrings_of_lt htoken rest with ⟨e, he⟩
    have hbound : tokens.length < 2 ^ 64 := by
      unfold maxMultibulk at hcount
      omega
    refine ⟨e, ?_⟩
    unfold readMultibulk
    rw [parseUsize_toString hbound]
    dsimp only
    rw [if_neg (by omega), he]
  . exact readMultibulk_of_lt (by omega) _

/--
An entry beyond the limits stops the reader, whatever follows it.
-/
theorem readRequest_of_not_readable {tokens : List String} (h : ¬ Readable tokens)
    (rest : List UInt8)
    : ∃ e, readRequest (asBytes (Resp.array tokens) ++ rest) = .error e := by
  rcases readMultibulk_of_not_readable h rest with ⟨e, he⟩
  refine ⟨e, ?_⟩
  unfold readRequest
  rw [asBytes_array, List.append_assoc, readLine_header (by decide)]
  simp only [bind, Except.bind, isEmpty_append_crlf, Bool.false_eq_true, if_false]
  rw [trimEnd_header, stripPrefix_append]
  simp only [he]

theorem readRequest_array_iff (tokens : List String)
    : (∀ rest, readRequest (asBytes (Resp.array tokens) ++ rest) = .ok (some (tokens, rest)))
        ↔
      Readable tokens := by
  constructor
  . intro hread
    by_contra h
    rcases readRequest_of_not_readable h [] with ⟨e, he⟩
    rw [hread] at he
    cases he
  . intro h rest
    exact readRequest_array h rest

theorem readable_of_read_array {input rest : List UInt8} {tokens : List String}
    (hstar : input.head? = some 42) (h : readRequest input = .ok (some (tokens, rest)))
    : Readable tokens := by
  rw [readRequest_eq_ok hstar] at h
  rcases h with ⟨trailers, line, body, -, -, hheader, hbody⟩
  refine ⟨hheader.1, ?_⟩
  clear hheader
  induction hbody with
  | nil =>
    intro token hmem
    cases hmem
  | cons hbulk _ _ _ ih =>
    intro token hmem
    rcases List.mem_cons.mp hmem with rfl | hmem
    . exact hbulk.1
    . exact ih token hmem

/-
What is logged.
-/

/--
What `dispatch` logs for a command is within the limits of the reader: the tokens of the command, and
for `SPOP` the key and the member it picks.
-/
def LogsWithinLimits (env : Env) (command : Command) (tokens : List String) (db : Database) : Prop :=
  match command with
  | .sPop key =>
    key.utf8ByteSize ≤ maxBulkBytes
      ∧ ∀ member, (Db.spop env key db.store).2 = .ok (some member) →
          member.utf8ByteSize ≤ maxBulkBytes
  | _ => Readable tokens

theorem readable_logEntry_iff {env : Env} {command : Command} {tokens entry : List String}
    {db : Database} (h : logEntry env command tokens db = some entry)
    : Readable entry ↔ LogsWithinLimits env command tokens db := by
  by_cases hspop : ∃ key, command = .sPop key
  . rcases hspop with ⟨key, rfl⟩
    simp only [logEntry] at h
    split at h
    . next member hmember =>
      cases h
      have hcount : 3 ≤ maxMultibulk := by decide
      have hname : "SREM".utf8ByteSize ≤ maxBulkBytes := by decide
      simp only [LogsWithinLimits, hmember]
      constructor
      . intro hreadable
        refine ⟨hreadable.bytes key (by simp), ?_⟩
        intro other hother
        cases hother
        exact hreadable.bytes member (by simp)
      . rintro ⟨hkey, hmembers⟩
        refine ⟨hcount, ?_⟩
        simp only [List.mem_cons, List.not_mem_nil, or_false, forall_eq_or_imp, forall_eq]
        exact ⟨hname, hkey, hmembers member rfl⟩
    . cases h
  . have hne : ∀ key, command ≠ .sPop key := fun key heq => hspop ⟨key, heq⟩
    rw [logEntry_of_not_spop hne] at h
    split at h
    . cases h
      unfold LogsWithinLimits
      split
      . exact absurd rfl (hne _)
      . rfl
    . cases h

theorem dispatch_aof {env : Env} {command : Command} {tokens entry : List String} {db : Database}
    {log : List UInt8} (hparse : Command.parse tokens = .ok command)
    (hentry : logEntry env command tokens db = some entry) (haof : db.aof = some log)
    (hreplaying : db.replaying = false)
    : (dispatch env tokens db).1.aof = some (log ++ asBytes (Resp.array entry)) := by
  rw [dispatch_of_parse_ok hparse, hentry]
  simp [Database.logOptional, Database.logWrite, Aof.append, haof, hreplaying]

theorem logsWithinLimits_of_read_array {input rest : List UInt8} {tokens : List String}
    (hstar : input.head? = some 42) (hread : readRequest input = .ok (some (tokens, rest)))
    {command : Command} (hspop : ∀ key, command ≠ .sPop key) (env : Env) (db : Database)
    : LogsWithinLimits env command tokens db := by
  have hreadable := readable_of_read_array hstar hread
  unfold LogsWithinLimits
  split
  . exact absurd rfl (hspop _)
  . exact hreadable

/--
A request that was read and whose command succeeds as a write is logged as an entry that the reader
gets back, and then goes on behind it, exactly if the entry is within the limits for arrays. Only
lines of words, and what they have stored in a set, can be beyond them.
-/
theorem logged_entry_decodes_iff {input rest : List UInt8} {tokens : List String}
    (hread : readRequest input = .ok (some (tokens, rest))) {command : Command}
    (hparse : Command.parse tokens = .ok command) {env : Env} {db : Database}
    {entry : List String} (hentry : logEntry env command tokens db = some entry)
    {log : List UInt8} (haof : db.aof = some log) (hreplaying : db.replaying = false)
    : (dispatch env tokens db).1.aof = some (log ++ asBytes (Resp.array entry))
        ∧
      ((∀ later, readRequest (asBytes (Resp.array entry) ++ later) = .ok (some (entry, later)))
          ↔
        LogsWithinLimits env command tokens db)
        ∧
      (input.head? = some 42 → (∀ key, command ≠ .sPop key)
        → LogsWithinLimits env command tokens db) := by
  refine ⟨?_, ?_, ?_⟩
  . exact dispatch_aof hparse hentry haof hreplaying
  . rw [readRequest_array_iff, readable_logEntry_iff hentry]
  . intro hstar hspop
    exact logsWithinLimits_of_read_array hstar hread hspop env db

/--
A request that is logged and read back.
-/
theorem logged_entry_decodes_iff_set
    : readRequest (asBytes (Resp.array ["SET", "k", "v"]) ++ asBytes "PING\r\n")
        = .ok (some (["SET", "k", "v"], asBytes "PING\r\n")) := by
  let env := envAt startOfClock
  let db : Database := .withPersistence env.now none (some [])
  have hread : readRequest (asBytes ("SET k v" ++ "\n") ++ []) = .ok (some (["SET", "k", "v"], []))
      := by
    exact readRequest_inline (by decide) (by decide) []
  have hentry : logEntry env (.set "k" "v" none) ["SET", "k", "v"] db = some ["SET", "k", "v"] := by
    rw [logEntry_of_not_spop (by simp)]
    simp [Command.isWrite, execute]
  have haof : db.aof = some [] := by rfl
  have hlimits : LogsWithinLimits env (.set "k" "v" none) ["SET", "k", "v"] db := by
    refine ⟨by decide, ?_⟩
    unfold maxBulkBytes
    decide
  exact (logged_entry_decodes_iff hread rfl hentry haof rfl).2.1.mpr hlimits _

/-
A line with more words than an array may have.
-/

theorem wordsOf_eq_singleton {word : List Char} (hne : word ≠ [])
    (h : word.all (!isWhitespace ·) = true)
    : wordsOf word = [word] := by
  have hsplit : word.splitOnP isWhitespace = [word] := by
    apply List.splitOnP_eq_singleton
    simpa using h
  unfold wordsOf
  rw [hsplit]
  cases word with
  | nil => exact absurd rfl hne
  | cons c word => rfl

theorem wordsOf_replicate (n : Nat) {word : List Char} (hne : word ≠ [])
    (h : word.all (!isWhitespace ·) = true)
    : wordsOf (word ++ (List.replicate n [' ', 'k']).flatten) = word :: List.replicate n ['k'] := by
  induction n generalizing word with
  | zero =>
    rw [List.replicate_zero, List.flatten_nil, List.append_nil, wordsOf_eq_singleton hne h]
    rfl
  | succ n ih =>
    have hk := @ih ['k'] (by decide) (by decide)
    have hword := wordsOf_eq_singleton hne h
    unfold wordsOf at hk hword ⊢
    rw [List.replicate_succ, List.flatten_cons]
    change List.filter _ (List.splitOnP isWhitespace (word ++ ' ' :: (['k'] ++ _))) = _
    rw [List.splitOnP_append_cons word _ (by decide), List.filter_append, hk, hword]
    rfl

/--
`DEL` with `n` keys, on a line.
-/
def deleteLine (n : Nat) : String := "DEL" ++ String.join (List.replicate n " k")

theorem toList_deleteLine (n : Nat)
    : (deleteLine n).toList = ['D', 'E', 'L'] ++ (List.replicate n [' ', 'k']).flatten := by
  unfold deleteLine
  rw [String.toList_append]
  congr 1
  induction n with
  | zero => rfl
  | succ n ih =>
    rw [List.replicate_succ, String.join_cons, String.toList_append, ih]
    rfl

theorem splitWhitespace_deleteLine (n : Nat)
    : splitWhitespace (deleteLine n) = "DEL" :: List.replicate n "k" := by
  have h := @wordsOf_replicate n ['D', 'E', 'L'] (by decide) (by decide)
  unfold wordsOf at h
  unfold splitWhitespace
  rw [toList_deleteLine, h, List.map_cons, List.map_replicate]

theorem readRequest_deleteLine (n : Nat)
    : readRequest (asBytes (deleteLine n ++ "\n"))
        = .ok (some ("DEL" :: List.replicate n "k", [])) := by
  have hline : '\n' ∉ (deleteLine n).toList := by
    rw [toList_deleteLine]
    intro hmem
    simp only [List.mem_append, List.mem_flatten, List.mem_replicate] at hmem
    rcases hmem with hmem | ⟨word, ⟨-, rfl⟩, hmem⟩
    . revert hmem
      decide
    . revert hmem
      decide
  have hstar : (deleteLine n).toList.head? ≠ some '*' := by
    rw [toList_deleteLine, List.cons_append, List.head?_cons]
    decide
  have hread := readRequest_inline hline hstar []
  rw [List.append_nil, splitWhitespace_deleteLine] at hread
  exact hread

theorem parse_deleteLine {n : Nat} (h : 0 < n)
    : Command.parse ("DEL" :: List.replicate n "k") = .ok (.del (List.replicate n "k")) := by
  cases n with
  | zero => omega
  | succ n => rfl

/--
A line with one word more than an array may have is executed and logged, and cannot be read back.
-/
theorem logged_entry_beyond_limits
    : ∃ tokens command,
        readRequest (asBytes (deleteLine maxMultibulk ++ "\n")) = .ok (some (tokens, []))
          ∧
        Command.parse tokens = .ok command
          ∧
        (∀ env : Env, logEntry env command tokens (.new env.now) = some tokens)
          ∧
        ∀ later, readRequest (asBytes (Resp.array tokens) ++ later) ≠ .ok (some (tokens, later)) := by
  refine ⟨_, _, readRequest_deleteLine maxMultibulk, parse_deleteLine (by decide), ?_, ?_⟩
  . intro env
    rw [logEntry_of_not_spop (by simp)]
    simp [Command.isWrite, execute, Database.run, Reply.number]
  . intro later hread
    have hreadable : ¬ Readable ("DEL" :: List.replicate maxMultibulk "k") := by
      intro hreadable
      have hcount := hreadable.count
      rw [List.length_cons, List.length_replicate] at hcount
      omega
    rcases readRequest_of_not_readable hreadable later with ⟨e, he⟩
    rw [he] at hread
    cases hread

end RedisClone
