import RedisClone.Server.RoundTrip

/-!
This module contains the proof that a pipeline of requests in both framings is read back one request
at a time.
-/

namespace RedisClone

/-
Words of a line.
-/

/--
The words between white space.
-/
def wordsOf (cs : List Char) : List (List Char) :=
  (cs.splitOnP isWhitespace).filter fun word => !word.isEmpty

theorem wordsOf_concat {c : Char} (h : isWhitespace c = true) (cs : List Char)
    : wordsOf (cs ++ [c]) = wordsOf cs := by
  unfold wordsOf
  rw [List.splitOnP_append_cons cs [] h, List.filter_append]
  simp

theorem wordsOf_rdropWhile (cs : List Char)
    : wordsOf (cs.rdropWhile isWhitespace) = wordsOf cs := by
  induction cs using List.reverseRecOn with
  | nil => rfl
  | append_singleton cs c ih =>
    by_cases h : isWhitespace c = true
    . rw [List.rdropWhile_concat_pos _ _ _ h, ih, wordsOf_concat h]
    . rw [List.rdropWhile_concat_neg _ _ _ h]

theorem splitWhitespace_trimEnd (s : String) : splitWhitespace (trimEnd s) = splitWhitespace s := by
  have h := wordsOf_rdropWhile s.toList
  unfold wordsOf at h
  unfold splitWhitespace trimEnd
  rw [String.toList_ofList, h]

theorem splitWhitespace_append_lf (s : String)
    : splitWhitespace (s ++ "\n") = splitWhitespace s := by
  have h := wordsOf_concat (c := '\n') (by decide) s.toList
  unfold wordsOf at h
  unfold splitWhitespace
  rw [String.toList_append, show "\n".toList = ['\n'] by rfl, h]

/-
Inline requests.
-/

theorem readLine_lf {s : String} (h : '\n' ∉ s.toList) (rest : List UInt8)
    : readLine (asBytes (s ++ "\n") ++ rest) = .ok (s ++ "\n", rest) := by
  have hline : asBytes (s ++ "\n") = asBytes s ++ [lineFeed] := by
    rw [asBytes_append]
    rfl
  have hsplit : splitLine (asBytes (s ++ "\n") ++ rest) = (asBytes (s ++ "\n"), rest) := by
    rw [hline, List.append_assoc]
    apply splitLine_append
    apply lineFeed_notMem_asBytes h
  unfold readLine
  rw [hsplit]
  simp only [fromUtf8_asBytes]

theorem stripPrefix_eq_none {c : Char} {s : String} (h : s.toList.head? ≠ some c)
    : stripPrefix c s = none := by
  unfold stripPrefix
  split
  . next d cs hcs =>
    apply if_neg
    rintro rfl
    rw [hcs] at h
    exact h rfl
  . rfl

theorem head?_trimEnd {s : String} {c : Char} (h : (trimEnd s).toList.head? = some c)
    : s.toList.head? = some c := by
  unfold trimEnd at h
  rw [String.toList_ofList] at h
  have hstart := List.rdropWhile_prefix isWhitespace (l := s.toList)
  rcases hstart with ⟨rest, hrest⟩
  rw [← hrest, List.head?_append, h]
  rfl

theorem readRequest_inline {line : String} (hline : '\n' ∉ line.toList)
    (hstar : line.toList.head? ≠ some '*') (rest : List UInt8)
    : readRequest (asBytes (line ++ "\n") ++ rest) = .ok (some (splitWhitespace line, rest)) := by
  have hne : (line ++ "\n").isEmpty = false := by simp
  have hstrip : stripPrefix '*' (trimEnd (line ++ "\n")) = none := by
    apply stripPrefix_eq_none
    intro h
    apply hstar
    have h := head?_trimEnd h
    rw [String.toList_append, List.head?_append] at h
    cases hhead : line.toList.head? with
    | none =>
      rw [hhead] at h
      cases h
    | some c =>
      rw [hhead] at h
      exact h
  unfold readRequest
  rw [readLine_lf hline]
  simp only [bind, Except.bind, hne, Bool.false_eq_true, if_false]
  rw [hstrip]
  dsimp only
  rw [splitWhitespace_trimEnd, splitWhitespace_append_lf]

/--
A request on the wire: an array of bulk strings or a line.
-/
inductive WireRequest where
  | array (tokens : List String)
  | inline (line : String)

namespace WireRequest

def bytes : WireRequest → List UInt8
  | array tokens => asBytes (Resp.array tokens)
  | inline line => asBytes (line ++ "\n")

def tokens : WireRequest → List String
  | array tokens => tokens
  | inline line => splitWhitespace line

/--
Arrays are within the limits of the reader, lines are lines and do not look like arrays.
-/
def Valid : WireRequest → Prop
  | array tokens => Readable tokens
  | inline line => '\n' ∉ line.toList ∧ line.toList.head? ≠ some '*'

theorem readRequest_bytes {request : WireRequest} (h : request.Valid) (rest : List UInt8)
    : readRequest (request.bytes ++ rest) = .ok (some (request.tokens, rest)) := by
  cases request with
  | array tokens => exact readRequest_array h rest
  | inline line => exact readRequest_inline h.1 h.2 rest

end WireRequest

/--
Reading one request after the other takes the stream from `input` to `rest`.
-/
inductive ReadsRequests : List UInt8 → List (List String) → List UInt8 → Prop where
  | nil {input} : ReadsRequests input [] input
  | cons {input tokens middle requests rest}
    : readRequest input = .ok (some (tokens, middle)) → ReadsRequests middle requests rest
        → ReadsRequests input (tokens :: requests) rest

theorem readsRequests_bytes {pipeline : List WireRequest}
    (h : ∀ request ∈ pipeline, request.Valid) (rest : List UInt8)
    : ReadsRequests (pipeline.flatMap WireRequest.bytes ++ rest)
        (pipeline.map WireRequest.tokens) rest := by
  induction pipeline with
  | nil => exact .nil
  | cons request pipeline ih =>
    rw [List.flatMap_cons, List.append_assoc, List.map_cons]
    apply ReadsRequests.cons
    . apply WireRequest.readRequest_bytes
      apply h
      exact List.mem_cons_self
    . apply ih
      intro other hmem
      apply h
      exact List.mem_cons_of_mem _ hmem

/--
A request within the limits is read back and nothing behind it is touched, so any pipeline is read
back one request at a time.
-/
theorem pipeline_round_trip
    : (∀ tokens, Readable tokens → ∀ rest,
        readRequest (asBytes (Resp.array tokens) ++ rest) = .ok (some (tokens, rest)))
        ∧
      ∀ pipeline : List WireRequest, (∀ request ∈ pipeline, request.Valid) → ∀ rest,
        ReadsRequests (pipeline.flatMap WireRequest.bytes ++ rest)
          (pipeline.map WireRequest.tokens) rest := by
  constructor
  . intro tokens htokens rest
    exact readRequest_array htokens rest
  . intro pipeline hpipeline rest
    exact readsRequests_bytes hpipeline rest

/--
An array whose token looks like framing, and a line.
-/
theorem pipeline_round_trip_mixed
    : ReadsRequests
        (asBytes (Resp.array ["SET", "k", "*1\r\n$4\r\n"]) ++ asBytes ("get  k" ++ "\n"))
        [["SET", "k", "*1\r\n$4\r\n"], ["get", "k"]] [] := by
  have h := pipeline_round_trip.2 [.array ["SET", "k", "*1\r\n$4\r\n"], .inline "get  k"]
  simp only [List.mem_cons, List.not_mem_nil, or_false, forall_eq_or_imp, forall_eq] at h
  refine h ⟨⟨by decide, ?_⟩, by decide, by decide⟩ []
  unfold maxBulkBytes
  decide

end RedisClone
