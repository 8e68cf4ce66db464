import RedisClone.Keyspace.Deadline

/-!
This module contains the proof that counters are exact: over any run, what a counter shows is its
initial value plus the sum of the amounts that were accepted, and an amount is refused exactly if the
sum does not fit in 64 bits.
-/

namespace RedisClone

open Store

/--
The numbers that fit in an `i64`.
-/
def InI64 (n : Int) : Prop := -2 ^ 63 ≤ n ∧ n < 2 ^ 63

instance (n : Int) : Decidable (InI64 n) := inferInstanceAs (Decidable (_ ∧ _))

theorem toInt_inI64 (value : Int64) : InI64 value.toInt := ⟨value.le_toInt, value.toInt_lt⟩

theorem toInt_ofInt {n : Int} (h : InI64 n) : (Int64.ofInt n).toInt = n := by
  exact Int64.toInt_ofInt_of_le h.1 h.2

theorem checkedAdd_of_inI64 {a b : Int64} (h : InI64 (a.toInt + b.toInt))
    : checkedAdd a b = some (Int64.ofInt (a.toInt + b.toInt)) := by
  exact if_pos h

theorem checkedAdd_of_not_inI64 {a b : Int64} (h : ¬ InI64 (a.toInt + b.toInt))
    : checkedAdd a b = none := by
  exact if_neg h

theorem toInt_checkedNeg {a b : Int64} (h : checkedNeg a = some b) : b.toInt = -a.toInt := by
  unfold checkedNeg at h
  split at h
  . cases h
  . next hmin =>
    cases h
    have hlo := a.le_toInt
    have hne : a.toInt ≠ -2 ^ 63 := by
      intro heq
      exact hmin (Int64.toInt_inj.mp heq)
    have hhi := a.toInt_lt
    rw [Int64.toInt_neg]
    apply Int.bmod_eq_of_le <;> omega

/--
Where a counter is: in the string at a key, or in a field of the hash there.
-/
inductive Counter where
  | string
  | field (name : String)

namespace Counter

/--
The amount by which a request asks to change the counter at `key`. A request with an argument that is
no amount asks for `none`.
-/
def amount (counter : Counter) (key : String) (tokens : List String) : Option (Option Int) :=
  match counter, tokens with
  | .string, [name, target] =>
    if target = key ∧ toAsciiUppercase name = "INCR" then
      some (some 1)
    else if target = key ∧ toAsciiUppercase name = "DECR" then
      some (some (-1))
    else
      none
  | .string, [name, target, raw] =>
    if target = key ∧ toAsciiUppercase name = "INCRBY" then
      some ((parseI64 raw).map Int64.toInt)
    else if target = key ∧ toAsciiUppercase name = "DECRBY" then
      some (((parseI64 raw).filter (· ≠ Int64.minValue)).map fun delta => -delta.toInt)
    else
      none
  | .field name, [request, target, other, raw] =>
    if target = key ∧ other = name ∧ toAsciiUppercase request = "HINCRBY" then
      some ((parseI64 raw).map Int64.toInt)
    else
      none
  | _, _ => none

def command (counter : Counter) (key : String) (delta : Int64) : Command :=
  match counter with
  | .string => .incrBy key delta
  | .field name => .hIncrBy key name delta

/--
The text of the counter, if the value is of the right type and has one.
-/
def text (counter : Counter) (value : Value) : Option (Option String) :=
  match counter, value with
  | .string, .str text => some (some text)
  | .field name, .hash hash => some (hash.hget name)
  | _, _ => none

/--
What a value counts; a field that is not there counts 0.
-/
def CountsIn (counter : Counter) (value : Value) (n : Int) : Prop :=
  (counter.text value = some none ∧ n = 0)
    ∨ ∃ text current, counter.text value = some (some text) ∧ parseI64 text = some current
      ∧ current.toInt = n

/--
What the counter of a key counts; a missing key counts 0.
-/
def Counts (counter : Counter) (found : Option Entry) (n : Int) : Prop :=
  match found with
  | none => n = 0
  | some entry => counter.CountsIn entry.value n

def fresh : Counter → Value
  | .string => .str "0"
  | .field _ => .hash .new

def act (counter : Counter) (delta : Int64) : Value → Except StoreError (Value × Int64) :=
  match counter with
  | .string => Db.incrOn delta
  | .field name => Db.hincrOn name delta

def op (counter : Counter) (delta : Int64) : KeyOp String :=
  (KeyOp.updateOp counter.fresh (counter.act delta)).reply Reply.signed

theorem keyOp_command (counter : Counter) (key : String) (delta : Int64) (env : Env)
    : (counter.command key delta).keyOp env = some (key, counter.op delta) := by
  cases counter <;> rfl

section

variable {name : String} (key raw : String)

theorem parse_of_name {upper : String} (h : toAsciiUppercase name = upper) (args : List String)
    : Command.parse (name :: args) = Command.parseNamed name upper args := by
  subst h
  rfl

theorem parse_incr (h : toAsciiUppercase name = "INCR")
    : Command.parse [name, key] = .ok (.incrBy key 1) := by
  rw [parse_of_name h]
  rfl

theorem parse_decr (h : toAsciiUppercase name = "DECR")
    : Command.parse [name, key] = .ok (.incrBy key (-1)) := by
  rw [parse_of_name h]
  rfl

theorem parse_incrby (h : toAsciiUppercase name = "INCRBY")
    : Command.parse [name, key, raw]
        =
      match parseI64 raw with
      | some delta => .ok (.incrBy key delta)
      | none => .error (.notAnInteger raw) := by
  rw [parse_of_name h]
  show (Command.parseNumber parseI64 raw .notAnInteger).bind
    (fun delta => .ok (Command.incrBy key delta)) = _
  unfold Command.parseNumber
  cases parseI64 raw <;> rfl

theorem parse_decrby (h : toAsciiUppercase name = "DECRBY")
    : Command.parse [name, key, raw]
        =
      match parseI64 raw with
      | some delta =>
        match checkedNeg delta with
        | some delta => .ok (.incrBy key delta)
        | none => .error (.notAnInteger (toString delta))
      | none => .error (.notAnInteger raw) := by
  rw [parse_of_name h]
  show (Command.parseNumber parseI64 raw .notAnInteger).bind
    (fun delta => (Command.negate delta).bind fun delta => .ok (Command.incrBy key delta)) = _
  unfold Command.parseNumber
  cases parseI64 raw with
  | none => rfl
  | some delta =>
    dsimp only [Except.bind]
    unfold Command.negate
    cases checkedNeg delta <;> rfl

theorem parse_hincrby (field : String) (h : toAsciiUppercase name = "HINCRBY")
    : Command.parse [name, key, field, raw]
        =
      match parseI64 raw with
      | some delta => .ok (.hIncrBy key field delta)
      | none => .error (.notAnInteger raw) := by
  rw [parse_of_name h]
  show (Command.parseNumber parseI64 raw .notAnInteger).bind
    (fun delta => .ok (Command.hIncrBy key field delta)) = _
  unfold Command.parseNumber
  cases parseI64 raw <;> rfl

end

theorem parse_of_amount {counter : Counter} {key : String} {tokens : List String}
    {amount : Option Int} (h : counter.amount key tokens = some amount)
    : (∃ delta : Int64, amount = some delta.toInt
          ∧ Command.parse tokens = .ok (counter.command key delta))
        ∨ (amount = none ∧ ∃ error, Command.parse tokens = .error error) := by
  unfold Counter.amount at h
  split at h
  . next name target =>
    split at h
    . next hname =>
      rcases hname with ⟨rfl, hname⟩
      cases h
      exact .inl ⟨1, rfl, parse_incr _ hname⟩
    . split at h
      . next hname =>
        rcases hname with ⟨rfl, hname⟩
        cases h
        exact .inl ⟨-1, rfl, parse_decr _ hname⟩
      . cases h
  . next name target raw =>
    split at h
    . next hname =>
      rcases hname with ⟨rfl, hname⟩
      cases h
      rw [parse_incrby _ _ hname]
      cases parseI64 raw with
      | none => exact .inr ⟨rfl, _, rfl⟩
      | some delta => exact .inl ⟨delta, rfl, rfl⟩
    . split at h
      . next hname =>
        rcases hname with ⟨rfl, hname⟩
        cases h
        rw [parse_decrby _ _ hname]
        cases parseI64 raw with
        | none => exact .inr ⟨rfl, _, rfl⟩
        | some delta =>
          by_cases hmin : delta = Int64.minValue
          . have hneg : checkedNeg delta = none := if_pos hmin
            refine .inr ⟨by simp [hmin], .notAnInteger (toString delta), ?_⟩
            simp only [hneg]
          . have hneg : checkedNeg delta = some (-delta) := if_neg hmin
            refine .inl ⟨-delta, ?_, ?_⟩
            . rw [toInt_checkedNeg hneg]
              simp [hmin]
            . simp only [hneg]
              rfl
      . cases h
  . next name request target other raw =>
    split at h
    . next hname =>
      rcases hname with ⟨rfl, rfl, hname⟩
      cases h
      rw [parse_hincrby _ _ _ hname]
      cases parseI64 raw with
      | none => exact .inr ⟨rfl, _, rfl⟩
      | some delta => exact .inl ⟨delta, rfl, rfl⟩
    . cases h
  . cases h

variable {counter : Counter} {found : Option Entry} {value : Value} {n : Int} {delta : Int64}

theorem countsIn_getD (h : counter.Counts found n)
    : counter.CountsIn (found.getD { value := counter.fresh, expiresAt := none }).value n := by
  cases found with
  | some entry => exact h
  | none =>
    have hn : n = 0 := h
    subst hn
    cases counter with
    | string => exact .inr ⟨"0", 0, rfl, by decide, rfl⟩
    | field name =>
      refine .inl ⟨?_, rfl⟩
      simp [text, fresh, RHash.hget, RHash.new]

theorem text_string {current : String} (h : string.text value = some (some current))
    : value = .str current := by
  cases value with
  | str inner =>
    cases h
    rfl
  | _ => cases h

theorem text_field {name : String} {current : Option String}
    (h : (field name).text value = some current)
    : ∃ hash : RHash, value = .hash hash ∧ hash.hget name = current := by
  cases value with
  | hash hash =>
    cases h
    exact ⟨hash, rfl, rfl⟩
  | _ => cases h

theorem hget_hset (hash : RHash) (name current : String)
    : (hash.hset name current).1.hget name = some current := by
  simp [RHash.hset, RHash.hget]

theorem countsIn_field {name : String} (h : (field name).CountsIn value n)
    : ∃ hash current, value = .hash hash ∧ Db.hashInteger (hash.hget name) = .ok current
        ∧ current.toInt = n := by
  rcases h with ⟨htext, rfl⟩ | ⟨text, current, htext, hparse, rfl⟩
  . rcases text_field htext with ⟨hash, rfl, hget⟩
    exact ⟨hash, 0, rfl, by rw [hget]; rfl, rfl⟩
  . rcases text_field htext with ⟨hash, rfl, hget⟩
    refine ⟨hash, current, rfl, ?_, rfl⟩
    rw [hget]
    simp only [Db.hashInteger, hparse]

theorem countsIn_string (h : string.CountsIn value n)
    : ∃ text current, value = .str text ∧ parseI64 text = some current ∧ current.toInt = n := by
  rcases h with ⟨htext, -⟩ | ⟨text, current, htext, hparse, rfl⟩
  . cases value <;> cases htext
  . exact ⟨text, current, text_string htext, hparse, rfl⟩

/--
The amount is added exactly, if the sum fits.
-/
theorem act_accepted (h : counter.CountsIn value n) (hsum : InI64 (n + delta.toInt))
    : ∃ value', counter.act delta value = .ok (value', Int64.ofInt (n + delta.toInt))
        ∧ counter.text value' = some (some (toString (n + delta.toInt))) := by
  have htext : toString (Int64.ofInt (n + delta.toInt)) = toString (n + delta.toInt) := by
    rw [toString_int64, toInt_ofInt hsum]
  cases counter with
  | string =>
    rcases countsIn_string h with ⟨text, current, rfl, hparse, rfl⟩
    refine ⟨.str (toString (Int64.ofInt (current.toInt + delta.toInt))), ?_, ?_⟩
    . simp [act, Db.incrOn, Value.asStr, Except.bind, hparse, checkedAdd_of_inI64 hsum]
    . rw [htext]
      rfl
  | field name =>
    rcases countsIn_field h with ⟨hash, current, rfl, hinteger, rfl⟩
    refine ⟨.hash (hash.hset name (toString (Int64.ofInt (current.toInt + delta.toInt)))).1, ?_, ?_⟩
    . simp [act, Db.hincrOn, Value.asHash, Except.bind, hinteger, checkedAdd_of_inI64 hsum]
    . rw [htext]
      exact congrArg some (hget_hset hash name _)

theorem act_rejected (h : counter.CountsIn value n) (hsum : ¬ InI64 (n + delta.toInt))
    : counter.act delta value = .error .overflow := by
  cases counter with
  | string =>
    rcases countsIn_string h with ⟨text, current, rfl, hparse, rfl⟩
    simp [act, Db.incrOn, Value.asStr, Except.bind, hparse, checkedAdd_of_not_inI64 hsum]
  | field name =>
    rcases countsIn_field h with ⟨hash, current, rfl, hinteger, rfl⟩
    simp [act, Db.hincrOn, Value.asHash, Except.bind, hinteger, checkedAdd_of_not_inI64 hsum]

/--
What the command does to a counter that counts `n`.
-/
theorem op_accepted (h : counter.Counts found n) (hsum : InI64 (n + delta.toInt))
    : ∃ entry, (counter.op delta found).1 = some entry
        ∧ entry.expiresAt = found.bind Entry.expiresAt
        ∧ counter.text entry.value = some (some (toString (n + delta.toInt)))
        ∧ (counter.op delta found).2 = ":" ++ toString (n + delta.toInt) ++ "\r\n" := by
  rcases act_accepted (countsIn_getD h) hsum with ⟨value', hact, htext⟩
  have hkeeps : (counter.op delta).KeepsDeadline :=
    (KeyOp.keepsDeadline_updateOp counter.fresh (counter.act delta)).reply Reply.signed
  have hresult : counter.op delta found
      = (some { found.getD { value := counter.fresh, expiresAt := none } with value := value' },
        Resp.integer (Int64.ofInt (n + delta.toInt))) := by
    simp only [op, KeyOp.reply, KeyOp.updateOp, hact, Reply.signed]
  refine ⟨_, congrArg Prod.fst hresult, ?_, htext, ?_⟩
  . exact hkeeps found _ (congrArg Prod.fst hresult)
  . rw [hresult]
    simp only [Resp.integer, toString_int64, toInt_ofInt hsum]

theorem op_rejected (h : counter.Counts found n) (hsum : ¬ InI64 (n + delta.toInt))
    : (counter.op delta found).1 = found
        ∧ Reply.isError (counter.op delta found).2 = true := by
  have hact := act_rejected (countsIn_getD h) hsum
  cases found with
  | none =>
    -- a missing key counts 0, and every amount fits
    have hn : n = 0 := h
    rw [hn, Int.zero_add] at hsum
    exact absurd (toInt_inI64 delta) hsum
  | some entry =>
    rw [Option.getD_some] at hact
    have hresult : counter.op delta (some entry)
        = (some entry, Resp.error StoreError.overflow.toString) := by
      simp only [op, KeyOp.reply, KeyOp.updateOp, Option.getD_some, hact, Reply.signed]
    rw [hresult]
    exact ⟨rfl, Reply.isError_error _⟩

theorem counts_of_text {entry : Entry} (h : counter.text entry.value = some (some (toString n)))
    (hn : InI64 n)
    : counter.Counts (some entry) n := by
  refine .inr ⟨toString n, Int64.ofInt n, h, ?_, toInt_ofInt hn⟩
  have htext : toString n = toString (Int64.ofInt n) := by
    rw [toString_int64, toInt_ofInt hn]
  rw [htext]
  exact parseI64_toString _

/-
Runs of requests.
-/

/--
Requests that neither name nor flush the key.
-/
def Bystander (key : String) (tokens : List String) : Prop :=
  ∀ command, Command.parse tokens = .ok command
    → command ≠ .flushAll ∧ key ∉ command.namedKeys.getD []

/--
The amounts of the requests on the counter that were not answered by an error, over a run.
-/
def accepted (counter : Counter) (key : String) : List (Env × List String) → Database → List Int
  | [], _ => []
  | (env, tokens) :: run, db =>
    let rest := accepted counter key run (dispatch env tokens db).1
    match counter.amount key tokens with
    | some (some amount) => if Reply.isError (dispatch env tokens db).2 then rest else amount :: rest
    | _ => rest

/--
At all of these times the key has the same live entry, and its counter counts `n`.
-/
def Steady (counter : Counter) (key : String) (times : Instant → Prop) (store : Store) (n : Int)
    : Prop :=
  ∃ found, counter.Counts found n ∧ ∀ now, times now → live now store key = found

/--
What a request that asks for an amount does to a counter that counts `n`.
-/
structure Exact (counter : Counter) (n : Int) (amount : Option Int) (before after : Option Entry)
    (reply : String) : Prop where
  rejected_iff : Reply.isError reply = true ↔ ∀ a, amount = some a → ¬ InI64 (n + a)
  rejected : Reply.isError reply = true → after = before
  accepted : ∀ a, amount = some a → InI64 (n + a)
    → reply = ":" ++ toString (n + a) ++ "\r\n"
      ∧ ∃ entry, after = some entry ∧ counter.text entry.value = some (some (toString (n + a)))

variable {key : String} {times : Instant → Prop} {env : Env} {db : Database} {tokens : List String}

theorem isError_number (n : Int) : Reply.isError (":" ++ toString n ++ "\r\n") = false := by
  rw [String.append_assoc, Reply.isError_append _ _ (by decide)]
  rfl

theorem isLive_of_expiresAt {now : Instant} {entry entry' : Entry}
    (h : entry.expiresAt = entry'.expiresAt)
    : entry.isLive now = entry'.isLive now := by
  unfold Entry.isLive Entry.isExpired
  rw [h]

theorem live_dispatch_command (env : Env)
    (hparse : Command.parse tokens = .ok (counter.command key delta))
    (db : Database) (now : Instant)
    : live now (dispatch env tokens db).1.store key
        =
      (counter.op delta (live env.now db.store key)).1.filter (Entry.isLive now) := by
  rw [dispatch_of_parse_ok hparse, logOptional_store,
    execute_eq_keyOp (keyOp_command counter key delta env)]
  unfold Database.run live
  rw [LiveMap.live_atKey, if_pos rfl]

theorem reply_dispatch_command (env : Env)
    (hparse : Command.parse tokens = .ok (counter.command key delta))
    (db : Database)
    : (dispatch env tokens db).2 = (counter.op delta (live env.now db.store key)).2 := by
  rw [dispatch_of_parse_ok hparse, execute_eq_keyOp (keyOp_command counter key delta env)]
  rfl

/--
One request on the counter.
-/
theorem dispatch_exact (hsteady : counter.Steady key times db.store n) (hnow : times env.now)
    {amount : Option Int} (hamount : counter.amount key tokens = some amount)
    : counter.Exact n amount (live env.now db.store key)
          (live env.now (dispatch env tokens db).1.store key) (dispatch env tokens db).2
        ∧ ∃ m, counter.Steady key times (dispatch env tokens db).1.store m
          ∧ m = n + if Reply.isError (dispatch env tokens db).2 then 0 else amount.getD 0 := by
  rcases hsteady with ⟨found, hcounts, hlive⟩
  rcases parse_of_amount hamount with ⟨delta, rfl, hparse⟩ | ⟨rfl, error, hparse⟩
  . have hreply := reply_dispatch_command env hparse db
    have hafter := live_dispatch_command env hparse db
    rw [hlive env.now hnow] at hreply hafter
    by_cases hsum : InI64 (n + delta.toInt)
    . rcases op_accepted hcounts hsum with ⟨entry, hentry, hexpires, htext, hresult⟩
      have halive : ∀ now, times now
          → live now (dispatch env tokens db).1.store key = some entry := by
        intro now htime
        rw [hafter, hentry, Option.filter_eq_some_iff]
        refine ⟨rfl, ?_⟩
        cases found with
        | none =>
          unfold Entry.isLive Entry.isExpired
          rw [hexpires]
          rfl
        | some old =>
          have hold := hlive now htime
          rw [live, LiveMap.live_eq_some] at hold
          rw [isLive_of_expiresAt hexpires]
          exact hold.2
      have hok : Reply.isError (dispatch env tokens db).2 = false := by
        rw [hreply, hresult]
        exact isError_number _
      refine ⟨⟨?_, ?_, ?_⟩, n + delta.toInt, ⟨some entry, counts_of_text htext hsum, halive⟩, ?_⟩
      . rw [hok]
        refine iff_of_false Bool.false_ne_true ?_
        intro h
        exact h _ rfl hsum
      . intro h
        rw [hok] at h
        cases h
      . intro a ha _
        cases ha
        exact ⟨hreply.trans hresult, entry, halive env.now hnow, htext⟩
      . rw [hok]
        rfl
    . rcases op_rejected hcounts hsum with ⟨hkeeps, herror⟩
      have halive : ∀ now, times now
          → live now (dispatch env tokens db).1.store key = found := by
        intro now htime
        rw [hafter, hkeeps, ← hlive now htime]
        unfold live LiveMap.live
        rw [Option.filter_filter]
        simp
      rw [← hreply] at herror
      refine ⟨⟨?_, ?_, ?_⟩, n, ⟨found, hcounts, halive⟩, ?_⟩
      . refine iff_of_true herror ?_
        intro a ha
        cases ha
        exact hsum
      . intro _
        rw [halive env.now hnow, hlive env.now hnow]
      . intro a ha hin
        cases ha
        exact absurd hin hsum
      . rw [herror]
        simp
  . have hne : tokens ≠ [] := by
      rintro rfl
      cases counter <;> cases hamount
    rw [dispatch_of_parse_error hne hparse]
    refine ⟨⟨?_, ?_, ?_⟩, n, ⟨found, hcounts, hlive⟩, ?_⟩
    . refine iff_of_true (Reply.isError_error _) ?_
      intro a ha
      cases ha
    . exact fun _ => rfl
    . intro a ha
      cases ha
    . simp

theorem dispatch_bystander (hbystander : Bystander key tokens) (db : Database)
    : (dispatch env tokens db).1.store[key]? = db.store[key]? := by
  rcases command_or_rejected tokens with ⟨command, hparse⟩ | ⟨-, hrejected⟩
  . rw [dispatch_of_parse_ok hparse, logOptional_store]
    exact getElem?_execute_of_not_named (hbystander command hparse).1 (hbystander command hparse).2
  . rw [hrejected]

theorem Steady.bystander (hsteady : counter.Steady key times db.store n)
    (hbystander : Bystander key tokens)
    : counter.Steady key times (dispatch env tokens db).1.store n := by
  rcases hsteady with ⟨found, hcounts, hlive⟩
  refine ⟨found, hcounts, ?_⟩
  intro now htime
  rw [← hlive now htime]
  unfold live LiveMap.live
  rw [dispatch_bystander hbystander]

/--
A run of requests on the counter among others.
-/
theorem run_steady {run : List (Env × List String)} (hsteady : counter.Steady key times db.store n)
    (hnow : ∀ step ∈ run, times step.1.now)
    (hrun : ∀ step ∈ run, counter.amount key step.2 ≠ none ∨ Bystander key step.2)
    : counter.Steady key times (dispatchRun run db).store
        (n + (counter.accepted key run db).sum) := by
  induction run generalizing db n with
  | nil => simpa [dispatchRun, accepted] using hsteady
  | cons step run ih =>
    rcases step with ⟨env, tokens⟩
    have hrest := fun (m : Int) (h : counter.Steady key times (dispatch env tokens db).1.store m) =>
      ih h (fun other hmem => hnow other (List.mem_cons_of_mem _ hmem))
        (fun other hmem => hrun other (List.mem_cons_of_mem _ hmem))
    have hstep : dispatchRun ((env, tokens) :: run) db
        = dispatchRun run (dispatch env tokens db).1 := rfl
    rw [hstep, accepted]
    cases hamount : counter.amount key tokens with
    | none =>
      have hbystander : Bystander key tokens := by
        rcases hrun _ List.mem_cons_self with h | h
        . exact absurd hamount h
        . exact h
      exact hrest n (hsteady.bystander hbystander)
    | some amount =>
      rcases dispatch_exact hsteady (hnow _ List.mem_cons_self) hamount with ⟨-, m, hsteady', hm⟩
      have h := hrest m hsteady'
      rw [hm] at h
      cases amount with
      | none => simpa using h
      | some a =>
        cases herror : Reply.isError (dispatch env tokens db).2 with
        | true => simpa [herror] using h
        | false => simpa [herror, Int.add_assoc] using h

/--
After any run of requests on a counter, among requests that neither name nor flush its key, the next
one is answered exactly: by the sum of the initial value, of the amounts accepted so far and of its
own, which is then the text of the counter, or by an error if it has no amount or the sum is out of
range, and then the key is as it was.
-/
theorem counter_exact {run : List (Env × List String)} {initial : Option Entry}
    (hinitial : ∀ step ∈ run ++ [(env, tokens)], live step.1.now db.store key = initial)
    (hcounts : counter.Counts initial n)
    (hrun : ∀ step ∈ run, counter.amount key step.2 ≠ none ∨ Bystander key step.2)
    {amount : Option Int} (hamount : counter.amount key tokens = some amount)
    : counter.Exact (n + (counter.accepted key run db).sum) amount
        (live env.now (dispatchRun run db).store key)
        (live env.now (dispatch env tokens (dispatchRun run db)).1.store key)
        (dispatch env tokens (dispatchRun run db)).2 := by
  let times : Instant → Prop := fun now => ∃ step ∈ run ++ [(env, tokens)], step.1.now = now
  have hsteady : counter.Steady key times db.store n := by
    refine ⟨initial, hcounts, ?_⟩
    rintro now ⟨step, hmem, rfl⟩
    exact hinitial step hmem
  have hrunning : counter.Steady key times (dispatchRun run db).store
      (n + (counter.accepted key run db).sum) := by
    apply run_steady hsteady _ hrun
    intro step hmem
    exact ⟨step, List.mem_append_left _ hmem, rfl⟩
  have hnow : times env.now :=
    ⟨(env, tokens), List.mem_append_right _ List.mem_cons_self, rfl⟩
  exact (dispatch_exact hrunning hnow hamount).1

/--
`INCR`, another command and a `DECRBY` on a key that is missing at first.
-/
theorem counter_exact_incr
    : let env := envAt startOfClock
      let run := [(env, ["INCR", "k"]), (env, ["ECHO", "x"])]
      let db := Database.new env.now
      string.Exact (0 + (string.accepted "k" run db).sum) (some (-5))
        (live env.now (dispatchRun run db).store "k")
        (live env.now (dispatch env ["DECRBY", "k", "5"] (dispatchRun run db)).1.store "k")
        (dispatch env ["DECRBY", "k", "5"] (dispatchRun run db)).2 := by
  intro env run db
  have hinitial : ∀ step ∈ run ++ [(env, ["DECRBY", "k", "5"])],
      live step.1.now db.store "k" = none := by
    intro step _
    rfl
  have hother : Bystander "k" ["ECHO", "x"] := by
    intro command hparse
    have hecho : Command.parse ["ECHO", "x"] = .ok (.echo "x") := rfl
    rw [hecho] at hparse
    cases hparse
    exact ⟨Command.noConfusion, List.not_mem_nil⟩
  have hrun : ∀ step ∈ run, string.amount "k" step.2 ≠ none ∨ Bystander "k" step.2 := by
    intro step hmem
    rcases List.mem_cons.mp hmem with rfl | hmem
    . exact .inl (by decide)
    . cases List.mem_singleton.mp hmem
      exact .inr hother
  exact counter_exact hinitial rfl hrun (by decide)

end Counter

end RedisClone
