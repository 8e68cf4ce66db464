import RedisClone.Keyspace.Counter
import RedisClone.Traffic.AtKey

/-!
This module contains what a counter is to the clients that share it: a number they add to. However their
requests interleave, no addition is lost, and as long as everybody adds one, no two of them get the same
number.
-/

namespace RedisClone

open Store

variable {counter : Counter} {key : String} {found : Option Entry} {n : Int}

namespace Counter

def isRequest (counter : Counter) (key : String) (request : ClientRequest) : Bool :=
  (counter.amount key request.tokens).isSome

/--
A request on a number, with its reply.
-/
def answer (counter : Counter) (key : String) (request : ClientRequest) (n : Int) : Int × String :=
  match counter.amount key request.tokens, Command.parse request.tokens with
  | _, .error error => (n, Resp.error error.toString)
  | some (some amount), .ok _ =>
    if InI64 (n + amount) then
      (n + amount, ":" ++ toString (n + amount) ++ "\r\n")
    else
      (n, Resp.error StoreError.overflow.toString)
  | _, .ok _ => (n, "")

/--
An entry that counts `n` and has no deadline, or no entry for 0.
-/
def Lasts (counter : Counter) (found : Option Entry) (n : Int) : Prop :=
  counter.Counts found n ∧ found.bind Entry.expiresAt = none

theorem Lasts.filter (h : counter.Lasts found n) (now : Instant)
    : found.filter (Entry.isLive now) = found := by
  cases found with
  | none => rfl
  | some entry =>
    have hexpires : entry.expiresAt = none := h.2
    rw [Option.filter_some, if_pos]
    simp [Entry.isLive, Entry.isExpired, hexpires]

theorem op_overflow {delta : Int64} (h : counter.Counts found n) (hsum : ¬ InI64 (n + delta.toInt))
    : (counter.op delta found).2 = Resp.error StoreError.overflow.toString := by
  have hact := act_rejected (countsIn_getD h) hsum
  simp only [op, KeyOp.reply, KeyOp.updateOp, hact, Reply.signed]

/--
A command on an entry that counts `n` does what it does to the number.
-/
theorem Lasts.op (h : counter.Lasts found n) (delta : Int64)
    : if InI64 (n + delta.toInt) then
        counter.Lasts (counter.op delta found).1 (n + delta.toInt)
          ∧ (counter.op delta found).2 = ":" ++ toString (n + delta.toInt) ++ "\r\n"
      else
        (counter.op delta found).1 = found
          ∧ (counter.op delta found).2 = Resp.error StoreError.overflow.toString := by
  split
  . next hsum =>
    obtain ⟨entry, hentry, hexpires, htext, hreply⟩ := op_accepted h.1 hsum
    rw [hentry]
    refine ⟨⟨counts_of_text htext hsum, ?_⟩, hreply⟩
    exact hexpires.trans h.2
  . next hsum => exact ⟨(op_rejected h.1 hsum).1, op_overflow h.1 hsum⟩

end Counter

namespace Traffic

/--
A number that answers the requests on a counter.
-/
def number (counter : Counter) (key : String) : Linearize.Object Int ClientRequest String :=
  ⟨counter.answer key⟩

theorem standsFor_number (counter : Counter) (key : String)
    : StandsFor (number counter key) key (counter.isRequest key)
        fun n _ found => counter.Lasts found n := by
  constructor
  . intro n t t' found h _
    rw [h.filter]
    exact h
  . intro request db n hshown h
    obtain ⟨amount, hamount⟩ := Option.isSome_iff_exists.mp hshown
    rcases Counter.parse_of_amount hamount with ⟨delta, rfl, hparse⟩ | ⟨rfl, error, hparse⟩
    . obtain ⟨hfirst, hreply, -⟩ := firstLock_of_parse_ok request.env db hparse
      have hop := Counter.keyOp_command counter key delta request.env
      have hdone := h.op delta
      dsimp only
      rw [hfirst.store key, live_execute_keyOp hop, hreply, execute_eq_keyOp hop]
      simp only [number, Counter.answer, hamount, hparse]
      dsimp only [Database.run, id_eq]
      rw [atKey_eq]
      split at hdone
      . next hsum =>
        rw [if_pos hsum, hdone.1.filter]
        exact hdone
      . next hsum =>
        rw [if_neg hsum, hdone.1, h.filter]
        exact ⟨h, hdone.2⟩
    . have hnonempty : request.tokens ≠ [] := by
        intro hempty
        rw [hempty] at hamount
        cases counter <;> cases hamount
      obtain ⟨hfirst, -⟩ := firstLock_of_parse_error request.env db hparse db
      dsimp only
      rw [hfirst, dispatch_of_parse_error hnonempty hparse]
      simp only [number, Counter.answer, hparse]
      exact ⟨h, trivial⟩

/--
The amount that an answer says was added.
-/
def added (counter : Counter) (key : String) (answer : ClientRequest × String) : Option Int :=
  if Reply.isError answer.2 then none else (counter.amount key answer.1.tokens).join

/--
An answer is the exact sum, unless the sum does not fit or the request is malformed.
-/
def ExactAt (counter : Counter) (key : String) (total : Int) (answer : ClientRequest × String)
    : Prop :=
  match counter.amount key answer.1.tokens with
  | some (some amount) =>
    if InI64 (total + amount) then
      answer.2 = ":" ++ toString (total + amount) ++ "\r\n"
    else
      answer.2 = Resp.error StoreError.overflow.toString
  | _ => ∃ error, Command.parse answer.1.tokens = .error error
    ∧ answer.2 = Resp.error error.toString

variable {requests : List ClientRequest}

theorem call_number {request : ClientRequest} (hshown : counter.isRequest key request = true) (n : Int)
    : let reply := ((number counter key).call request n).2
      ExactAt counter key n (request, reply)
        ∧ ((number counter key).call request n).1 = n + ((added counter key (request, reply)).getD 0)
    := by
  obtain ⟨amount, hamount⟩ := Option.isSome_iff_exists.mp hshown
  rcases Counter.parse_of_amount hamount with ⟨delta, rfl, hparse⟩ | ⟨rfl, error, hparse⟩
  . simp only [number, Counter.answer, ExactAt, added, hamount, hparse]
    split
    . rw [Counter.isError_number]
      exact ⟨rfl, rfl⟩
    . exact ⟨rfl, by simp [Reply.isError_error]⟩
  . simp only [number, Counter.answer, ExactAt, added, hamount, hparse]
    exact ⟨⟨error, rfl, rfl⟩, by simp⟩

/--
The answers of a number, and the number in the end.
-/
theorem answers_number (hshown : ∀ request ∈ requests, counter.isRequest key request = true) (n : Int)
    : let answers := (number counter key).answers requests n
      (∀ before answer after, answers = before ++ answer :: after
          → ExactAt counter key (n + (before.filterMap (added counter key)).sum) answer)
        ∧ (number counter key).after requests n
          = n + (answers.filterMap (added counter key)).sum := by
  induction requests generalizing n with
  | nil =>
    refine ⟨?_, by simp [Linearize.Object.answers]⟩
    intro before answer after h
    cases before <;> cases h
  | cons request requests ih =>
    rw [List.forall_mem_cons] at hshown
    obtain ⟨hexact, hcall⟩ := call_number hshown.1 n
    obtain ⟨hrest, hafter⟩ := ih hshown.2 ((number counter key).call request n).1
    rw [Linearize.Object.answers, Linearize.Object.after_cons]
    refine ⟨?_, ?_⟩
    . intro before answer after h
      cases before with
      | nil =>
        cases h
        simpa using hexact
      | cons first before =>
        rw [List.cons_append, List.cons.injEq] at h
        obtain ⟨rfl, h⟩ := h
        have hanswer := hrest before answer after h
        rw [hcall, Int.add_assoc] at hanswer
        rw [List.filterMap_cons]
        split
        . next hadded => simpa [hadded] using hanswer
        . next amount hadded => simpa [hadded] using hanswer
    . rw [hafter, hcall, Int.add_assoc, List.filterMap_cons]
      split
      . next hadded => simp [hadded]
      . next amount hadded => simp [hadded]

/--
Concurrent additions are exact. Whatever other keys the clients use at the same time, every request on a
counter is answered with the sum of its initial value and all amounts that were added before and by the
request itself, and this is what the key holds in the end.
-/
theorem no_update_lost {events : List TrafficEvent} {start : Instant} {db : Database}
    {last : Traffic} {answers : List (ClientRequest × String)}
    (hinitial : counter.Lasts (live start db.store key) n)
    (huses : ∀ event ∈ events, Uses (counter.isRequest key) key event)
    (hrun : system.run events (new start db) = some (last, answers))
    : let shown := answers.filter fun answer => counter.isRequest key answer.1
      (∀ before answer after, shown = before ++ answer :: after
          → ExactAt counter key (n + (before.filterMap (added counter key)).sum) answer)
        ∧ counter.Lasts (live last.clock last.db.store key)
          (n + (shown.filterMap (added counter key)).sum) := by
  have ⟨hanswers, hholds⟩ := (standsFor_number counter key).run hinitial huses hrun
  have hshown : ∀ request ∈ (events.filterMap TrafficEvent.clientRequest).filter
      (counter.isRequest key), counter.isRequest key request = true := by
    intro request hmem
    exact (List.mem_filter.mp hmem).2
  obtain ⟨hexact, hafter⟩ := answers_number hshown n
  rw [hafter] at hholds
  dsimp only
  rw [hanswers]
  exact ⟨hexact, hholds⟩

/--
The reply to the request that gets a number.
-/
def ticket (n : Int) : String := ":" ++ toString n ++ "\r\n"

theorem ticket_injective : Function.Injective ticket := by
  intro a b h
  unfold ticket at h
  rw [String.append_left_inj, String.append_right_inj] at h
  exact Int.repr_injective h

theorem answers_tickets
    (hones : ∀ request ∈ requests, counter.amount key request.tokens = some (some 1))
    (hn : -2 ^ 63 ≤ n) (hroom : n + requests.length < 2 ^ 63)
    : ((number counter key).answers requests n).map Prod.snd
          = (List.range requests.length).map (fun i : Nat => ticket (n + 1 + (i : Int)))
        ∧ (number counter key).after requests n = n + requests.length := by
  induction requests generalizing n with
  | nil => exact ⟨rfl, by simp⟩
  | cons request requests ih =>
    rw [List.forall_mem_cons] at hones
    rw [List.length_cons] at hroom
    have hfits : InI64 (n + 1) := by
      unfold InI64
      omega
    have hcall : (number counter key).call request n = (n + 1, ticket (n + 1)) := by
      rcases Counter.parse_of_amount hones.1 with ⟨delta, -, hparse⟩ | ⟨hnone, -⟩
      . simp only [number, Counter.answer, hones.1, hparse]
        rw [if_pos hfits]
        rfl
      . cases hnone
    obtain ⟨hanswers, hafter⟩ := @ih (n + 1) hones.2 (by omega) (by omega)
    rw [Linearize.Object.answers, Linearize.Object.after_cons, hcall]
    dsimp only
    rw [List.map_cons, hanswers, hafter, List.length_cons, List.range_succ_eq_map, List.map_cons,
      List.map_map]
    refine ⟨?_, by omega⟩
    have htickets : (List.range requests.length).map (fun i : Nat => ticket (n + 1 + 1 + (i : Int)))
        = (List.range requests.length).map
          ((fun i : Nat => ticket (n + 1 + (i : Int))) ∘ Nat.succ) := by
      apply List.map_congr_left
      intro i _
      exact congrArg ticket (by omega)
    rw [htickets]
    exact congrArg (· :: _) (congrArg ticket (by omega))

/--
`INCR` hands out tickets. While all requests on a counter add one and there is room for them, they are
answered with the numbers after its initial value, in order, without a gap, and each number once.
-/
theorem incr_hands_out_tickets {events : List TrafficEvent} {start : Instant} {db : Database}
    {last : Traffic} {answers : List (ClientRequest × String)}
    (hinitial : counter.Lasts (live start db.store key) n) (hn : -2 ^ 63 ≤ n)
    (huses : ∀ event ∈ events, Uses (counter.isRequest key) key event)
    (hones : ∀ event ∈ events, ∀ request, event.clientRequest = some request
      → counter.isRequest key request = true → counter.amount key request.tokens = some (some 1))
    (hrun : system.run events (new start db) = some (last, answers))
    (hroom : n + (answers.filter fun answer => counter.isRequest key answer.1).length < 2 ^ 63)
    : let shown := answers.filter fun answer => counter.isRequest key answer.1
      shown.map Prod.snd = (List.range shown.length).map (fun i : Nat => ticket (n + 1 + (i : Int)))
        ∧ (shown.map Prod.snd).Nodup
        ∧ counter.Lasts (live last.clock last.db.store key) (n + shown.length) := by
  intro shown
  have ⟨hanswers, hholds⟩ := (standsFor_number counter key).run hinitial huses hrun
  let requests := (events.filterMap TrafficEvent.clientRequest).filter (counter.isRequest key)
  have hrequests : ∀ request ∈ requests, counter.amount key request.tokens = some (some 1) :=
    forall_mem_shown hones
  have hlength : shown.length = requests.length := by
    have hfst := congrArg List.length
      (@Linearize.Object.map_fst_answers _ _ _ (number counter key) requests n)
    rw [List.length_map, ← hanswers] at hfst
    exact hfst
  have hfits : n + requests.length < 2 ^ 63 := by
    rwa [← hlength]
  obtain ⟨htickets, hafter⟩ := answers_tickets hrequests hn hfits
  rw [← hanswers, ← hlength] at htickets
  rw [hafter, ← hlength] at hholds
  refine ⟨htickets, ?_, hholds⟩
  rw [htickets]
  apply List.Nodup.map _ List.nodup_range
  intro i j hij
  have hnumber := ticket_injective hij
  omega

/-
Two clients that draw numbers, and a third one that writes to another key.
-/

def drawing : List TrafficEvent :=
  [.request 0 (envAt startOfClock) ["INCR", "next"],
    .request 1 (envAt startOfClock) ["incrby", "next", "1"], .finish 0 startOfClock,
    .request 2 (envAt startOfClock) ["SET", "k", "v"], .finish 1 startOfClock,
    .request 0 (envAt startOfClock) ["INCR", "next"]]

theorem drawing_uses
    : ∀ event ∈ drawing, Uses (Counter.string.isRequest "next") "next" event := by
  simp only [drawing, List.forall_mem_cons, List.not_mem_nil, false_implies, implies_true, and_true]
  refine ⟨?_, ?_, ?_, ?_, ?_, ?_⟩
  all_goals
    intro request hrequest
    cases hrequest
  . left
    decide
  . left
    decide
  . right
    intro command hcommand
    cases hcommand
    exact ⟨by simp, .inr (by simp [Command.namedKeys])⟩
  . left
    decide

theorem exists_run_drawing
    : ∃ last answers, answers.length ≤ 10
        ∧ system.run drawing (new startOfClock (.new startOfClock)) = some (last, answers) := by
  have hrun : (system.run drawing (new startOfClock (.new startOfClock))).any
      (fun run => decide (run.2.length ≤ 10)) = true := by
    decide
  rw [Option.any_eq_true] at hrun
  obtain ⟨⟨last, answers⟩, hrun, hlength⟩ := hrun
  exact ⟨last, answers, of_decide_eq_true hlength, hrun⟩

theorem drawing_lasts
    : Counter.string.Lasts (live startOfClock (Database.new startOfClock).store "next") 0 := by
  exact ⟨rfl, rfl⟩

theorem no_update_lost_drawing
    : ∃ last answers,
        system.run drawing (new startOfClock (.new startOfClock)) = some (last, answers)
          ∧ let shown := answers.filter fun answer => Counter.string.isRequest "next" answer.1
            (∀ before answer after, shown = before ++ answer :: after
                → ExactAt .string "next" (0 + (before.filterMap (added .string "next")).sum) answer)
              ∧ Counter.string.Lasts (live last.clock last.db.store "next")
                (0 + (shown.filterMap (added .string "next")).sum) := by
  obtain ⟨last, answers, -, hrun⟩ := exists_run_drawing
  exact ⟨last, answers, hrun, no_update_lost drawing_lasts drawing_uses hrun⟩

theorem incr_hands_out_tickets_drawing
    : ∃ last answers,
        system.run drawing (new startOfClock (.new startOfClock)) = some (last, answers)
          ∧ let shown := answers.filter fun answer => Counter.string.isRequest "next" answer.1
            shown.map Prod.snd
                = (List.range shown.length).map (fun i : Nat => ticket (0 + 1 + (i : Int)))
              ∧ (shown.map Prod.snd).Nodup
              ∧ Counter.string.Lasts (live last.clock last.db.store "next") (0 + shown.length) := by
  obtain ⟨last, answers, hlength, hrun⟩ := exists_run_drawing
  have hroom : (0 : Int) + (answers.filter fun answer =>
      Counter.string.isRequest "next" answer.1).length < 2 ^ 63 := by
    have hle := List.length_filter_le (fun answer : ClientRequest × String =>
      Counter.string.isRequest "next" answer.1) answers
    omega
  refine ⟨last, answers, hrun,
    incr_hands_out_tickets drawing_lasts (by decide) drawing_uses ?_ hrun hroom⟩
  simp only [drawing, List.forall_mem_cons, List.not_mem_nil, false_implies, implies_true, and_true]
  refine ⟨?_, ?_, ?_, ?_, ?_, ?_⟩
  all_goals
    intro request hrequest hon
    cases hrequest
  . decide
  . decide
  . cases hon
  . decide

end Traffic
end RedisClone
