import RedisClone.Keyspace.Deadline
import RedisClone.Traffic.Linearizable

/-!
This module contains what concurrent requests do to a single key: which of them do not show there, and
the rule that turns a claim about one request at a time into a claim about all interleavings.
-/

namespace RedisClone

open Store

variable {env : Env} {key : String} {tokens : List String}

/--
A request that may read the key, with others, but does not write to it.
-/
def LeavesAlone (key : String) (tokens : List String) : Prop :=
  ∀ command, Command.parse tokens = .ok command
    → command ≠ .flushAll ∧ (command.mutates = false ∨ key ∉ command.namedKeys.getD [])

theorem live_firstLock_of_leavesAlone (h : LeavesAlone key tokens) (db : Database)
    : live env.now (firstLock env tokens db).1.store key = live env.now db.store key := by
  cases hparse : Command.parse tokens with
  | error error => rw [(firstLock_of_parse_error env db hparse db).1]
  | ok command =>
    obtain ⟨hflush, hread | hnot⟩ := h command hparse
    all_goals
      obtain ⟨hfirst, -, -⟩ := firstLock_of_parse_ok env db hparse
      rw [hfirst.store key]
    . exact live_execute_of_read hread key
    . exact live_execute_of_not_named hflush hnot env.now

theorem live_finish {now : Instant} (leftover : Leftover) (db : Database) (key : String)
    : live now (leftover.finish now db).store key = live now db.store key := by
  cases leftover with
  | evict name => exact alike_evictExpired now name db.store key
  | append entry => simp only [Leftover.finish, logWrite_store]

theorem live_of_le {t t' : Instant} (hle : t ≤ t') (store : Store) (key : String)
    : live t' store key = (live t store key).filter (Entry.isLive t') := by
  exact LiveMap.live_later fun _ => isLive_of_le hle

namespace Traffic

/--
Requests that an object answers for the key, and requests that do not write to it.
-/
def Uses (shown : ClientRequest → Bool) (key : String) (event : TrafficEvent) : Prop :=
  ∀ request, event.clientRequest = some request
    → shown request = true ∨ LeavesAlone key request.tokens

/--
An object that stands for the live entry of a key, whatever time it is, and answers a request as the
server does.
-/
structure StandsFor (object : Linearize.Object τ ClientRequest String) (key : String)
    (shown : ClientRequest → Bool) (holds : τ → Instant → Option Entry → Prop) : Prop where
  later : ∀ state t t' found, holds state t found → t ≤ t'
    → holds state t' (found.filter (Entry.isLive t'))
  call : ∀ request db state, shown request = true
    → holds state request.env.now (live request.env.now db.store key)
    → let locked := firstLock request.env request.tokens db
      holds (object.call request state).1 request.env.now
          (live request.env.now locked.1.store key)
        ∧ locked.2.1 = (object.call request state).2

variable {object : Linearize.Object τ ClientRequest String} {shown : ClientRequest → Bool}
  {holds : τ → Instant → Option Entry → Prop}

/--
What an object says about the live entries follows from what it says whenever time passes and a request
takes its first lock. Nothing else shows there.
-/
theorem refines_of_live {uses : ClientRequest → Prop} {same : ClientRequest → String → String → Prop}
    (seen : τ → Instant → (String → Option Entry) → Prop)
    (hlater : ∀ state t t' found, seen state t found → t ≤ t'
      → seen state t' fun key => (found key).filter (Entry.isLive t'))
    (hhidden : ∀ request db state, uses request → shown request = false
      → seen state request.env.now (live request.env.now db.store)
      → seen state request.env.now
        (live request.env.now (firstLock request.env request.tokens db).1.store))
    (hshown : ∀ request db state, uses request → shown request = true
      → seen state request.env.now (live request.env.now db.store)
      → let locked := firstLock request.env request.tokens db
        seen (object.call request state).1 request.env.now (live request.env.now locked.1.store)
          ∧ same request locked.2.1 (object.call request state).2)
    : Linearize.Refines (system.watch shown) object
        (fun event => ∀ request, event.clientRequest = some request → uses request)
        (fun traffic state => seen state traffic.clock (live traffic.clock traffic.db.store)) same := by
  have hnow : ∀ {traffic : Traffic} {now state}, traffic.clock ≤ now
      → seen state traffic.clock (live traffic.clock traffic.db.store)
      → seen state now (live now traffic.db.store) := by
    intro traffic now state hclock h
    have hfiltered := hlater _ _ _ _ h hclock
    rwa [← funext fun key => live_of_le hclock traffic.db.store key] at hfiltered
  apply Linearize.Refines.watch
  . intro traffic event next state _ h hstep
    have ⟨hclock, hcases⟩ := step_cases hstep
    have hlive := hnow hclock h
    cases event with
    | request client env tokens => cases hcases.2
    | finish client now =>
      obtain ⟨request, inFlight, -, hnext, -⟩ := hcases
      rw [hnext]
      have hfinished : live now (request.leftover.finish now traffic.db).store
          = live now traffic.db.store := funext fun key => live_finish request.leftover traffic.db key
      dsimp only
      rwa [hfinished]
    | sweep now =>
      rw [hcases.1]
      have hswept : live now (Db.sweepExpired now traffic.db.store).1
          = live now traffic.db.store := funext fun key => (alike_purge key).symm
      dsimp only
      rwa [hswept]
  . intro traffic event next request reply state huses h hother hstep
    have hrequest := clientRequest_of_step traffic event next _ hstep
    have ⟨hclock, hcases⟩ := step_cases hstep
    have hlive := hnow hclock h
    cases event with
    | request client env tokens =>
      cases hrequest
      rw [hcases.1]
      exact hhidden _ traffic.db state (huses _ rfl) hother hlive
    | finish client now => cases hrequest
    | sweep now => cases hrequest
  . intro traffic event next request reply state huses h hrequested hstep
    have hrequest := clientRequest_of_step traffic event next _ hstep
    have ⟨hclock, hcases⟩ := step_cases hstep
    have hlive := hnow hclock h
    cases event with
    | request client env tokens =>
      obtain ⟨hnext, hanswer⟩ := hcases
      cases hanswer
      rw [hnext]
      exact hshown _ traffic.db state (huses _ rfl) hrequested hlive
    | finish client now => cases hrequest
    | sweep now => cases hrequest

theorem StandsFor.refines (hobject : StandsFor object key shown holds)
    : Linearize.Refines (system.watch shown) object (Uses shown key)
        (fun traffic state => holds state traffic.clock (live traffic.clock traffic.db.store key))
        fun _ reply reply' => reply = reply' := by
  apply refines_of_live fun state now found => holds state now (found key)
  . intro state t t' found h hle
    exact hobject.later state t t' (found key) h hle
  . intro request db state huses hother h
    have halone := huses.resolve_left (by simp [hother])
    rwa [live_firstLock_of_leavesAlone halone]
  . intro request db state _ hrequested h
    exact hobject.call request db state hrequested h

/--
An object that stands for a key answers all requests of a run as the server does, and stands for the key
in the end.
-/
theorem StandsFor.run (hobject : StandsFor object key shown holds) {events : List TrafficEvent}
    {start : Instant} {db : Database} {last : Traffic} {answers : List (ClientRequest × String)}
    {state : τ} (hinitial : holds state start (live start db.store key))
    (huses : ∀ event ∈ events, Uses shown key event)
    (hrun : system.run events (new start db) = some (last, answers))
    : let requests := (events.filterMap TrafficEvent.clientRequest).filter shown
      (answers.filter fun answer => shown answer.1) = object.answers requests state
        ∧ holds (object.after requests state) last.clock
          (live last.clock last.db.store key) := by
  have ⟨hholds, hanswers⟩ :=
    hobject.refines.run_watch clientRequest_of_step huses hinitial hrun
  exact ⟨hanswers.eq, hholds⟩

theorem forall_mem_shown {events : List TrafficEvent} {holds : ClientRequest → Prop}
    (h : ∀ event ∈ events, ∀ request, event.clientRequest = some request
      → shown request = true → holds request)
    : ∀ request ∈ (events.filterMap TrafficEvent.clientRequest).filter shown, holds request := by
  intro request hmem
  rw [List.mem_filter, List.mem_filterMap] at hmem
  obtain ⟨⟨event, hevent, hrequest⟩, hshown⟩ := hmem
  exact h event hevent request hrequest hshown

/-
Objects that stand for the entries of one shape.
-/

/--
Requests with one of the commands that have a key by `keyOf`.
-/
def isRequestOn (keyOf : Command → Option String) (key : String) (request : ClientRequest) : Bool :=
  match Command.parse request.tokens with
  | .ok command => keyOf command == some key
  | .error _ => false

theorem isRequestOn_iff {keyOf : Command → Option String} {request : ClientRequest}
    : isRequestOn keyOf key request = true
        ↔ ∃ command, Command.parse request.tokens = .ok command ∧ keyOf command = some key := by
  unfold isRequestOn
  cases Command.parse request.tokens with
  | error error => simp
  | ok command => simp

/--
The object that runs commands.
-/
def commands (run : Env → τ → Command → τ × String) : Linearize.Object τ ClientRequest String where
  call request state :=
    match Command.parse request.tokens with
    | .ok command => run request.env state command
    | .error _ => (state, "")

theorem call_commands {run : Env → τ → Command → τ × String} {request : ClientRequest}
    {command : Command} (hparse : Command.parse request.tokens = .ok command) (state : τ)
    : (commands run).call request state = run request.env state command := by
  simp only [commands, hparse]

theorem standsFor_of_keyOp {keyOf : Command → Option String} {run : Env → τ → Command → τ × String}
    {holds : τ → Option Entry → Prop}
    (hlive : ∀ state found now, holds state found → found.filter (Entry.isLive now) = found)
    (hrun : ∀ tokens command env state found, Command.parse tokens = .ok command
      → keyOf command = some key → holds state found
      → ∃ op, command.keyOp env = some (key, op)
        ∧ holds (run env state command).1 (op found).1
        ∧ (op found).2 = (run env state command).2)
    : StandsFor (commands run) key (isRequestOn keyOf key) fun state _ found => holds state found := by
  constructor
  . intro state t t' found hfound _
    rw [hlive state found t' hfound]
    exact hfound
  . intro request db state hshown hfound
    obtain ⟨command, hparse, hkey⟩ := isRequestOn_iff.mp hshown
    obtain ⟨op, hop, hnext, hanswer⟩ :=
      hrun request.tokens command request.env state _ hparse hkey hfound
    obtain ⟨hfirst, hreply, -⟩ := firstLock_of_parse_ok request.env db hparse
    rw [call_commands hparse]
    refine ⟨?_, hreply.trans ?_⟩
    . rw [hfirst.store key, live_execute_keyOp hop, hlive _ _ request.env.now hnext]
      exact hnext
    . rw [execute_eq_keyOp hop]
      dsimp only [Database.run, id_eq]
      rw [atKey_eq]
      exact hanswer

theorem standsFor_commands {keyOf : Command → Option String} {run : Env → τ → Command → τ × String}
    {entry : τ → Option Entry}
    (hentry : ∀ state now, (entry state).filter (Entry.isLive now) = entry state)
    (hrun : ∀ tokens command env state, Command.parse tokens = .ok command
      → keyOf command = some key
      → ∃ op, command.keyOp env = some (key, op)
        ∧ op (entry state) = (entry (run env state command).1, (run env state command).2))
    : StandsFor (commands run) key (isRequestOn keyOf key) fun state _ found => found = entry state
    := by
  apply standsFor_of_keyOp
  . rintro state found now rfl
    exact hentry state now
  . rintro tokens command env state found hparse hkey rfl
    obtain ⟨op, hop, hstate⟩ := hrun tokens command env state hparse hkey
    exact ⟨op, hop, congrArg Prod.fst hstate, congrArg Prod.snd hstate⟩

end Traffic
end RedisClone
