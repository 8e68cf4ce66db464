import Mathlib

/-!
This module contains a library for systems of many steps that are compared with a sequential object. A
step of the system answers a request, or it is silent. If every answer is the one the object gives, and
the object cannot tell that a silent step was taken, then the answers of any run are those of the object
to the same requests, one after the other.
-/

namespace Linearize

variable {σ τ υ ε ρ α : Type}

/--
An object that answers its requests one after the other.
-/
structure Object (τ ρ α : Type) where
  call : ρ → τ → τ × α

/--
A system, with steps that may be impossible and may answer a request.
-/
structure System (σ ε ρ α : Type) where
  step : σ → ε → Option (σ × Option (ρ × α))

namespace Object

def after (object : Object τ ρ α) (requests : List ρ) (state : τ) : τ :=
  requests.foldl (fun state request => (object.call request state).1) state

def answers (object : Object τ ρ α) : List ρ → τ → List (ρ × α)
  | [], _ => []
  | request :: requests, state =>
    (request, (object.call request state).2)
      :: object.answers requests (object.call request state).1

variable {object : Object τ ρ α} {requests requests' : List ρ} {state : τ}

@[simp]
theorem after_nil : object.after [] state = state := by
  rfl

@[simp]
theorem after_cons (request : ρ)
    : object.after (request :: requests) state
        =
      object.after requests (object.call request state).1 := by
  rfl

theorem after_append
    : object.after (requests ++ requests') state
        =
      object.after requests' (object.after requests state) := by
  exact List.foldl_append

theorem map_fst_answers : (object.answers requests state).map Prod.fst = requests := by
  induction requests generalizing state with
  | nil => rfl
  | cons request requests ih => rw [answers, List.map_cons, ih]

/--
What every request keeps holds of every state that a request finds.
-/
theorem answers_of_invariant {keeps : τ → Prop} (h : keeps state)
    (hkeeps : ∀ request ∈ requests, ∀ state, keeps state → keeps (object.call request state).1)
    : (∀ answer ∈ object.answers requests state,
          ∃ found, keeps found ∧ answer.2 = (object.call answer.1 found).2)
        ∧ keeps (object.after requests state) := by
  induction requests generalizing state with
  | nil => exact ⟨by simp [answers], h⟩
  | cons request requests ih =>
    rw [List.forall_mem_cons] at hkeeps
    rw [answers, after_cons, List.forall_mem_cons]
    have ⟨hanswers, hafter⟩ := ih (hkeeps.1 state h) hkeeps.2
    exact ⟨⟨⟨state, h, rfl⟩, hanswers⟩, hafter⟩

/--
A part of an object that answers some of its requests on its own, while the others leave it alone.
-/
structure Part (whole : Object τ ρ α) (part : Object υ ρ α) (shown : ρ → Bool) (view : τ → υ)
    : Prop where
  own : ∀ request state, shown request = true →
    view (whole.call request state).1 = (part.call request (view state)).1
      ∧ (whole.call request state).2 = (part.call request (view state)).2
  others : ∀ request state, shown request = false → view (whole.call request state).1 = view state

variable {part : Object υ ρ α} {shown : ρ → Bool} {view : τ → υ}

theorem Part.run (h : object.Part part shown view) (requests : List ρ) (state : τ)
    : (object.answers requests state).filter (fun answer => shown answer.1)
          = part.answers (requests.filter shown) (view state)
        ∧ view (object.after requests state) = part.after (requests.filter shown) (view state) := by
  induction requests generalizing state with
  | nil => exact ⟨rfl, rfl⟩
  | cons request requests ih =>
    obtain ⟨hanswers, hafter⟩ := ih (object.call request state).1
    rw [answers, after_cons, List.filter_cons, List.filter_cons, hanswers, hafter]
    cases hshown : shown request with
    | true =>
      obtain ⟨hnext, hreply⟩ := h.own request state hshown
      rw [hnext, hreply]
      exact ⟨rfl, rfl⟩
    | false =>
      rw [h.others request state hshown]
      exact ⟨rfl, rfl⟩

end Object

/--
Run a system, collecting its answers.
-/
def System.run (system : System σ ε ρ α) : List ε → σ → Option (σ × List (ρ × α))
  | [], state => some (state, [])
  | event :: events, state =>
    (system.step state event).bind fun next =>
      (system.run events next.1).map fun last => (last.1, next.2.toList ++ last.2)

variable {system : System σ ε ρ α}

theorem System.run_cons {event : ε} {events : List ε} {state last : σ} {answers : List (ρ × α)}
    (h : system.run (event :: events) state = some (last, answers))
    : ∃ next answer rest, system.step state event = some (next, answer)
        ∧ system.run events next = some (last, rest) ∧ answers = answer.toList ++ rest := by
  rw [run, Option.bind_eq_some_iff] at h
  obtain ⟨⟨next, answer⟩, hstep, hrest⟩ := h
  rw [Option.map_eq_some_iff] at hrest
  obtain ⟨⟨last', rest⟩, hrest, heq⟩ := hrest
  cases heq
  exact ⟨next, answer, rest, hstep, hrest, rfl⟩

/--
What the steps of the system keep holds after each run.
-/
theorem System.run_invariant {allowed : ε → Prop} {holds : σ → Prop}
    (h : ∀ state event next answer, allowed event → holds state
      → system.step state event = some (next, answer) → holds next)
    {events : List ε} {state last : σ} {answers : List (ρ × α)}
    (hevents : ∀ event ∈ events, allowed event) (hstate : holds state)
    (hrun : system.run events state = some (last, answers))
    : holds last := by
  induction events generalizing state answers with
  | nil =>
    cases hrun
    exact hstate
  | cons event events ih =>
    obtain ⟨next, answer, rest, hstep, hrest, -⟩ := run_cons hrun
    rw [List.forall_mem_cons] at hevents
    exact ih hevents.2 (h state event next answer hevents.1 hstate hstep) hrest

theorem System.run_append {events events' : List ε} {state last : σ} {answers : List (ρ × α)}
    (h : system.run (events ++ events') state = some (last, answers))
    : ∃ middle first rest, system.run events state = some (middle, first)
        ∧ system.run events' middle = some (last, rest) ∧ answers = first ++ rest := by
  induction events generalizing state answers with
  | nil => exact ⟨state, [], answers, rfl, h, rfl⟩
  | cons event events ih =>
    obtain ⟨next, answer, others, hstep, hothers, rfl⟩ := run_cons h
    obtain ⟨middle, first, rest, hfirst, hrest, rfl⟩ := ih hothers
    refine ⟨middle, answer.toList ++ first, rest, ?_, hrest, (List.append_assoc _ _ _).symm⟩
    rw [run, hstep, Option.bind_some, hfirst]
    rfl

/--
Allowed steps lead from one state to another.
-/
def System.Leads (system : System σ ε ρ α) (allowed : ε → Prop) (state last : σ) : Prop :=
  ∃ events answers, (∀ event ∈ events, allowed event)
    ∧ system.run events state = some (last, answers)

theorem System.Leads.refl {allowed : ε → Prop} (state : σ) : system.Leads allowed state state :=
  ⟨[], [], by simp, rfl⟩

theorem System.Leads.cons {allowed : ε → Prop} {event : ε} {state next last : σ}
    {answer : Option (ρ × α)} (hevent : allowed event)
    (hstep : system.step state event = some (next, answer)) (h : system.Leads allowed next last)
    : system.Leads allowed state last := by
  obtain ⟨events, answers, hevents, hrun⟩ := h
  refine ⟨event :: events, answer.toList ++ answers, ?_, ?_⟩
  . rw [List.forall_mem_cons]
    exact ⟨hevent, hevents⟩
  . rw [run, hstep, Option.bind_some, hrun]
    rfl

theorem System.Leads.mono {allowed allowed' : ε → Prop} {state last : σ}
    (himp : ∀ event, allowed event → allowed' event) (h : system.Leads allowed state last)
    : system.Leads allowed' state last := by
  obtain ⟨events, answers, hevents, hrun⟩ := h
  exact ⟨events, answers, fun event hmem => himp event (hevents event hmem), hrun⟩

theorem System.Leads.trans {allowed : ε → Prop} {state middle last : σ}
    (h : system.Leads allowed state middle) (h' : system.Leads allowed middle last)
    : system.Leads allowed state last := by
  obtain ⟨events, answers, hevents, hrun⟩ := h
  induction events generalizing state answers with
  | nil =>
    cases hrun
    exact h'
  | cons event events ih =>
    obtain ⟨next, answer, rest, hstep, hrest, -⟩ := run_cons hrun
    rw [List.forall_mem_cons] at hevents
    exact .cons hevents.1 hstep (ih rest hevents.2 hrest)

/--
The requests that a run has answered, if a step answers the request of its event.
-/
theorem System.map_fst_run (request : ε → Option ρ)
    (h : ∀ state event next answer, system.step state event = some (next, answer)
      → answer.map Prod.fst = request event)
    {events : List ε} {state last : σ} {answers : List (ρ × α)}
    (hrun : system.run events state = some (last, answers))
    : answers.map Prod.fst = events.filterMap request := by
  induction events generalizing state answers with
  | nil =>
    cases hrun
    rfl
  | cons event events ih =>
    obtain ⟨next, answer, rest, hstep, hrest, rfl⟩ := run_cons hrun
    rw [List.map_append, ih hrest, List.filterMap_cons, ← h state event next answer hstep]
    cases answer <;> rfl

/--
The system with some of its answers hidden.
-/
def System.watch (system : System σ ε ρ α) (shown : ρ → Bool) : System σ ε ρ α where
  step state event :=
    (system.step state event).map fun next => (next.1, next.2.filter fun answer => shown answer.1)

theorem System.run_watch (shown : ρ → Bool) {events : List ε} {state last : σ}
    {answers : List (ρ × α)} (hrun : system.run events state = some (last, answers))
    : (system.watch shown).run events state
        =
      some (last, answers.filter fun answer => shown answer.1) := by
  induction events generalizing state answers with
  | nil =>
    cases hrun
    rfl
  | cons event events ih =>
    obtain ⟨next, answer, rest, hstep, hrest, rfl⟩ := run_cons hrun
    have hwatch : (system.watch shown).step state event
        = some (next, answer.filter fun answer => shown answer.1) := by
      simp [watch, hstep]
    rw [run, hwatch, Option.bind_some, ih hrest, List.filter_append]
    cases answer with
    | none => rfl
    | some answer => cases hshown : shown answer.1 <;> simp [Option.filter, hshown]

/--
Answers to the same requests that are the same pairwise.
-/
def SameAnswers (same : ρ → α → α → Prop) : List (ρ × α) → List (ρ × α) → Prop :=
  List.Forall₂ fun answer answer' =>
    answer.1 = answer'.1 ∧ same answer.1 answer.2 answer'.2

/--
The states of a system and of an object are related so that a silent step is one the object cannot
see, and an answer is one that the object gives, as long as the events are the allowed ones.
-/
structure Refines (system : System σ ε ρ α) (object : Object τ ρ α) (allowed : ε → Prop)
    (rel : σ → τ → Prop) (same : ρ → α → α → Prop) : Prop where
  silent : ∀ state event next spec, allowed event → rel state spec
    → system.step state event = some (next, none) → rel next spec
  answered : ∀ state event next request answer spec, allowed event → rel state spec
    → system.step state event = some (next, some (request, answer))
    → rel next (object.call request spec).1 ∧ same request answer (object.call request spec).2

variable {object : Object τ ρ α} {allowed : ε → Prop} {rel : σ → τ → Prop}
  {same : ρ → α → α → Prop}

/--
What the steps of the system keep may be added to the relation.
-/
theorem Refines.and {allowed' : ε → Prop} {holds : σ → Prop}
    (h : Refines system object allowed rel same) (himp : ∀ event, allowed' event → allowed event)
    (hholds : ∀ state event next answer spec, allowed' event → rel state spec → holds state
      → system.step state event = some (next, answer) → holds next)
    : Refines system object allowed' (fun state spec => rel state spec ∧ holds state) same where
  silent state event next spec hallowed hrel hstep :=
    ⟨h.silent state event next spec (himp event hallowed) hrel.1 hstep,
      hholds state event next none spec hallowed hrel.1 hrel.2 hstep⟩
  answered state event next request answer spec hallowed hrel hstep := by
    have ⟨hnext, hsame⟩ :=
      h.answered state event next request answer spec (himp event hallowed) hrel.1 hstep
    exact ⟨⟨hnext, hholds state event next _ spec hallowed hrel.1 hrel.2 hstep⟩, hsame⟩

/--
A hidden answer is a silent step.
-/
theorem Refines.watch {shown : ρ → Bool}
    (hsilent : ∀ state event next spec, allowed event → rel state spec
      → system.step state event = some (next, none) → rel next spec)
    (hhidden : ∀ state event next request answer spec, allowed event → rel state spec
      → shown request = false → system.step state event = some (next, some (request, answer))
      → rel next spec)
    (hshown : ∀ state event next request answer spec, allowed event → rel state spec
      → shown request = true → system.step state event = some (next, some (request, answer))
      → rel next (object.call request spec).1 ∧ same request answer (object.call request spec).2)
    : Refines (system.watch shown) object allowed rel same := by
  constructor
  . intro state event next spec hallowed hrel hwatch
    obtain ⟨⟨next', answer⟩, hstep, heq⟩ := Option.map_eq_some_iff.mp hwatch
    rw [Prod.mk.injEq] at heq
    obtain ⟨rfl, hnone⟩ := heq
    cases answer with
    | none => exact hsilent state event next' spec hallowed hrel hstep
    | some answer =>
      have hfalse : shown answer.1 = false := by
        simpa [Option.filter] using hnone
      exact hhidden state event next' answer.1 answer.2 spec hallowed hrel hfalse hstep
  . intro state event next request answer spec hallowed hrel hwatch
    obtain ⟨⟨next', answer'⟩, hstep, heq⟩ := Option.map_eq_some_iff.mp hwatch
    rw [Prod.mk.injEq, Option.filter_eq_some_iff] at heq
    obtain ⟨rfl, rfl, htrue⟩ := heq
    exact hshown state event next' request answer spec hallowed hrel htrue hstep

/--
A run of the system answers its requests as the object does, in the order of the answers.
-/
theorem Refines.run (h : Refines system object allowed rel same) {events : List ε}
    {state last : σ} {answers : List (ρ × α)} {spec : τ} (hevents : ∀ event ∈ events, allowed event)
    (hrel : rel state spec) (hrun : system.run events state = some (last, answers))
    : rel last (object.after (answers.map Prod.fst) spec)
        ∧ SameAnswers same answers (object.answers (answers.map Prod.fst) spec) := by
  induction events generalizing state answers spec with
  | nil =>
    cases hrun
    exact ⟨hrel, .nil⟩
  | cons event events ih =>
    obtain ⟨next, answer, rest, hstep, hrest, rfl⟩ := System.run_cons hrun
    rw [List.forall_mem_cons] at hevents
    cases answer with
    | none =>
      have hnext := h.silent state event next spec hevents.1 hrel hstep
      exact ih hevents.2 hnext hrest
    | some answer =>
      have hnext := h.answered state event next answer.1 answer.2 spec hevents.1 hrel hstep
      have ⟨hlast, hanswers⟩ := ih hevents.2 hnext.1 hrest
      exact ⟨hlast, .cons ⟨rfl, hnext.2⟩ hanswers⟩

/--
The answers that are shown of a run are those of the object to the requests that are shown.
-/
theorem Refines.run_watch {shown : ρ → Bool}
    (h : Refines (system.watch shown) object allowed rel same) {request : ε → Option ρ}
    (hrequest : ∀ state event next answer, system.step state event = some (next, answer)
      → answer.map Prod.fst = request event)
    {events : List ε} {state last : σ} {answers : List (ρ × α)} {spec : τ}
    (hevents : ∀ event ∈ events, allowed event) (hrel : rel state spec)
    (hrun : system.run events state = some (last, answers))
    : let requests := (events.filterMap request).filter shown
      rel last (object.after requests spec)
        ∧ SameAnswers same (answers.filter fun answer => shown answer.1)
          (object.answers requests spec) := by
  have hshown : (answers.filter fun answer => shown answer.1).map Prod.fst
      = (events.filterMap request).filter shown := by
    rw [← system.map_fst_run request hrequest hrun, List.filter_map]
    rfl
  have hwatch := h.run hevents hrel (system.run_watch shown hrun)
  rwa [hshown] at hwatch

theorem SameAnswers.eq {answers answers' : List (ρ × α)}
    (h : SameAnswers (fun _ answer answer' => answer = answer') answers answers')
    : answers = answers' := by
  rw [← List.forall₂_eq_eq_eq]
  apply h.imp
  intro answer answer' hsame
  exact Prod.ext hsame.1 hsame.2

end Linearize
