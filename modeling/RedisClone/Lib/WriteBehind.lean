import Mathlib

/-!
This module contains a library of logs that are written behind the state they describe: a change is
applied to the state at once, its entry waits and is appended to the log later, not always in turn.
Replaying the log is folding it.
-/

namespace WriteBehind

variable {σ ε : Type} (apply : σ → ε → σ) (Inv : σ → Prop)

/--
Entries that have the same effect in either order on all states with the invariant.
-/
def Commute (e e' : ε) : Prop :=
  ∀ s, Inv s → apply (apply s e) e' = apply (apply s e') e

/--
Replaying the log and then the waiting entries leads from the initial to the current state.
-/
def Replays (init : σ) (log waiting : List ε) (state : σ) : Prop :=
  (log ++ waiting).foldl apply init = state

variable {apply Inv} {init state : σ} {log waiting before behind : List ε} {e : ε}

/--
An entry that commutes with all entries before it can be moved to the front of them.
-/
theorem foldl_move (hstep : ∀ s, ∀ e ∈ before, Inv s → Inv (apply s e))
    (hcommute : ∀ e' ∈ before, Commute apply Inv e e') (h : Inv init)
    : (before ++ [e]).foldl apply init = (e :: before).foldl apply init := by
  induction before generalizing init with
  | nil => rfl
  | cons e' before ih =>
    have hnext : Inv (apply init e') := hstep init e' List.mem_cons_self h
    have hfirst : apply (apply init e) e' = apply (apply init e') e :=
      hcommute e' List.mem_cons_self init h
    have hrest := ih (fun s e'' hmem => hstep s e'' (List.mem_cons_of_mem e' hmem))
      (fun e'' hmem => hcommute e'' (List.mem_cons_of_mem e' hmem)) hnext
    calc (e' :: before ++ [e]).foldl apply init
      _ = (before ++ [e]).foldl apply (apply init e') := by rfl
      _ = before.foldl apply (apply (apply init e') e) := hrest
      _ = before.foldl apply (apply (apply init e) e') := by rw [hfirst]

theorem replays_nil (init : σ) : Replays apply init [] [] init := by
  rfl

/--
A change is applied, and its entry waits behind the others.
-/
theorem Replays.wait (h : Replays apply init log waiting state) (e : ε)
    : Replays apply init log (waiting ++ [e]) (apply state e) := by
  unfold Replays at *
  rw [← List.append_assoc, List.foldl_append, h]
  rfl

/--
An entry is appended, though others that it commutes with have waited longer.
-/
theorem Replays.append (h : Replays apply init log (before ++ e :: behind) state)
    (hstep : ∀ s, ∀ e ∈ log ++ before, Inv s → Inv (apply s e))
    (hcommute : ∀ e' ∈ before, Commute apply Inv e e') (hinit : Inv init)
    : Replays apply init (log ++ [e]) (before ++ behind) state := by
  have hlog : Inv (log.foldl apply init) := by
    refine List.foldlRecOn log apply hinit ?_
    intro s hs e' hmem
    exact hstep s e' (List.mem_append_left before hmem) hs
  have hmove := foldl_move (fun s e' hmem => hstep s e' (List.mem_append_right log hmem)) hcommute
    hlog
  unfold Replays at *
  have hsplit : log ++ (before ++ e :: behind) = log ++ ((before ++ [e]) ++ behind) := by simp
  have hjoin : log ++ [e] ++ (before ++ behind) = log ++ ((e :: before) ++ behind) := by simp
  rw [← h, hsplit, hjoin, List.foldl_append, List.foldl_append, List.foldl_append,
    List.foldl_append, hmove]

/--
Once nothing waits, the log alone leads to the state.
-/
theorem Replays.settled (h : Replays apply init log [] state) : log.foldl apply init = state := by
  unfold Replays at h
  rwa [List.append_nil] at h

end WriteBehind
