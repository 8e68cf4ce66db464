import Mathlib

/-!
This module contains a library of double-ended queues as lists: what a sequence of pushes and pops takes
out, and what it leaves.
-/

namespace Deque

variable {α : Type}

/--
Pushing several values at the front pushes one after the other.
-/
inductive Op (α : Type) where
  | pushFront (values : List α)
  | pushBack (values : List α)
  | popFront
  | popBack

namespace Op

def next (items : List α) : Op α → List α
  | .pushFront values => values.reverse ++ items
  | .pushBack values => items ++ values
  | .popFront => items.tail
  | .popBack => items.dropLast

def popped (items : List α) : Op α → Option α
  | .popFront => items.head?
  | .popBack => items.getLast?
  | _ => none

def pushed : Op α → List α
  | .pushFront values | .pushBack values => values
  | _ => []

def isPop : Op α → Bool
  | .popFront | .popBack => true
  | _ => false

/--
The operations of a first-in, first-out queue.
-/
def isQueueOp : Op α → Bool
  | .pushBack _ | .popFront => true
  | _ => false

end Op

def after (items : List α) (ops : List (Op α)) : List α :=
  ops.foldl Op.next items

/--
What the pops take out, in their order; a pop finds nothing if there are no items.
-/
def outcomes (items : List α) : List (Op α) → List (Option α)
  | [] => []
  | op :: ops =>
    let rest := outcomes (op.next items) ops
    if op.isPop then op.popped items :: rest else rest

/--
The values that are pushed, in the order of the pushes.
-/
def pushed (ops : List (Op α)) : List α := ops.flatMap Op.pushed

variable {items : List α} {op : Op α} {ops : List (Op α)}

theorem toList_head?_append_tail (items : List α) : items.head?.toList ++ items.tail = items := by
  cases items <;> rfl

theorem dropLast_append_toList_getLast? (items : List α)
    : items.dropLast ++ items.getLast?.toList = items := by
  rcases List.eq_nil_or_concat items with rfl | ⟨init, last, rfl⟩
  . rfl
  . simp

theorem Op.next_perm (items : List α) (op : Op α)
    : ((op.popped items).toList ++ op.next items).Perm (items ++ op.pushed) := by
  cases op with
  | pushFront values =>
    have hvalues : (values.reverse ++ items).Perm (values ++ items) :=
      (List.reverse_perm values).append_right items
    exact hvalues.trans List.perm_append_comm
  | pushBack values => exact .refl _
  | popFront => simp [Op.popped, Op.next, Op.pushed, toList_head?_append_tail]
  | popBack =>
    have hlast := dropLast_append_toList_getLast? items
    simp only [Op.popped, Op.next, Op.pushed, List.append_nil]
    nth_rewrite 3 [← hlast]
    exact List.perm_append_comm

theorem reduceOption_outcomes_cons (items : List α) (op : Op α) (ops : List (Op α))
    : (outcomes items (op :: ops)).reduceOption
        =
      (op.popped items).toList ++ (outcomes (op.next items) ops).reduceOption := by
  rw [outcomes]
  cases op with
  | popFront => cases h : items.head? <;> simp [Op.isPop, Op.popped, h]
  | popBack => cases h : items.getLast? <;> simp [Op.isPop, Op.popped, h]
  | pushFront values => rfl
  | pushBack values => rfl

/--
Nothing is lost and nothing is popped twice.
-/
theorem outcomes_append_after_perm (items : List α) (ops : List (Op α))
    : ((outcomes items ops).reduceOption ++ after items ops).Perm (items ++ pushed ops) := by
  induction ops generalizing items with
  | nil => simp [outcomes, after, pushed]
  | cons op ops ih =>
    have hrest := ih (op.next items)
    rw [reduceOption_outcomes_cons, List.append_assoc]
    calc (op.popped items).toList ++ ((outcomes (op.next items) ops).reduceOption
          ++ after items (op :: ops))
      _ |>.Perm ((op.popped items).toList ++ (op.next items ++ pushed ops)) :=
        hrest.append_left _
      _ |>.Perm (items ++ (op.pushed ++ pushed ops)) := by
        rw [← List.append_assoc, ← List.append_assoc]
        exact (op.next_perm items).append_right _

theorem Op.next_of_isQueueOp (h : op.isQueueOp = true)
    : (op.popped items).toList ++ op.next items = items ++ op.pushed := by
  cases op with
  | pushBack values => rfl
  | popFront => simp [Op.popped, Op.next, Op.pushed, toList_head?_append_tail]
  | pushFront values => cases h
  | popBack => cases h

/--
Values that are pushed at the back and popped at the front come out in the order they went in.
-/
theorem outcomes_append_after (items : List α) (h : ∀ op ∈ ops, op.isQueueOp = true)
    : (outcomes items ops).reduceOption ++ after items ops = items ++ pushed ops := by
  induction ops generalizing items with
  | nil => simp [outcomes, after, pushed]
  | cons op ops ih =>
    rw [List.forall_mem_cons] at h
    have hrest := ih (op.next items) h.2
    rw [reduceOption_outcomes_cons, List.append_assoc]
    calc (op.popped items).toList ++ ((outcomes (op.next items) ops).reduceOption
          ++ after items (op :: ops))
      _ = (op.popped items).toList ++ (op.next items ++ pushed ops) := by
        rw [← hrest]
        rfl
      _ = items ++ (op.pushed ++ pushed ops) := by
        rw [← List.append_assoc, Op.next_of_isQueueOp h.1, List.append_assoc]

end Deque
