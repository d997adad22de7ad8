import Mathlib

/-! Bounded queues that make room by dropping their oldest element, independent of any program.

    Elements are pushed one by one; now and then the queue is cleared, or drained into an output.
    At any time the queue holds the last `cap` of the elements that are pending, which are those
    pushed since it was last emptied, and the output is a subsequence of what was pushed.

        pushed:   ░░░ out ░░░│ cleared │░ out ░│ dropped │ queue
                                               └──── pending ────┘ -/

namespace BoundedQueue

variable {α : Type*}

/-- A full queue drops its oldest element before it takes the next one. -/
def push (cap : ℕ) (q : List α) (a : α) : List α := (if cap ≤ q.length then q.tail else q) ++ [a]

inductive Op (α : Type*) where
  | push (a : α)
  | clear
  | drain

/-- A queue and what it was drained into. -/
structure State (α : Type*) where
  queue : List α
  output : List α

def State.empty : State α := ⟨[], []⟩

def step (cap : ℕ) (s : State α) : Op α → State α
  | .push a => { s with queue := push cap s.queue a }
  | .clear => { s with queue := [] }
  | .drain => ⟨[], s.output ++ s.queue⟩

def run (cap : ℕ) (ops : List (Op α)) : State α := ops.foldl (step cap) .empty

/-- What is pushed. -/
def pushed (ops : List (Op α)) : List α :=
  ops.flatMap fun
    | .push a => [a]
    | .clear | .drain => []

/-- What is pending after one more operation. -/
def next (p : List α) : Op α → List α
  | .push a => p ++ [a]
  | .clear | .drain => []

/-- What was pushed since the queue was last emptied. -/
def pending (ops : List (Op α)) : List α := ops.foldl next []

theorem run_concat (cap : ℕ) (ops : List (Op α)) (op : Op α) :
    run cap (ops ++ [op]) = step cap (run cap ops) op := by
  rw [run, List.foldl_append]; rfl

theorem pending_concat (ops : List (Op α)) (op : Op α) :
    pending (ops ++ [op]) = next (pending ops) op := by
  rw [pending, List.foldl_append]; rfl

theorem pushed_concat (ops : List (Op α)) (op : Op α) :
    pushed (ops ++ [op]) = pushed ops ++ pushed [op] := List.flatMap_append

theorem length_rtake (n : ℕ) (l : List α) : (l.rtake n).length = min l.length n := by
  rw [List.rtake, List.length_drop]
  omega

/-- STEP: a push onto the last `cap` elements leaves the last `cap` elements. -/
theorem push_rtake {cap : ℕ} (hcap : 0 < cap) (l : List α) (a : α) :
    push cap (l.rtake cap) a = (l ++ [a]).rtake cap := by
  obtain ⟨n, rfl⟩ := Nat.exists_eq_add_of_lt hcap
  rw [Nat.zero_add, List.rtake_concat_succ, push, length_rtake]
  congr 1
  by_cases hfull : n + 1 ≤ l.length
  · have hdrop : l.length - n = l.length - (n + 1) + 1 := by omega
    rw [if_pos (by omega), List.rtake, List.rtake, List.tail_drop, hdrop]
  · rw [if_neg (by omega), List.rtake, List.rtake, Nat.sub_eq_zero_of_le (by omega),
      Nat.sub_eq_zero_of_le (by omega)]

/-- QUEUE: after any operations, the queue holds the last `cap` of what is pending. -/
theorem run_queue {cap : ℕ} (hcap : 0 < cap) (ops : List (Op α)) :
    (run cap ops).queue = (pending ops).rtake cap := by
  induction ops using List.reverseRecOn with
  | nil => exact (List.rtake_nil cap).symm
  | append_singleton ops op ih =>
    rw [run_concat, pending_concat]
    cases op with
    | push a => rw [next, ← push_rtake hcap, ← ih]; rfl
    | clear | drain => exact (List.rtake_nil cap).symm

/-- OUTPUT: the output, followed by what is pending, is a subsequence of what was pushed. -/
theorem run_output {cap : ℕ} (hcap : 0 < cap) (ops : List (Op α)) :
    ((run cap ops).output ++ pending ops).Sublist (pushed ops) := by
  induction ops using List.reverseRecOn with
  | nil => exact List.Sublist.refl []
  | append_singleton ops op ih =>
    rw [run_concat, pending_concat, pushed_concat]
    cases op with
    | push a =>
      rw [next, ← List.append_assoc]
      exact ih.append (List.Sublist.refl [a])
    | clear =>
      rw [next, List.append_nil]
      exact ((List.sublist_append_left _ _).trans ih).trans (List.sublist_append_left _ _)
    | drain =>
      -- what is drained are the last of the pending elements
      have hlast : (run cap ops).queue.Sublist (pending ops) := by
        rw [run_queue hcap]
        exact List.drop_sublist _ _
      rw [next, List.append_nil, step]
      exact (((List.Sublist.refl _).append hlast).trans ih).trans (List.sublist_append_left _ _)

end BoundedQueue
