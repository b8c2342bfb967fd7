import Mathlib.Data.List.Basic

/-!
# Bounded first-in first-out queues

The abstract queue keeps the values accepted so far, the values delivered so
far and the values in between. An implementation is compared with it step by
step; the laws below then hold for all of its runs.
-/

namespace Libraft.Foundation

variable {T : Type*}

/-- A queue with its whole history. -/
@[ext] structure Fifo (T : Type*) where
  accepted : List T
  delivered : List T
  contents : List T

namespace Fifo

def empty : Fifo T := ⟨[], [], []⟩

/-- One step of a queue of at most `bound` values. -/
inductive Step (bound : ℕ) (q : Fifo T) : Fifo T → Prop
  | stay : Step bound q q
  | enqueue (v : T) (h : q.contents.length < bound) :
      Step bound q ⟨q.accepted ++ [v], q.delivered, q.contents ++ [v]⟩
  | dequeue (v : T) (rest : List T) (h : q.contents = v :: rest) :
      Step bound q ⟨q.accepted, q.delivered ++ [v], rest⟩

/-- Nothing is lost, duplicated or reordered, and the bound is kept. -/
structure Lawful (bound : ℕ) (q : Fifo T) : Prop where
  conserved : q.delivered ++ q.contents = q.accepted
  bounded : q.contents.length ≤ bound

theorem lawful_empty (bound : ℕ) : Lawful bound (empty : Fifo T) :=
  ⟨rfl, Nat.zero_le bound⟩

theorem Lawful.step {bound : ℕ} {q q' : Fifo T} (h : Lawful bound q)
    (hs : Step bound q q') : Lawful bound q' := by
  cases hs with
  | stay => exact h
  | enqueue v hv =>
      constructor
      · rw [← List.append_assoc, h.conserved]
      · simp only [List.length_append, List.length_singleton]
        omega
  | dequeue v rest hv =>
      have hc := h.conserved
      have hb := h.bounded
      rw [hv] at hc hb
      constructor
      · simpa only [List.append_assoc, List.singleton_append] using hc
      · simp only [List.length_cons] at hb
        exact Nat.le_of_succ_le hb

end Fifo

end Libraft.Foundation
