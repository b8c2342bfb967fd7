import Mathlib.Data.Option.Basic
import Mathlib.Order.Nat

/-!
# Nested intervals

A scan from left to right opens intervals and closes them again, the one opened
last first. Some intervals are leaves: they get both of their ends at once. Of
two intervals the later one then lies behind the earlier one or inside of it,
and nothing lies inside of a leaf.
-/

namespace Libraft.Foundation

/-- An interval; it has no end as long as it is open. -/
structure Span (α : Type*) where
  start : α
  stop : Option α
  leaf : Bool

/-- The first `n` spans, found by a scan which has come to `pos`. -/
structure Nested {α : Type*} [LE α] [LT α] (span : ℕ → Span α) (n : ℕ) (pos : α) : Prop where
  start_lt : ∀ i < n, (span i).start < pos
  stop_le : ∀ i < n, ∀ e ∈ (span i).stop, (span i).start ≤ e ∧ e ≤ pos
  increasing : ∀ i j, i < j → j < n → (span i).start < (span j).start
  apart : ∀ i j, i < j → j < n → ∀ e ∈ (span i).stop,
    e ≤ (span j).start ∨ (span i).leaf = false ∧ ∃ e' ∈ (span j).stop, e' < e

namespace Nested

variable {α : Type*} [Preorder α] {span span' : ℕ → Span α} {n : ℕ} {pos pos' : α}

theorem zero (span : ℕ → Span α) (pos : α) : Nested span 0 pos where
  start_lt := fun i hi => absurd hi i.not_lt_zero
  stop_le := fun i hi => absurd hi i.not_lt_zero
  increasing := fun _ j _ hj => absurd hj j.not_lt_zero
  apart := fun _ j _ hj => absurd hj j.not_lt_zero

theorem congr (h : Nested span n pos) (he : ∀ i < n, span' i = span i) : Nested span' n pos where
  start_lt := fun i hi => he i hi ▸ h.start_lt i hi
  stop_le := fun i hi => he i hi ▸ h.stop_le i hi
  increasing := by
    intro i j hij hj
    rw [he i (hij.trans hj), he j hj]
    exact h.increasing i j hij hj
  apart := by
    intro i j hij hj
    rw [he i (hij.trans hj), he j hj]
    exact h.apart i j hij hj

/-- The scan goes on. -/
theorem mono (h : Nested span n pos) (hle : pos ≤ pos') : Nested span n pos' where
  start_lt := fun i hi => (h.start_lt i hi).trans_le hle
  stop_le := fun i hi e he => ⟨(h.stop_le i hi e he).1, (h.stop_le i hi e he).2.trans hle⟩
  increasing := h.increasing
  apart := h.apart

/-- A new span, which begins where the scan is or behind it. -/
theorem push (h : Nested span n pos) (hstart : pos ≤ (span n).start)
    (hlt : (span n).start < pos')
    (hstop : ∀ e ∈ (span n).stop, (span n).start ≤ e ∧ e ≤ pos') : Nested span (n + 1) pos' where
  start_lt := by
    intro i hi
    rcases Nat.lt_succ_iff_lt_or_eq.mp hi with hi | rfl
    · exact (h.start_lt i hi).trans_le (hstart.trans hlt.le)
    · exact hlt
  stop_le := by
    intro i hi e he
    rcases Nat.lt_succ_iff_lt_or_eq.mp hi with hi | rfl
    · exact (h.mono (hstart.trans hlt.le)).stop_le i hi e he
    · exact hstop e he
  increasing := by
    intro i j hij hj
    rcases Nat.lt_succ_iff_lt_or_eq.mp hj with hj | rfl
    · exact h.increasing i j hij hj
    · exact (h.start_lt i hij).trans_le hstart
  apart := by
    intro i j hij hj e he
    rcases Nat.lt_succ_iff_lt_or_eq.mp hj with hj | rfl
    · exact h.apart i j hij hj e he
    · exact Or.inl ((h.stop_le i hij e he).2.trans hstart)

/-- The span which was opened last is closed: what was found since then lies in it. -/
theorem close (h : Nested span n pos) {i : ℕ} (hi : i < n) (hopen : (span i).stop = none)
    (hleaf : (span i).leaf = false) (hlast : ∀ j, i < j → j < n → (span j).stop ≠ none)
    (hlt : pos < pos') :
    Nested (Function.update span i { span i with stop := some pos' }) n pos' where
  start_lt := by
    intro j hj
    rcases eq_or_ne j i with rfl | hji
    · rw [Function.update_self]
      exact (h.start_lt j hj).trans hlt
    · rw [Function.update_of_ne hji]
      exact (h.start_lt j hj).trans hlt
  stop_le := by
    intro j hj e he
    rcases eq_or_ne j i with rfl | hji
    · rw [Function.update_self] at he ⊢
      cases he
      exact ⟨((h.start_lt j hj).trans hlt).le, le_rfl⟩
    · rw [Function.update_of_ne hji] at he ⊢
      exact (h.mono hlt.le).stop_le j hj e he
  increasing := by
    have hstart : ∀ j, (Function.update span i { span i with stop := some pos' } j).start =
        (span j).start := by
      intro j
      rcases eq_or_ne j i with rfl | hji
      · rw [Function.update_self]
      · rw [Function.update_of_ne hji]
    intro j k hjk hk
    rw [hstart, hstart]
    exact h.increasing j k hjk hk
  apart := by
    intro j k hjk hk e he
    rcases eq_or_ne j i with rfl | hji
    · -- the end of a later span is not behind the place where the scan was
      rw [Function.update_self] at he ⊢
      rw [Function.update_of_ne hjk.ne']
      cases he
      obtain ⟨e', he'⟩ := Option.ne_none_iff_exists'.mp (hlast k hjk hk)
      exact Or.inr ⟨hleaf, e', he', (h.stop_le k hk e' he').2.trans_lt hlt⟩
    · rw [Function.update_of_ne hji] at he ⊢
      rcases eq_or_ne k i with rfl | hki
      · rw [Function.update_self]
        rcases h.apart j k hjk hk e he with hle | ⟨-, e', he', -⟩
        · exact Or.inl hle
        · rw [hopen] at he'
          cases he'
      · rw [Function.update_of_ne hki]
        exact h.apart j k hjk hk e he

end Nested

end Libraft.Foundation
