import Libraft.Foundation.Scheduled
import Libraft.Foundation.CondVar
import Mathlib.Algebra.Order.BigOperators.Ring.Finset

/-!
# Runs which come to an end

A measure which every step decreases bounds the length of a run. For a system
of threads the measure is a sum of weights, one for the position of each
thread, and a weight for each notification which has not been consumed.
-/

namespace Libraft.Foundation

section Runs
variable {σ α : Type*} {S : Scheduled σ α}

/-- If the actions which meet a condition keep an invariant and decrease a measure, a
schedule of such actions is no longer than the measure. -/
theorem Scheduled.run_of_decreasing {P : α → Prop} {I : σ → Prop} {m : σ → ℕ}
    (hstep : ∀ s a t, I s → P a → S.step s a = some t → I t ∧ m t < m s)
    {s t : σ} (hs : I s) {sched : List α} (ha : ∀ a ∈ sched, P a)
    (hr : S.run s sched = some t) : I t ∧ sched.length + m t ≤ m s := by
  induction sched generalizing s with
  | nil =>
      cases hr
      exact ⟨hs, by simp⟩
  | cons a rest ih =>
      cases hst : S.step s a with
      | none => simp [Scheduled.run_cons, hst] at hr
      | some u =>
          simp only [Scheduled.run_cons, hst, Option.bind_some] at hr
          obtain ⟨hu, hlt⟩ := hstep s a u hs (ha a List.mem_cons_self) hst
          obtain ⟨ht, hle⟩ := ih hu (fun b hb => ha b (List.mem_cons_of_mem _ hb)) hr
          refine ⟨ht, ?_⟩
          rw [List.length_cons]
          omega

end Runs

section Weights
variable {ι P : Type*} {threads : Finset ι}

/-- The weights of the positions of the threads. -/
def total (threads : Finset ι) (weight : P → ℕ) (pc : ι → P) : ℕ := ∑ t ∈ threads, weight (pc t)

theorem total_le (threads : Finset ι) {weight : P → ℕ} {bound : ℕ} (h : ∀ p, weight p ≤ bound)
    (pc : ι → P) : total threads weight pc ≤ threads.card * bound := by
  have hle := Finset.sum_le_card_nsmul threads (fun t => weight (pc t)) bound
    fun t _ => h (pc t)
  rwa [nsmul_eq_mul] at hle

theorem total_congr {weight : P → ℕ} {pc pc' : ι → P}
    (h : ∀ t ∈ threads, weight (pc' t) = weight (pc t)) :
    total threads weight pc' = total threads weight pc :=
  Finset.sum_congr rfl h

/-- One thread moves. -/
theorem total_update [DecidableEq ι] (weight : P → ℕ) (pc : ι → P) {t : ι} (ht : t ∈ threads)
    (p : P) :
    total threads weight (Function.update pc t p) + weight (pc t) =
      total threads weight pc + weight p := by
  have hrest : ∑ u ∈ threads.erase t, weight (Function.update pc t p u) =
      ∑ u ∈ threads.erase t, weight (pc u) := by
    refine Finset.sum_congr rfl fun u hu => ?_
    rw [Function.update_of_ne (Finset.ne_of_mem_erase hu)]
  have hnew := Finset.add_sum_erase threads (fun u => weight (Function.update pc t p u)) ht
  have hold := Finset.add_sum_erase threads (fun u => weight (pc u)) ht
  rw [Function.update_self] at hnew
  unfold total
  omega

end Weights

namespace CondVar
variable {ι : Type*} [DecidableEq ι] {c d : CondVar ι}

theorem card_wait_le (c : CondVar ι) (t : ι) : (c.wait t).notified.card ≤ c.notified.card :=
  Finset.card_erase_le

theorem card_resume {t : ι} (h : t ∈ c.notified) :
    (c.resume t).notified.card + 1 = c.notified.card :=
  Finset.card_erase_add_one h

theorem card_notifyOne_le {w : Option ι} (h : c.notifyOne w = some d) :
    d.notified.card ≤ c.notified.card + 1 := by
  rcases notifyOne_cases h with ⟨rfl, -⟩ | ⟨t, -, rfl⟩
  · exact Nat.le_succ _
  · exact Finset.card_insert_le t c.notified

theorem card_notifyAll_le [Fintype ι] (c : CondVar ι) :
    c.notifyAll.notified.card ≤ c.notified.card + Fintype.card ι := by
  have hle := Finset.card_union_le c.waiting c.notified
  have hwait := Finset.card_le_univ c.waiting
  change (c.waiting ∪ c.notified).card ≤ _
  omega

/-- Somebody can always be notified, or nobody has to be. -/
theorem exists_notifyOne (c : CondVar ι) : ∃ w d, c.notifyOne w = some d := by
  by_cases he : c.waiting = ∅
  · exact ⟨none, c, by simp [notifyOne, he]⟩
  · obtain ⟨t, ht⟩ := Finset.nonempty_iff_ne_empty.mpr he
    exact ⟨some t, c.wake t, by simp [notifyOne, ht]⟩

theorem Blocks.wake {u : ι} (h : c.Blocks u) (t : ι) : (c.wake t).Blocks u := by
  by_cases hu : u = t
  · exact .inr (by simp [CondVar.wake, hu])
  · simpa [Blocks, CondVar.wake, hu] using h

theorem Blocks.notifyOne {u : ι} (h : c.Blocks u) {w : Option ι} (hn : c.notifyOne w = some d) :
    d.Blocks u := by
  rcases notifyOne_cases hn with ⟨rfl, -⟩ | ⟨t, -, rfl⟩
  · exact h
  · exact h.wake t

end CondVar

end Libraft.Foundation
