import Mathlib.Data.Finset.Card

/-!
# Mutexes and condition variables

A mutex is described by its holder. The threads blocked on a condition
variable are split into those for which no notification has arrived and those
which have been notified, or have woken up spuriously, and still have to
acquire the mutex again.

## Implementation notes

The positions of a program at which a thread holds a mutex, or is blocked on
a condition variable, are given as predicates. `HeldAt` and `BlockedAt` say
that the recorded holder and the recorded waiters are exactly the threads at
these positions; each has one rule for every synchronisation operation.
-/

namespace Libraft.Foundation

variable {ι P : Type*}

/-- The holder of the mutex is exactly the thread at a marked position. -/
def HeldAt (holds : P → Bool) (mutex : Option ι) (pc : ι → P) : Prop :=
  ∀ t, mutex = some t ↔ holds (pc t) = true

/-- What a step of thread `t` does to a mutex, and whether the thread holds it
before and after. -/
inductive LockStep (t : ι) : Option ι → Bool → Option ι → Bool → Prop
  | keep {mutex b} : LockStep t mutex b mutex b
  | acquire : LockStep t none false (some t) true
  | release {mutex} : LockStep t mutex true none false

namespace HeldAt
variable [DecidableEq ι] {holds : P → Bool} {mutex : Option ι} {pc : ι → P} {t : ι} {p : P}

/-- A step which neither acquires nor releases. -/
theorem keep (h : HeldAt holds mutex pc) (hp : holds p = holds (pc t)) :
    HeldAt holds mutex (Function.update pc t p) := by
  intro u
  by_cases hu : u = t
  · subst u
    simpa [hp] using h t
  · simpa [hu] using h u

theorem acquire (h : HeldAt holds none pc) (hp : holds p = true) :
    HeldAt holds (some t) (Function.update pc t p) := by
  intro u
  by_cases hu : u = t
  · subst u
    simp [hp]
  · have hn : holds (pc u) ≠ true := fun he => by simpa using (h u).mpr he
    simp [hu, hn, Ne.symm hu]

theorem release (h : HeldAt holds mutex pc) (ht : holds (pc t) = true)
    (hp : holds p = false) : HeldAt holds none (Function.update pc t p) := by
  intro u
  by_cases hu : u = t
  · subst u
    simp [hp]
  · have hn : holds (pc u) ≠ true := by
      intro he
      have hut := ((h u).mpr he).symm.trans ((h t).mpr ht)
      exact hu (Option.some.inj hut)
    simpa [hu] using hn

/-- The three rules as one, for a step of which only this much is known. -/
theorem step {mutex' : Option ι} (h : HeldAt holds mutex pc)
    (hs : LockStep t mutex (holds (pc t)) mutex' (holds p)) :
    HeldAt holds mutex' (Function.update pc t p) := by
  generalize hb : holds (pc t) = b at hs
  generalize hp : holds p = b' at hs
  cases hs with
  | keep => exact h.keep (hp.trans hb.symm)
  | acquire => exact h.acquire hp
  | release => exact h.release hb hp

omit [DecidableEq ι] in
/-- Two threads at marked positions are the same thread. -/
theorem unique (h : HeldAt holds mutex pc) {u : ι} (ht : holds (pc t) = true)
    (hu : holds (pc u) = true) : t = u :=
  Option.some.inj (((h t).mpr ht).symm.trans ((h u).mpr hu))

end HeldAt

/-- The two sets of threads blocked on one condition variable. -/
structure CondVar (ι : Type*) where
  waiting : Finset ι
  notified : Finset ι
  disjoint : ∀ t ∈ waiting, t ∉ notified

namespace CondVar

/-- Nobody is blocked. -/
def empty : CondVar ι := ⟨∅, ∅, by simp⟩

section Operations
variable [DecidableEq ι]

/-- Thread `t` blocks; releasing the mutex is up to the caller. -/
def wait (c : CondVar ι) (t : ι) : CondVar ι where
  waiting := insert t c.waiting
  notified := c.notified.erase t
  disjoint := by
    intro u hu
    rcases Finset.mem_insert.mp hu with rfl | hu
    · simp
    · exact fun hn => c.disjoint u hu (Finset.mem_of_mem_erase hn)

/-- Thread `t` gets a notification, or wakes up without one. -/
def wake (c : CondVar ι) (t : ι) : CondVar ι where
  waiting := c.waiting.erase t
  notified := insert t c.notified
  disjoint := by
    intro u hu hn
    rcases Finset.mem_insert.mp hn with rfl | hn
    · simp at hu
    · exact c.disjoint u (Finset.mem_of_mem_erase hu) hn

/-- Thread `t` leaves the condition variable with the mutex in its hands. -/
def resume (c : CondVar ι) (t : ι) : CondVar ι where
  waiting := c.waiting
  notified := c.notified.erase t
  disjoint := fun u hu hn => c.disjoint u hu (Finset.mem_of_mem_erase hn)

/-- Wake one waiting thread of the scheduler's choice. Choosing nobody is
possible exactly when nobody waits. -/
def notifyOne (c : CondVar ι) : Option ι → Option (CondVar ι)
  | none => if c.waiting = ∅ then some c else none
  | some t => if t ∈ c.waiting then some (c.wake t) else none

/-- Wake all waiting threads. -/
def notifyAll (c : CondVar ι) : CondVar ι where
  waiting := ∅
  notified := c.waiting ∪ c.notified
  disjoint := by simp

/-- A notification wakes nobody only if nobody waits. -/
theorem notifyOne_cases {c d : CondVar ι} {w : Option ι} (h : c.notifyOne w = some d) :
    (d = c ∧ c.waiting = ∅) ∨ ∃ t, t ∈ c.waiting ∧ d = c.wake t := by
  cases w with
  | none =>
      by_cases he : c.waiting = ∅
      · simp only [notifyOne, if_pos he, Option.some.injEq] at h
        exact .inl ⟨h.symm, he⟩
      · simp [notifyOne, he] at h
  | some t =>
      by_cases ht : t ∈ c.waiting
      · simp only [notifyOne, if_pos ht, Option.some.injEq] at h
        exact .inr ⟨t, ht, h.symm⟩
      · simp [notifyOne, ht] at h

theorem waiting_subset_of_notifyOne {c d : CondVar ι} {w : Option ι}
    (h : c.notifyOne w = some d) : d.waiting ⊆ c.waiting := by
  rcases notifyOne_cases h with ⟨rfl, -⟩ | ⟨t, -, rfl⟩
  · exact Finset.Subset.refl _
  · exact Finset.erase_subset t c.waiting

/-- A notification finds the only thread which can wait. -/
theorem waiting_eq_empty_of_notifyOne {c d : CondVar ι} {w : Option ι} {u : ι}
    (h : c.notifyOne w = some d) (hu : ∀ t ∈ c.waiting, t = u) : d.waiting = ∅ := by
  rcases notifyOne_cases h with ⟨rfl, he⟩ | ⟨t, ht, rfl⟩
  · exact he
  · apply Finset.eq_empty_of_forall_notMem
    intro v hv
    obtain ⟨hne, hmem⟩ := Finset.mem_erase.mp hv
    exact hne ((hu v hmem).trans (hu t ht).symm)

/-- The same when the waiting threads have been counted. -/
theorem waiting_eq_empty_of_card_le_one {c d : CondVar ι} {w : Option ι}
    (h : c.notifyOne w = some d) (hc : c.waiting.card ≤ 1) : d.waiting = ∅ := by
  rcases notifyOne_cases h with ⟨rfl, he⟩ | ⟨t, ht, -⟩
  · exact he
  · exact waiting_eq_empty_of_notifyOne h fun u hu => Finset.card_le_one.mp hc u hu t ht

end Operations

/-- Thread `t` has not returned from its wait. -/
def Blocks (c : CondVar ι) (t : ι) : Prop := t ∈ c.waiting ∨ t ∈ c.notified

end CondVar

/-- The threads blocked on the condition variable are exactly those at a
marked position. -/
def BlockedAt (blocked : P → Prop) (c : CondVar ι) (pc : ι → P) : Prop :=
  ∀ t, c.Blocks t ↔ blocked (pc t)

namespace BlockedAt
variable {blocked : P → Prop} {c d : CondVar ι} {pc : ι → P} {t : ι} {p : P}

theorem empty (h : ∀ t, ¬ blocked (pc t)) : BlockedAt blocked .empty pc := by
  intro t
  simp [CondVar.Blocks, CondVar.empty, h t]

variable [DecidableEq ι]

/-- A step which neither blocks nor resumes. -/
theorem keep (h : BlockedAt blocked c pc) (hp : blocked p ↔ blocked (pc t)) :
    BlockedAt blocked c (Function.update pc t p) := by
  intro u
  by_cases hu : u = t
  · subst u
    simpa [hp] using h t
  · simpa [hu] using h u

theorem wait (h : BlockedAt blocked c pc) (hp : blocked p) :
    BlockedAt blocked (c.wait t) (Function.update pc t p) := by
  intro u
  by_cases hu : u = t
  · subst u
    simp [CondVar.Blocks, CondVar.wait, hp]
  · simpa [CondVar.Blocks, CondVar.wait, hu] using h u

theorem resume (h : BlockedAt blocked c pc) (ht : t ∈ c.notified) (hp : ¬ blocked p) :
    BlockedAt blocked (c.resume t) (Function.update pc t p) := by
  intro u
  by_cases hu : u = t
  · subst u
    have hw : t ∉ c.waiting := fun hw => c.disjoint t hw ht
    simp [CondVar.Blocks, CondVar.resume, hp, hw]
  · simpa [CondVar.Blocks, CondVar.resume, hu] using h u

omit [DecidableEq ι] in
/-- Moving threads between the two sets leaves the positions alone. -/
theorem congr (h : BlockedAt blocked c pc) (hd : ∀ u, d.Blocks u ↔ c.Blocks u) :
    BlockedAt blocked d pc :=
  fun u => (hd u).trans (h u)

theorem wake (h : BlockedAt blocked c pc) (ht : t ∈ c.waiting) :
    BlockedAt blocked (c.wake t) pc := by
  apply h.congr
  intro u
  by_cases hu : u = t
  · subst u
    simp [CondVar.Blocks, CondVar.wake, ht]
  · simp [CondVar.Blocks, CondVar.wake, hu]

theorem notifyOne (h : BlockedAt blocked c pc) {w : Option ι}
    (hd : c.notifyOne w = some d) : BlockedAt blocked d pc := by
  rcases CondVar.notifyOne_cases hd with ⟨rfl, -⟩ | ⟨t, ht, rfl⟩
  · exact h
  · exact h.wake ht

theorem notifyAll (h : BlockedAt blocked c pc) : BlockedAt blocked c.notifyAll pc := by
  apply h.congr
  intro u
  simp [CondVar.Blocks, CondVar.notifyAll]

end BlockedAt

end Libraft.Foundation
