import Libraft.Foundation.CondVar
import Mathlib.Data.Finset.SDiff

/-!
# Counting wakeups

Threads wait on a condition variable until a unit of some resource is
available, and each of them consumes one unit. `Covered` says that no thread
sleeps while there are more units than threads on their way to them: those
which have a notification and those which are inside the critical section.
There is one rule for each operation on the condition variable, and one for
the steps in between.

## Implementation notes

The threads which have woken up without a notification are kept apart: they
may find a unit, but nobody has promised them one.
-/

namespace Libraft.Foundation

variable {ι P : Type*}

/-- The number of threads, one at most, which hold the mutex at a marked position. -/
def inside (marked : P → Bool) (mutex : Option ι) (pc : ι → P) : ℕ :=
  match mutex with
  | some t => if marked (pc t) then 1 else 0
  | none => 0

section Inside
variable {marked holds : P → Bool} {mutex : Option ι} {pc : ι → P} {t : ι} {p : P}

@[simp] theorem inside_none : inside marked none pc = 0 := rfl

@[simp] theorem inside_some : inside marked (some t) pc = if marked (pc t) then 1 else 0 := rfl

/-- The thread inside the critical section is the one which is counted. -/
theorem HeldAt.inside_holder (h : HeldAt holds mutex pc) (ht : holds (pc t) = true) :
    inside marked mutex pc = if marked (pc t) then 1 else 0 := by
  rw [(h t).mpr ht, inside_some]

variable [DecidableEq ι]

/-- A thread outside the critical section moves on. -/
theorem HeldAt.inside_outside (h : HeldAt holds mutex pc) (ht : holds (pc t) = false) :
    inside marked mutex (Function.update pc t p) = inside marked mutex pc := by
  cases hm : mutex with
  | none => rfl
  | some u =>
      have hne : u ≠ t := by
        rintro rfl
        simp [(h u).mp hm] at ht
      simp [hne]

/-- The thread inside the critical section moves on there. -/
theorem HeldAt.inside_stay (h : HeldAt holds mutex pc) (ht : holds (pc t) = true)
    (hp : marked p = marked (pc t)) :
    inside marked mutex (Function.update pc t p) = inside marked mutex pc := by
  rw [(h t).mpr ht, inside_some, inside_some, Function.update_self, hp]

end Inside

/-- No thread sleeps while there are more units than threads on their way to them. -/
structure Covered (c : CondVar ι) (roused : Finset ι) [DecidableEq ι] (units busy : ℕ) : Prop where
  asleep : ∀ t ∈ c.waiting, t ∉ roused
  enough : c.waiting.Nonempty → units ≤ (c.notified \ roused).card + busy

namespace Covered
variable [DecidableEq ι] {c d : CondVar ι} {roused : Finset ι} {units busy units' busy' : ℕ} {t : ι}

/-- Nobody sleeps. -/
theorem nobody (h : c.waiting = ∅) : Covered c roused units busy where
  asleep := by simp [h]
  enough := by simp [h]

/-- A step which changes only the numbers: a thread enters the critical section,
or takes one unit and leaves. -/
theorem move (h : Covered c roused units busy) (hle : units' + busy ≤ units + busy') :
    Covered c roused units' busy' where
  asleep := h.asleep
  enough := by
    intro hw
    have he := h.enough hw
    omega

/-- Thread `t` moves on elsewhere. -/
theorem erase (h : Covered c roused units busy) : Covered c (roused.erase t) units busy where
  asleep := fun u hu hr => h.asleep u hu (Finset.mem_of_mem_erase hr)
  enough := by
    intro hw
    refine (h.enough hw).trans (Nat.add_le_add_right (Finset.card_le_card ?_) _)
    exact Finset.sdiff_subset_sdiff subset_rfl (Finset.erase_subset _ _)

/-- Thread `t` finds no unit and falls asleep. -/
theorem wait (h : Covered c roused units busy) (hz : units = 0) :
    Covered (c.wait t) (roused.erase t) units busy' where
  asleep := by
    intro u hu hr
    obtain ⟨hne, hr⟩ := Finset.mem_erase.mp hr
    rcases Finset.mem_insert.mp hu with rfl | hu
    · exact hne rfl
    · exact h.asleep u hu hr
  enough := fun _ => hz ▸ Nat.zero_le _

/-- A unit comes with a notification. -/
theorem notifyOne (h : Covered c roused units busy) {w : Option ι}
    (hd : c.notifyOne w = some d) : Covered d roused (units + 1) busy := by
  rcases CondVar.notifyOne_cases hd with ⟨rfl, he⟩ | ⟨u, hu, rfl⟩
  · exact ⟨h.asleep, by simp [he]⟩
  · refine ⟨fun v hv => h.asleep v (Finset.mem_of_mem_erase hv), fun _ => ?_⟩
    have hnew : u ∉ c.notified \ roused := fun hn =>
      c.disjoint u hu (Finset.mem_sdiff.mp hn).1
    have hcard : ((c.wake u).notified \ roused).card = (c.notified \ roused).card + 1 := by
      rw [CondVar.wake, Finset.insert_sdiff_of_notMem _ (h.asleep u hu),
        Finset.card_insert_of_notMem hnew]
    have he := h.enough ⟨u, hu⟩
    omega

/-- Thread `t` comes back into the critical section. -/
theorem resume (h : Covered c roused units 0) : Covered (c.resume t) (roused.erase t) units 1 where
  asleep := fun u hu hr => h.asleep u hu (Finset.mem_of_mem_erase hr)
  enough := by
    intro hw
    have hsub : (c.notified \ roused).erase t ⊆ (c.resume t).notified \ roused.erase t := by
      intro u hu
      simp only [CondVar.resume, Finset.mem_erase, Finset.mem_sdiff] at hu ⊢
      exact ⟨⟨hu.1, hu.2.1⟩, fun hr => hu.2.2 hr.2⟩
    have hle := (Finset.pred_card_le_card_erase (a := t)).trans (Finset.card_le_card hsub)
    have he := h.enough hw
    omega

/-- Thread `t` wakes up without a notification. -/
theorem rouse (h : Covered c roused units busy) (ht : t ∈ c.waiting) :
    Covered (c.wake t) (insert t roused) units busy where
  asleep := by
    intro u hu hr
    obtain ⟨hne, hu⟩ := Finset.mem_erase.mp hu
    rcases Finset.mem_insert.mp hr with rfl | hr
    · exact hne rfl
    · exact h.asleep u hu hr
  enough := by
    intro _
    have heq : (c.wake t).notified \ insert t roused = c.notified \ roused := by
      ext u
      have hn := c.disjoint t ht
      by_cases hu : u = t
      · subst hu
        simp [CondVar.wake, hn]
      · simp [CondVar.wake, hu]
    rw [heq]
    exact h.enough ⟨t, ht⟩

/-- A thread which is blocked elsewhere wakes up without a notification. -/
theorem rouse_other (h : Covered c roused units busy) (ht : ¬ c.Blocks t) :
    Covered c (insert t roused) units busy where
  asleep := by
    intro u hu hr
    rcases Finset.mem_insert.mp hr with rfl | hr
    · exact ht (.inl hu)
    · exact h.asleep u hu hr
  enough := by
    intro hw
    rw [Finset.sdiff_insert_of_notMem fun hn => ht (.inr hn)]
    exact h.enough hw

end Covered

end Libraft.Foundation
