import Libraft.Queue.Deque
import Libraft.Foundation.Wakeups

/-!
# The laws of the unbounded blocking queue

Since the last `reset` the queue has delivered what it has accepted, in order
and up to its contents, and nothing is accepted or delivered while it is
closed. A consumer sleeps only in an open queue, and only if there are at most
as many values as consumers on their way to them.

## Implementation notes

A `poll_until` may give up although it was notified, and its notification is
lost. So the last result needs a discipline of the callers: either the
consumers only `take`, or there is one of them.
-/

namespace Libraft.Queue.Deque

open Libraft.Foundation

variable {T ι : Type*}

/-- Who consumes, and how. -/
inductive Consumers (ι : Type*)
  | onlyTake
  | one (c : ι)

/-- The operation is one which the thread may call. -/
def Consumers.Allow (mode : Consumers ι) (t : ι) (op : Op T) : Prop :=
  match mode with
  | .onlyTake => op ≠ .pollUntil
  | .one c => op.consumes = true → t = c

/-- All calls respect the discipline. -/
def Consumers.Guard (mode : Consumers ι) : Act T ι → Prop
  | .call t op => mode.Allow t op
  | _ => True

/-- The thread is in an operation which it may call. -/
def Consumers.Fits (mode : Consumers ι) (t : ι) : Pc T → Prop
  | .lock op | .check op | .loop op | .wait op | .recheck op | .body op => mode.Allow t op
  | .idle | .done _ => True

/-- The positions of a consumer inside the critical section. -/
def Pc.consuming : Pc T → Bool
  | .check op | .loop op | .recheck op | .body op => op.consumes
  | _ => false

/-- The number of consumers, one at most, which hold the mutex. -/
def State.inside (s : State T ι) : ℕ := Foundation.inside Pc.consuming s.mutex s.pc

/-- What the tests of an operation have established. -/
structure Checked (s : State T ι) : Prop where
  isOpen : ∀ t op, s.pc t = .loop op ∨ s.pc t = .body op → op ≠ .close → op ≠ .reset →
    s.closed = false
  loops : ∀ t op, s.pc t = .loop op ∨ s.pc t = .wait op ∨ s.pc t = .recheck op →
    op.consumes = true

theorem checked_initial : Checked (initial : State T ι) where
  isOpen := by simp [initial]
  loops := by simp [initial]

variable [DecidableEq ι]

/-- The threads which have woken up without a notification, or late, and do not
have the mutex yet. -/
def rouse (_ : State T ι) : Act T ι → Finset ι → Finset ι
  | .spurious t, roused => insert t roused
  | .step t _, roused => roused.erase t
  | .call _ _, roused | .late _, roused | .leave _, roused => roused

/-- The queue with a record of the wakeups without notification. -/
def watched : Scheduled (State T ι × Finset ι) (Act T ι) := system.withHistory ∅ rouse

section Contents
variable {s s' : State T ι} {a : Act T ι}

/-- A step which leaves `closed` alone. -/
theorem Checked.keep (h : Checked s) {t : ι} {p : Pc T}
    (hpc : s'.pc = Function.update s.pc t p) (hc : s'.closed = s.closed)
    (hopen : ∀ op, p = .loop op ∨ p = .body op → op ≠ .close → op ≠ .reset → s.closed = false)
    (hloop : ∀ op, p = .loop op ∨ p = .wait op ∨ p = .recheck op → op.consumes = true) :
    Checked s' where
  isOpen := by
    intro u op hu
    rw [hc]
    rw [hpc] at hu
    by_cases hut : u = t
    · subst hut
      exact hopen op (by simpa using hu)
    · exact h.isOpen u op (by simpa [hut] using hu)
  loops := by
    intro u op hu
    rw [hpc] at hu
    by_cases hut : u = t
    · subst hut
      exact hloop op (by simpa using hu)
    · exact h.loops u op (by simpa [hut] using hu)

/-- The holder of the mutex changes `closed` and returns. -/
theorem Checked.commit (h : Checked s) (hs : Sound s) {t : ι} {out : Outcome T}
    (ht : (s.pc t).holds = true) (hpc : s'.pc = Function.update s.pc t (.done out)) :
    Checked s' where
  isOpen := by
    intro u op hu
    rw [hpc] at hu
    by_cases hut : u = t
    · subst hut
      simp at hu
    · rw [Function.update_of_ne hut] at hu
      refine absurd (hs.holder.unique ?_ ht) hut
      rcases hu with hu | hu <;> simp [hu, Pc.holds]
  loops := by
    intro u op hu
    rw [hpc] at hu
    by_cases hut : u = t
    · subst hut
      simp at hu
    · exact h.loops u op (by simpa [hut] using hu)

theorem Checked.trans (h : Checked s) (hs : Sound s) (ht : Trans s a s') : Checked s' := by
  cases ht with
  | call hp | leave hp | lateLock hp => exact h.keep rfl rfl (by simp) (by simp)
  | @lock t w op hp hm =>
      refine h.keep rfl rfl ?_ ?_
      · cases op <;> simp +contextual [Op.entered]
      · cases op <;> simp [Op.entered]
  | @checkOpen t w op hp hc =>
      refine h.keep rfl rfl (fun _ _ _ _ => hc) ?_
      unfold Op.checked
      split <;> simp_all
  | @block t w op hp hd =>
      have hcons := h.loops t op (.inl hp)
      exact h.keep rfl rfl (by simp) (by simpa using hcons)
  | @pass t w op hp hd =>
      refine h.keep rfl rfl ?_ (by simp)
      intro op' hop
      obtain rfl : op = op' := by simpa using hop
      exact h.isOpen t op (.inl hp)
  | @wakeUp t w op hp hm hn =>
      have hcons := h.loops t op (.inr (.inl hp))
      exact h.keep rfl rfl (by simp) (by simpa using hcons)
  | @recheckOpen t w op hp hc =>
      have hcons := h.loops t op (.inr (.inr hp))
      exact h.keep rfl rfl (fun _ _ _ _ => hc) (by simpa using hcons)
  | checkClosed hp hc | recheckClosed hp hc | lateWait hp =>
      exact h.commit hs (by simp [hp, Pc.holds]) rfl
  | store hp ho hn | remove hp ho hn => exact h.commit hs (by simp [hp, Pc.holds]) rfl
  | close hp | reset hp => exact h.commit hs (by simp [hp, Pc.holds]) rfl
  | spurious hw => exact ⟨h.isOpen, h.loops⟩

theorem checked_of_reachable (h : (system : Scheduled (State T ι) (Act T ι)).Reachable s) :
    Checked s :=
  Scheduled.Reach.invariant h checked_initial fun _ _ _ hs hc ht _ =>
    hc.trans (sound_of_reachable hs) (trans_of_step ht)

theorem delivered_append_deque (h : (system : Scheduled (State T ι) (Act T ι)).Reachable s) :
    s.delivered ++ s.deque = s.accepted := by
  refine Scheduled.Reach.invariant (I := fun s : State T ι => s.delivered ++ s.deque = s.accepted)
    h rfl fun u a v _ hu hstep _ => ?_
  cases trans_of_step hstep with
  | @store t w op val c hp ho hn => simp [← hu]
  | @remove t w op val rest hp ho hd => simpa [hd] using hu
  | reset hp => rfl
  | _ => exact hu

/-- The contents change only in the step in which an operation returns normally. -/
theorem contents_of_trans (ht : Trans s a s') :
    (s'.deque = s.deque ∧ s'.accepted = s.accepted ∧ s'.delivered = s.delivered ∧
      s'.closed = s.closed) ∨
    ∃ t w, a = .step t w ∧ (s'.pc t = .done .returned ∨ ∃ val, s'.pc t = .done (.value val)) := by
  cases ht with
  | @store t w op val c hp ho hn => exact .inr ⟨t, w, rfl, .inl (by simp)⟩
  | @remove t w op val rest hp ho hd => exact .inr ⟨t, w, rfl, .inr ⟨val, by simp⟩⟩
  | @close t w hp | @reset t w hp => exact .inr ⟨t, w, rfl, .inl (by simp)⟩
  | _ => exact .inl ⟨rfl, rfl, rfl, rfl⟩

/-- While the queue is closed, only `reset` touches its contents. -/
theorem Checked.frozen (h : Checked s) (ht : Trans s a s') (hc : s.closed = true) :
    (s'.deque = s.deque ∧ s'.accepted = s.accepted ∧ s'.delivered = s.delivered) ∨
    ∃ t w, a = .step t w ∧ s.pc t = .body .reset := by
  cases ht with
  | @store t w op val c hp ho hn =>
      have hopen := h.isOpen t op (.inr hp) (by rcases ho with rfl | rfl <;> simp)
        (by rcases ho with rfl | rfl <;> simp)
      simp [hc] at hopen
  | @remove t w op val rest hp ho hd =>
      have hopen := h.isOpen t op (.inr hp) (by rintro rfl; simp [Op.consumes] at ho)
        (by rintro rfl; simp [Op.consumes] at ho)
      simp [hc] at hopen
  | @reset t w hp => exact .inr ⟨t, w, rfl, hp⟩
  | _ => exact .inl ⟨rfl, rfl, rfl⟩

end Contents

section Callers
variable {s s' : State T ι}

/-- The thread is inside the operation. -/
def Pc.runs (op : Op T) : Pc T → Prop
  | .lock op' | .check op' | .loop op' | .wait op' | .recheck op' | .body op' => op' = op
  | .idle | .done _ => False

/-- The actions which neither begin nor end an operation. -/
def Act.internal : Act T ι → Bool
  | .step _ _ | .spurious _ => true
  | .call _ _ | .late _ | .leave _ => false

/-- What a step inside an open queue means to its callers: nothing, or a value is
stored, or one is removed. -/
inductive Effect (s s' : State T ι) : Prop
  | quiet (hd : s'.deque = s.deque) (ha : s'.accepted = s.accepted)
      (hv : s'.delivered = s.delivered)
      (hpc : ∀ t, s'.pc t = s.pc t ∨ ∃ op, (s.pc t).runs op ∧ (s'.pc t).runs op)
  | stored (t : ι) (op : Op T) (val : T) (hr : (s.pc t).runs op)
      (ho : op = .put val ∨ op = .emplace val)
      (hd : s'.deque = s.deque ++ [val]) (ha : s'.accepted = s.accepted ++ [val])
      (hv : s'.delivered = s.delivered)
      (hpc : s'.pc = Function.update s.pc t (.done .returned))
  | removed (t : ι) (op : Op T) (val : T) (hr : (s.pc t).runs op) (ho : op.consumes = true)
      (hd : s.deque = val :: s'.deque) (ha : s'.accepted = s.accepted)
      (hv : s'.delivered = s.delivered ++ [val])
      (hpc : s'.pc = Function.update s.pc t (.done (.value val)))

/-- A thread which goes on inside its operation. -/
theorem Effect.move (t : ι) (op : Op T) {p : Pc T} (hr : (s.pc t).runs op) (hp : p.runs op)
    (hpc : s'.pc = Function.update s.pc t p) (hd : s'.deque = s.deque)
    (ha : s'.accepted = s.accepted) (hv : s'.delivered = s.delivered) : Effect s s' := by
  refine .quiet hd ha hv fun u => ?_
  rw [hpc]
  by_cases hu : u = t
  · subst hu
    exact .inr ⟨op, hr, by simpa using hp⟩
  · exact .inl (Function.update_of_ne hu ..)

/-- In an open queue which nobody closes or resets, every step has one of these
effects, and the queue stays open. -/
theorem effect_of_step {a : Act T ι} (h : step s a = some s') (ha : a.internal = true)
    (hopen : s.closed = false)
    (hno : ∀ t, ¬ (s.pc t).runs .close ∧ ¬ (s.pc t).runs .reset) :
    Effect s s' ∧ s'.closed = false := by
  cases trans_of_step h with
  | call hp | leave hp | lateLock hp | lateWait hp => cases ha
  | @lock t w op hp hm =>
      refine ⟨.move t op (by simp [hp, Pc.runs]) ?_ rfl rfl rfl rfl, hopen⟩
      cases op <;> simp [Op.entered, Pc.runs]
  | checkClosed hp hc | recheckClosed hp hc => simp [hopen] at hc
  | @checkOpen t w op hp hc =>
      refine ⟨.move t op (by simp [hp, Pc.runs]) ?_ rfl rfl rfl rfl, hopen⟩
      unfold Op.checked
      split <;> simp [Pc.runs]
  | @block t w op hp hd | @pass t w op hp hd | @wakeUp t w op hp hd hn
  | @recheckOpen t w op hp hd =>
      exact ⟨.move t op (by simp [hp, Pc.runs]) (by simp [Pc.runs]) rfl rfl rfl rfl, hopen⟩
  | @store t w op val c hp ho hn =>
      exact ⟨.stored t op val (by simp [hp, Pc.runs]) ho rfl rfl rfl rfl, hopen⟩
  | @remove t w op val rest hp ho hd =>
      exact ⟨.removed t op val (by simp [hp, Pc.runs]) ho hd rfl rfl rfl, hopen⟩
  | @close t w hp => exact absurd (by simp [hp, Pc.runs]) (hno t).1
  | @reset t w hp => exact absurd (by simp [hp, Pc.runs]) (hno t).2
  | spurious hw => exact ⟨.quiet rfl rfl rfl fun _ => .inl rfl, hopen⟩

end Callers

section Wakeups
variable {s s' : State T ι} {a : Act T ι} {roused : Finset ι} {t : ι} {mode : Consumers ι}

/-- Nobody sleeps in a closed queue, sleepers are covered, and the callers keep
to their discipline. -/
structure Served (mode : Consumers ι) (s : State T ι) (roused : Finset ι) : Prop where
  closed : s.closed = true → s.ready.waiting = ∅
  covered : Covered s.ready roused s.deque.length s.inside
  fits : ∀ t, mode.Fits t (s.pc t)

theorem served_initial (mode : Consumers ι) : Served mode (initial : State T ι) ∅ where
  closed := fun _ => rfl
  covered := .nobody rfl
  fits := fun _ => trivial

theorem fits_update (h : ∀ t, mode.Fits t (s.pc t)) {p : Pc T} (hp : mode.Fits t p) (u : ι) :
    mode.Fits u (Function.update s.pc t p u) := by
  by_cases hu : u = t
  · subst hu
    simpa using hp
  · simpa [hu] using h u

theorem Served.fits_at (hv : Served mode s roused) {p : Pc T} (h : s.pc t = p) :
    mode.Fits t p :=
  h ▸ hv.fits t

/-- A step of a thread outside the critical section. -/
theorem Served.outside (hv : Served mode s roused) (hs : Sound s) (ht : (s.pc t).holds = false)
    {p : Pc T} (hp : mode.Fits t p) : Served mode (s.goto t p) roused where
  closed := hv.closed
  covered := by
    have hcov := hv.covered
    rw [State.inside, ← hs.holder.inside_outside ht] at hcov
    exact hcov
  fits := fits_update hv.fits hp

/-- A step of the holder of the mutex which stays inside the critical section. -/
theorem Served.stay (hv : Served mode s roused) (hs : Sound s) (ht : (s.pc t).holds = true)
    {p : Pc T} (hp : mode.Fits t p) (hm : p.consuming = (s.pc t).consuming) :
    Served mode (s.goto t p) (roused.erase t) where
  closed := hv.closed
  covered := by
    have hcov := hv.covered.erase (t := t)
    rw [State.inside, ← hs.holder.inside_stay ht hm] at hcov
    exact hcov
  fits := fits_update hv.fits hp

/-- A step which leaves nobody asleep. -/
theorem Served.nobody (hv : Served mode s roused) {roused' : Finset ι}
    (hw : s'.ready.waiting = ∅) {out : Outcome T}
    (hpc : s'.pc = Function.update s.pc t (.done out)) : Served mode s' roused' where
  closed := fun _ => hw
  covered := .nobody hw
  fits := by
    rw [hpc]
    exact fits_update hv.fits trivial

/-- When the only consumer is awake, nobody sleeps. -/
theorem Served.alone (hv : Served mode s roused) (hs : Sound s) (hc : Checked s)
    (ht : s.pc t = .recheck .pollUntil) : s.ready.waiting = ∅ := by
  have hfit := hv.fits_at ht
  cases mode with
  | onlyTake => exact absurd rfl hfit
  | one c =>
      obtain rfl : t = c := hfit rfl
      refine Finset.eq_empty_of_forall_notMem fun u hu => ?_
      have hwait := (hs.blocked u).mp (.inl hu)
      unfold Pc.waits at hwait
      split at hwait
      case h_1 op hop =>
          obtain rfl : u = t := hv.fits_at hop (hc.loops u op (.inr (.inl hop)))
          simp [ht] at hop
      case h_2 => exact hwait

theorem Served.trans (hv : Served mode s roused) (hs : Sound s) (hc : Checked s)
    (h : Trans s a s') (hg : mode.Guard a) : Served mode s' (rouse s a roused) := by
  cases h with
  | call h => exact hv.outside hs (by simp [h, Pc.holds]) hg
  | lateLock h | leave h => exact hv.outside hs (by simp [h, Pc.holds]) trivial
  | @lock t w op h hm =>
      have hfit := hv.fits_at h
      refine ⟨hv.closed, hv.covered.erase.move ?_, fits_update hv.fits ?_⟩
      · rw [State.inside, hm, inside_none]
        exact Nat.add_le_add_left (Nat.zero_le _) _
      · cases op <;> exact hfit
  | checkClosed h hcl | recheckClosed h hcl => exact hv.nobody (hv.closed hcl) rfl
  | @checkOpen t w op h hcl =>
      have hfit := hv.fits_at h
      refine hv.stay hs (by simp [h, Pc.holds]) ?_ ?_
      · unfold Op.checked
        split <;> exact hfit
      · rw [h]
        unfold Op.checked
        split <;> rfl
  | @block t w op h hd =>
      have hfit := hv.fits_at h
      have hcons := hc.loops t op (.inl h)
      have hopen : s.closed = false := hc.isOpen t op (.inl h)
        (by rintro rfl; simp [Op.consumes] at hcons) (by rintro rfl; simp [Op.consumes] at hcons)
      exact ⟨by simp [hopen], hv.covered.wait (by simp [hd]), fits_update hv.fits hfit⟩
  | pass h hd | recheckOpen h hd =>
      have hfit := hv.fits_at h
      exact hv.stay hs (by simp [h, Pc.holds]) hfit (by rw [h]; rfl)
  | @wakeUp t w op h hm hn =>
      have hfit := hv.fits_at h
      have hone : Foundation.inside Pc.consuming (some t)
          (Function.update s.pc t (.recheck op)) = 1 := by
        simp [Pc.consuming, hc.loops t op (.inr (.inl h))]
      have hcov := hv.covered
      rw [State.inside, hm, inside_none] at hcov
      have hres := hcov.resume (t := t)
      rw [← hone] at hres
      exact ⟨hv.closed, hres, fits_update hv.fits hfit⟩
  | @store t w op val c h ho hn =>
      refine ⟨fun hcl => ?_, ?_, fits_update hv.fits trivial⟩
      · exact Finset.subset_empty.mp
          (hv.closed hcl ▸ CondVar.waiting_subset_of_notifyOne hn)
      · refine ((hv.covered.notifyOne hn).erase (t := t)).move ?_
        rw [State.inside, hs.holder.inside_holder (t := t) (by simp [h, Pc.holds]), h]
        rcases ho with rfl | rfl <;> simp [Pc.consuming, Op.consumes]
  | @remove t w op val rest h ho hd =>
      refine ⟨hv.closed, ?_, fits_update hv.fits trivial⟩
      refine (hv.covered.erase (t := t)).move ?_
      rw [State.inside, hs.holder.inside_holder (t := t) (by simp [h, Pc.holds]), h]
      simp [State.inside, Pc.consuming, ho, hd]
  | close h | reset h => exact hv.nobody rfl rfl
  | lateWait h => exact hv.nobody (hv.alone hs hc h) rfl
  | spurious h =>
      refine ⟨fun hcl => ?_, hv.covered.rouse h, hv.fits⟩
      simp [hv.closed hcl] at h

theorem served_of_reach
    (h : watched.Reach (fun _ a _ => mode.Guard a) (s, roused)) : Served mode s roused := by
  refine Scheduled.Reach.invariant (I := fun p : State T ι × Finset ι => Served mode p.1 p.2) h
    (served_initial mode) ?_
  rintro ⟨u, past⟩ a ⟨v, past'⟩ hu hv hstep hg
  obtain ⟨hq, rfl⟩ := Scheduled.withHistory_step hstep
  have hbase := Scheduled.Reachable.forget hu.reachable
  exact hv.trans (sound_of_reachable hbase) (checked_of_reachable hbase) (trans_of_step hq) hg

/-- The values delivered since the last `reset` followed by the contents are the
values accepted since then, and they change only when an operation returns
normally; while the queue is closed, only `reset` touches them. If the
consumers only `take`, or there is one of them, a thread sleeps without a
notification only in an open queue, and only if there are at most as many values
as consumers which have been notified or hold the mutex. -/
theorem deque_fifo_and_wakeups
    (h : watched.Reach (fun _ a _ => mode.Guard a) (s, roused)) :
    s.delivered ++ s.deque = s.accepted ∧
    (∀ a s', step s a = some s' →
      (s'.deque = s.deque ∧ s'.accepted = s.accepted ∧ s'.delivered = s.delivered ∧
        s'.closed = s.closed) ∨
      ∃ t w, a = .step t w ∧
        (s'.pc t = .done .returned ∨ ∃ val, s'.pc t = .done (.value val))) ∧
    (∀ a s', step s a = some s' → s.closed = true →
      (s'.deque = s.deque ∧ s'.accepted = s.accepted ∧ s'.delivered = s.delivered) ∨
      ∃ t w, a = .step t w ∧ s.pc t = .body .reset) ∧
    (s.ready.waiting.Nonempty →
      s.closed = false ∧ s.deque.length ≤ (s.ready.notified \ roused).card + s.inside) := by
  have hbase : system.Reachable s := Scheduled.Reachable.forget h.reachable
  have hv := served_of_reach h
  refine ⟨delivered_append_deque hbase, ?_, ?_, ?_⟩
  · exact fun a s' hs => contents_of_trans (trans_of_step hs)
  · exact fun a s' hs => (checked_of_reachable hbase).frozen (trans_of_step hs)
  · intro hw
    refine ⟨?_, hv.covered.enough hw⟩
    by_contra hc
    exact hw.ne_empty (hv.closed (by simpa using hc))

end Wakeups

/-- Thread `t` calls `take` and falls asleep. -/
def sleepRun (t : ℕ) : List (Act ℕ ℕ) :=
  [Act.call t .take] ++ List.replicate 3 (Act.step t none)

/-- Thread `t` stores a value and wakes thread `w`. -/
def storeRun (t : ℕ) (val : ℕ) (w : Option ℕ) : List (Act ℕ ℕ) :=
  [Act.call t (.put val), .step t none, .step t none, .step t w, .leave t]

/-- Threads 0, 1 and 2 fall asleep in `take`; two values come and wake the threads
0 and 1; thread 0 has the mutex again. -/
def twoWokenRun : List (Act ℕ ℕ) :=
  sleepRun 0 ++ sleepRun 1 ++ sleepRun 2 ++ storeRun 3 7 (some 0) ++ storeRun 3 8 (some 1) ++
    [Act.step 0 none]

instance (mode : Consumers ℕ) : DecidablePred (mode.Guard : Act ℕ ℕ → Prop)
  | .call t op =>
      match mode with
      | .onlyTake => inferInstanceAs (Decidable (op ≠ .pollUntil))
      | .one c => inferInstanceAs (Decidable (op.consumes = true → t = c))
  | .step _ _ | .late _ | .spurious _ | .leave _ => isTrue trivial

/-- There are two values, one for the consumer which holds the mutex and one for
the consumer which has been notified. -/
theorem deque_fifo_and_wakeups_two :
    ∃ (s : State ℕ ℕ) (roused : Finset ℕ), s.ready.waiting = {2} ∧ s.deque = [7, 8] ∧
      2 ≤ (s.ready.notified \ roused).card + s.inside := by
  have hinit : (watched : Scheduled (State ℕ ℕ × Finset ℕ) _).Reach
      (fun _ a _ => (Consumers.onlyTake : Consumers ℕ).Guard a) (initial, ∅) := .init
  obtain ⟨⟨s, roused⟩, hs, hwait, hdeque⟩ := hinit.exists_of_run twoWokenRun (by decide)
    (fun p => p.1.ready.waiting = {2} ∧ p.1.deque = [7, 8]) (by decide)
  have hwait' : s.ready.waiting = {2} := hwait
  have hdeque' : s.deque = [7, 8] := hdeque
  have hle := ((deque_fifo_and_wakeups hs).2.2.2 ⟨2, by simp [hwait']⟩).2
  rw [hdeque'] at hle
  exact ⟨s, roused, hwait', hdeque', hle⟩

/-- The consumer which holds the mutex again is not among the notified ones any
more, but its value is still in the queue. -/
theorem values_beyond_notified_consumers :
    ∃ (s : State ℕ ℕ) (roused : Finset ℕ),
      watched.Reach (fun _ a _ => (Consumers.onlyTake : Consumers ℕ).Guard a) (s, roused) ∧
      s.ready.waiting = {2} ∧ (s.ready.notified \ roused).card < s.deque.length := by
  have hinit : (watched : Scheduled (State ℕ ℕ × Finset ℕ) _).Reach
      (fun _ a _ => (Consumers.onlyTake : Consumers ℕ).Guard a) (initial, ∅) := .init
  obtain ⟨⟨s, roused⟩, hs, hwait, hlt⟩ := hinit.exists_of_run twoWokenRun (by decide)
    (fun p => p.1.ready.waiting = {2} ∧ (p.1.ready.notified \ p.2).card < p.1.deque.length)
    (by decide)
  exact ⟨s, roused, hs, hwait, hlt⟩

end Libraft.Queue.Deque
