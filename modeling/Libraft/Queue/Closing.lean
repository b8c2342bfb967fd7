import Libraft.Queue.BoundedFifo

/-!
# Closing the blocking queue

`close` sets the flag and wakes everybody with the mutex held, but `put` and
`take` read the flag before they take the mutex and read it again only after a
wakeup. A thread which has passed the first test can therefore enter the
waiting loop of a queue that is already closed. The results below say that
this is the only way in which a sleeper is left behind, and the only way in
which a closed queue still accepts a value.
-/

namespace Libraft.Queue.ArrayBlockingQueue

open Libraft.Foundation

variable {T ι : Type*}

/-- Some call of `close` has returned. -/
def State.closeReturned (s : State T ι) : Prop := Outcome.closeDone ∈ s.log

/-- The positions of `close` behind the store to `closed`. -/
def Pc.closing : Pc T → Prop
  | .closeNotifyFull | .closeNotifyEmpty | .closeUnlock => True
  | _ => False

section Flag
variable [DecidableEq ι] {cap : UInt32} {s s' : State T ι} {a : Act T ι}

/-- The flag is set by the time `close` notifies, stays set, and its being set
means that a `close` has returned or is notifying. -/
structure FlagOk (s : State T ι) : Prop where
  closing : ∀ t, (s.pc t).closing → s.closed = true
  returned : s.closeReturned → s.closed = true
  origin : s.closed = true → s.closeReturned ∨ ∃ t, (s.pc t).closing

omit [DecidableEq ι] in
theorem flagOk_initial (cells : ℕ → T) : FlagOk (initial cells : State T ι) where
  closing := by
    intro t h
    cases h
  returned := by
    intro h
    cases h
  origin := by
    intro h
    cases h

/-- A step outside the notifying part of `close`. -/
theorem FlagOk.keep (hf : FlagOk s) {t : ι} {p : Pc T} (hc : s'.closed = s.closed)
    (hr : s'.closeReturned ↔ s.closeReturned) (hpc : s'.pc = Function.update s.pc t p)
    (hp : ¬ p.closing) (ht : ¬ (s.pc t).closing) : FlagOk s' where
  closing := by
    intro u hu
    rw [hpc] at hu
    rw [hc]
    by_cases hut : u = t
    · subst u
      exact absurd (by simpa using hu) hp
    · exact hf.closing u (by simpa [hut] using hu)
  returned := by
    intro h
    rw [hc]
    exact hf.returned (hr.mp h)
  origin := by
    intro h
    rw [hc] at h
    rcases hf.origin h with h | ⟨u, hu⟩
    · exact .inl (hr.mpr h)
    · have hut : u ≠ t := fun he => ht (he ▸ hu)
      exact .inr ⟨u, by simpa [hpc, hut] using hu⟩

/-- A step of `close` which stays in its notifying part, the store included. -/
theorem flagOk_of_closing {t : ι} {p : Pc T} (hc : s'.closed = true)
    (hpc : s'.pc = Function.update s.pc t p) (hp : p.closing) : FlagOk s' where
  closing := fun _ _ => hc
  returned := fun _ => hc
  origin := fun _ => .inr ⟨t, by simpa [hpc] using hp⟩

theorem closeReturned_thrown {t : ι} {op : Op T} :
    (s.finish t op.thrown).closeReturned ↔ s.closeReturned := by
  cases op <;> simp [State.closeReturned, Op.thrown]

theorem FlagOk.trans (hf : FlagOk s) (h : Trans cap s a s') : FlagOk s' := by
  cases h with
  | call h | callClose h | leave h =>
      exact hf.keep rfl .rfl rfl (by simp [Pc.closing]) (by simp [h, Pc.closing])
  | checkClosed h hc | recheckClosed h hc =>
      exact hf.keep rfl closeReturned_thrown rfl (by simp [Pc.closing]) (by simp [h, Pc.closing])
  | checkOpen h hc | recheckOpen h hc =>
      exact hf.keep rfl .rfl rfl (by simp [Pc.closing]) (by simp [h, Pc.closing])
  | lock h hm | closeLock h hm =>
      exact hf.keep rfl .rfl rfl (by simp [Pc.closing]) (by simp [h, Pc.closing])
  | @block t w op h hb =>
      cases op <;>
        exact hf.keep rfl .rfl rfl (by simp [Pc.closing]) (by simp [h, Pc.closing])
  | pass h hb => exact hf.keep rfl .rfl rfl (by simp [Pc.closing]) (by simp [h, Pc.closing])
  | @wakeUp t w op h hm hn =>
      cases op <;>
        exact hf.keep rfl .rfl rfl (by simp [Pc.closing]) (by simp [h, Pc.closing])
  | put h hn | take h hn =>
      exact hf.keep rfl (by simp [State.closeReturned]) rfl
        (by simp [Pc.closing]) (by simp [h, Pc.closing])
  | closeStore h => exact flagOk_of_closing rfl rfl (by simp [Pc.closing])
  | @closeNotifyFull t w h =>
      exact flagOk_of_closing (hf.closing t (by simp [h, Pc.closing])) rfl (by simp [Pc.closing])
  | @closeNotifyEmpty t w h =>
      exact flagOk_of_closing (hf.closing t (by simp [h, Pc.closing])) rfl (by simp [Pc.closing])
  | @closeUnlock t w h =>
      have hc : s.closed = true := hf.closing t (by simp [h, Pc.closing])
      exact ⟨fun _ _ => hc, fun _ => hc,
        fun _ => .inl (by simp [State.closeReturned])⟩
  | spuriousFull h | spuriousEmpty h => exact ⟨hf.closing, hf.returned, hf.origin⟩

theorem flagOk_of_reachable {cells : ℕ → T} (h : (system cap cells).Reachable s) :
    FlagOk s :=
  Scheduled.Reach.invariant h (flagOk_initial cells)
    fun _ _ _ _ hf ht _ => hf.trans (trans_of_step ht)

omit [DecidableEq ι] in
/-- In a closed queue a thread inside the waiting loop holds the mutex after
the `close` has returned. -/
theorem closeReturned_of_loop (hs : Sound s) (hf : FlagOk s) {t : ι} {op : Op T}
    (ht : s.pc t = .loop op) (hc : s.closed = true) : s.closeReturned := by
  rcases hf.origin hc with h | ⟨u, hu⟩
  · exact h
  · have hh : (s.pc u).holds = true := by
      cases hpc : s.pc u <;> simp_all [Pc.closing, Pc.holds]
    have htu : t = u := hs.holder.unique (by simp [ht, Pc.holds]) hh
    rw [← htu, ht] at hu
    exact hu.elim

end Flag

section Sleepers
variable [DecidableEq ι] {cap : UInt32} {s s' : State T ι} {a : Act T ι}

/-- `close` has returned and some thread is blocked in `not_full.wait` or in
`not_empty.wait` with no notification pending for it. -/
def Stranded (s : State T ι) : Prop :=
  s.closeReturned ∧ ∃ t op, s.pc t = .wait op ∧ t ∈ (s.cond op).waiting

/-- The next step of the chosen thread is a loop test which finds a closed
queue full, for a `put`, or empty, for a `take`. -/
def SleepsOnClosed (cap : UInt32) (s : State T ι) : Act T ι → Prop
  | .step t _ => ∃ op, s.pc t = .loop op ∧ op.blocks cap s.ring = true ∧ s.closed = true
  | _ => False

/-- Once `close` has notified a condition variable, nobody waits there. -/
structure Drained (s : State T ι) : Prop where
  full : ∀ t, s.pc t = .closeNotifyEmpty ∨ s.pc t = .closeUnlock → s.notFull.waiting = ∅
  empty : ∀ t, s.pc t = .closeUnlock → s.notEmpty.waiting = ∅
  returned : s.closeReturned → s.notFull.waiting = ∅ ∧ s.notEmpty.waiting = ∅

omit [DecidableEq ι] in
theorem drained_initial (cells : ℕ → T) : Drained (initial cells : State T ι) :=
  ⟨fun _ _ => rfl, fun _ _ => rfl, fun _ => ⟨rfl, rfl⟩⟩

/-- A step which lets nobody wait and stays outside the end of `close`. -/
theorem Drained.keep (hd : Drained s) {t : ι} {p : Pc T}
    (hwf : s'.notFull.waiting ⊆ s.notFull.waiting)
    (hwe : s'.notEmpty.waiting ⊆ s.notEmpty.waiting)
    (hr : s'.closeReturned ↔ s.closeReturned) (hpc : s'.pc = Function.update s.pc t p)
    (hp : p ≠ .closeNotifyEmpty ∧ p ≠ .closeUnlock) : Drained s' where
  full := by
    intro u hu
    have hut : u ≠ t := by
      rintro rfl
      simp [hpc, hp.1, hp.2] at hu
    have h0 := hd.full u (by simpa [hpc, hut] using hu)
    exact Finset.subset_empty.mp (h0 ▸ hwf)
  empty := by
    intro u hu
    have hut : u ≠ t := by
      rintro rfl
      simp [hpc, hp.2] at hu
    have h0 := hd.empty u (by simpa [hpc, hut] using hu)
    exact Finset.subset_empty.mp (h0 ▸ hwe)
  returned := by
    intro h
    obtain ⟨hf, he⟩ := hd.returned (hr.mp h)
    exact ⟨Finset.subset_empty.mp (hf ▸ hwf), Finset.subset_empty.mp (he ▸ hwe)⟩

/-- Going to sleep in an open queue: no `close` is past its store. -/
theorem drained_of_open (hf : FlagOk s) {t : ι} {op : Op T} (hc : s.closed = false)
    (hr : s'.closeReturned ↔ s.closeReturned)
    (hpc : s'.pc = Function.update s.pc t (.wait op)) : Drained s' := by
  have hopen (u : ι) : ¬ (s.pc u).closing := fun hu => by simp [hf.closing u hu] at hc
  refine ⟨fun u hu => ?_, fun u hu => ?_, fun h => ?_⟩
  · have hut : u ≠ t := by
      rintro rfl
      simp [hpc] at hu
    rw [hpc, Function.update_of_ne hut] at hu
    exact (hopen u (by rcases hu with hu | hu <;> simp [hu, Pc.closing])).elim
  · have hut : u ≠ t := by
      rintro rfl
      simp [hpc] at hu
    rw [hpc, Function.update_of_ne hut] at hu
    exact (hopen u (by simp [hu, Pc.closing])).elim
  · simp [hf.returned (hr.mp h)] at hc

theorem Drained.trans (hd : Drained s) (hf : FlagOk s)
    (h : Trans cap s a s') (hn : ¬ SleepsOnClosed cap s a) : Drained s' := by
  cases h with
  | call h | callClose h | leave h => exact hd.keep subset_rfl subset_rfl .rfl rfl (by simp)
  | checkClosed h hc | recheckClosed h hc =>
      exact hd.keep subset_rfl subset_rfl closeReturned_thrown rfl (by simp)
  | checkOpen h hc | recheckOpen h hc => exact hd.keep subset_rfl subset_rfl .rfl rfl (by simp)
  | lock h hm | closeLock h hm => exact hd.keep subset_rfl subset_rfl .rfl rfl (by simp)
  | @block t w op h hb =>
      have hc : s.closed = false := by
        by_contra hc
        exact hn ⟨op, h, hb, by simpa using hc⟩
      cases op <;> exact drained_of_open hf hc .rfl rfl
  | pass h hb => exact hd.keep subset_rfl subset_rfl .rfl rfl (by simp)
  | @wakeUp t w op h hm hn =>
      cases op <;> exact hd.keep subset_rfl subset_rfl .rfl rfl (by simp)
  | put h hw =>
      exact hd.keep subset_rfl (CondVar.waiting_subset_of_notifyOne hw)
        (by simp [State.closeReturned]) rfl (by simp)
  | take h hw =>
      exact hd.keep (CondVar.waiting_subset_of_notifyOne hw) subset_rfl
        (by simp [State.closeReturned]) rfl (by simp)
  | closeStore h => exact hd.keep subset_rfl subset_rfl .rfl rfl (by simp)
  | @closeNotifyFull t w h =>
      refine ⟨fun _ _ => rfl, fun u hu => ?_, fun h => ⟨rfl, (hd.returned h).2⟩⟩
      have hut : u ≠ t := by
        rintro rfl
        simp at hu
      exact hd.empty u (by simpa [hut] using hu)
  | @closeNotifyEmpty t w h =>
      have h0 : s.notFull.waiting = ∅ := hd.full t (.inl h)
      exact ⟨fun _ _ => h0, fun _ _ => rfl, fun _ => ⟨h0, rfl⟩⟩
  | @closeUnlock t w h =>
      have h0 : s.notFull.waiting = ∅ := hd.full t (.inr h)
      have h1 : s.notEmpty.waiting = ∅ := hd.empty t h
      exact ⟨fun _ _ => h0, fun _ _ => h1, fun _ => ⟨h0, h1⟩⟩
  | @spuriousFull t h =>
      have hsub := Finset.erase_subset t s.notFull.waiting
      exact ⟨fun u hu => Finset.subset_empty.mp (hd.full u hu ▸ hsub), hd.empty,
        fun h => ⟨Finset.subset_empty.mp ((hd.returned h).1 ▸ hsub), (hd.returned h).2⟩⟩
  | @spuriousEmpty t h =>
      have hsub := Finset.erase_subset t s.notEmpty.waiting
      exact ⟨hd.full, fun u hu => Finset.subset_empty.mp (hd.empty u hu ▸ hsub),
        fun h => ⟨(hd.returned h).1, Finset.subset_empty.mp ((hd.returned h).2 ▸ hsub)⟩⟩

omit [DecidableEq ι] in
theorem Drained.not_stranded (hd : Drained s) : ¬ Stranded s := by
  rintro ⟨hr, t, op, -, ht⟩
  obtain ⟨hf, he⟩ := hd.returned hr
  cases op with
  | put val => simp [State.cond, hf] at ht
  | take => simp [State.cond, he] at ht

/-- A loop test which finds a closed queue blocking strands its own thread. -/
theorem stranded_of_sleepsOnClosed (hs : Sound s) (hf : FlagOk s)
    (h : Trans cap s a s') (hb : SleepsOnClosed cap s a) : Stranded s' := by
  cases a with
  | step t w =>
      obtain ⟨op, hpc, hfull, hc⟩ := hb
      have hr := closeReturned_of_loop hs hf hpc hc
      cases h with
      | @block _ _ op' h' hb' =>
          obtain rfl : op = op' := by simpa using hpc.symm.trans h'
          cases op with
          | put val =>
              exact ⟨hr, t, .put val, by simp, by simp [State.setCond, State.cond, CondVar.wait]⟩
          | take =>
              exact ⟨hr, t, .take, by simp, by simp [State.setCond, State.cond, CondVar.wait]⟩
      | pass h' hb' =>
          obtain rfl : op = _ := by simpa using hpc.symm.trans h'
          simp [hfull] at hb'
      | _ => simp_all
  | _ => exact hb.elim

/-- A schedule strands no thread in a closed queue exactly if none of its
steps is a loop test which finds the queue closed and full, or closed and empty. -/
theorem no_sleeper_in_closed_queue_iff (cap : UInt32) (cells : ℕ → T)
    (sched : List (Act T ι)) :
    (∀ s, (system cap cells).Visits (initial cells) sched s → ¬ Stranded s) ↔
      (system cap cells).Along (fun s a _ => ¬ SleepsOnClosed cap s a)
        (initial cells) sched := by
  constructor
  · intro h
    refine Scheduled.along_of_visits (Q := fun s => ¬ Stranded s) ?_ .init h
    intro s a s' hs hstep hq hb
    exact hq (stranded_of_sleepsOnClosed (sound_of_reachable hs) (flagOk_of_reachable hs)
      (trans_of_step hstep) hb)
  · intro h s hv
    have hi := Scheduled.Along.visits_invariant (I := fun s => Drained s ∧ FlagOk s) ?_
      ⟨drained_initial cells, flagOk_initial cells⟩ h hv
    · exact hi.1.not_stranded
    · rintro s a s' ⟨hd, hf⟩ hstep hn
      have ht : Trans cap s a s' := trans_of_step hstep
      exact ⟨hd.trans hf ht hn, hf.trans ht⟩

end Sleepers

section Producers
variable [DecidableEq ι] {cap : UInt32} {s s' : State T ι} {a : Act T ι}

/-- A `put` is inside its critical section. -/
def Pc.inPut (val : T) (p : Pc T) : Prop :=
  p = .loop (.put val) ∨ p = .recheck (.put val) ∨ p = .body (.put val)

/-- After `close` has returned, no step adds a value, and a `put` which moves
inside its critical section throws `queue_closed` and leaves the ring alone. -/
def RefusesPuts (s : State T ι) (a : Act T ι) (s' : State T ι) : Prop :=
  s.closeReturned →
    s'.log.filterMap Outcome.accepted = s.log.filterMap Outcome.accepted ∧
    ∀ t w val, a = .step t w → (s.pc t).inPut val →
      s'.pc t = .done (.putClosed val) ∧ s'.ring = s.ring

/-- The chosen thread makes the loop test of a `put` after `close` has
returned; its unlocked `check_closed` came before the close. -/
def TestsAfterClose (s : State T ι) : Act T ι → Prop
  | .step t _ => s.closeReturned ∧ ∃ val, s.pc t = .loop (.put val)
  | _ => False

/-- After `close` no `put` is behind its waiting loop. -/
def NoPutBehind (s : State T ι) : Prop :=
  s.closeReturned → ∀ t val, s.pc t ≠ .body (.put val)

omit [DecidableEq ι] in
theorem noPutBehind_initial (cells : ℕ → T) : NoPutBehind (initial cells : State T ι) := by
  intro h
  cases h

theorem NoPutBehind.keep (hb : NoPutBehind s) {t : ι} {p : Pc T}
    (hr : s'.closeReturned ↔ s.closeReturned) (hpc : s'.pc = Function.update s.pc t p)
    (hp : ∀ val, p ≠ .body (.put val)) : NoPutBehind s' := by
  intro h u val hu
  rw [hpc] at hu
  by_cases hut : u = t
  · subst u
    exact hp val (by simpa using hu)
  · exact hb (hr.mp h) u val (by simpa [hut] using hu)

theorem NoPutBehind.trans (hb : NoPutBehind s) (hs : Sound s)
    (h : Trans cap s a s') (hn : ¬ TestsAfterClose s a) : NoPutBehind s' := by
  cases h with
  | call h | callClose h | leave h => exact hb.keep .rfl rfl (by simp)
  | checkClosed h hc | recheckClosed h hc => exact hb.keep closeReturned_thrown rfl (by simp)
  | checkOpen h hc | recheckOpen h hc => exact hb.keep .rfl rfl (by simp)
  | lock h hm | closeLock h hm => exact hb.keep .rfl rfl (by simp)
  | @block t w op h hf => cases op <;> exact hb.keep .rfl rfl (by simp)
  | @pass t w op h hf =>
      cases op with
      | take => exact hb.keep .rfl rfl (by simp)
      | put val => exact fun hr => absurd ⟨hr, val, h⟩ hn
  | @wakeUp t w op h hm hw => cases op <;> exact hb.keep .rfl rfl (by simp)
  | put h hw | take h hw => exact hb.keep (by simp [State.closeReturned]) rfl (by simp)
  | closeStore h | closeNotifyFull h | closeNotifyEmpty h => exact hb.keep .rfl rfl (by simp)
  | @closeUnlock t w h =>
      -- the thread which is about to return from `close` holds the mutex alone
      intro _ u val hu
      have hut : u ≠ t := by
        rintro rfl
        simp at hu
      have hu' : s.pc u = .body (.put val) := by simpa [hut] using hu
      exact hut (hs.holder.unique (by simp [hu', Pc.holds]) (by simp [h, Pc.holds]))
  | spuriousFull h | spuriousEmpty h => exact hb

theorem refusesPuts_of_noPutBehind (hb : NoPutBehind s) (hf : FlagOk s)
    (h : Trans cap s a s') (hn : ¬ TestsAfterClose s a) : RefusesPuts s a s' := by
  intro hr
  constructor
  · cases h with
    | @put t w val c h hw => exact absurd h (hb hr t val)
    | @checkClosed t w op h hc =>
        cases op <;> simp [Op.thrown, Outcome.accepted]
    | @recheckClosed t w op h hc =>
        cases op <;> simp [Op.thrown, Outcome.accepted]
    | @block t w op h hc => cases op <;> rfl
    | @wakeUp t w op h hm hw => cases op <;> rfl
    | take h hw | closeUnlock h => simp [Outcome.accepted]
    | _ => rfl
  · rintro t w val rfl hin
    rcases hin with hpc | hpc | hpc
    · exact absurd ⟨hr, val, hpc⟩ hn
    · cases h with
      | @recheckClosed _ _ op h hc =>
          obtain rfl : op = .put val := by simpa using h.symm.trans hpc
          simp [Op.thrown]
      | @recheckOpen _ _ op h hc => simp [hf.returned hr] at hc
      | _ => simp_all
    · exact absurd hpc (hb hr t val)

/-- The loop test of a `put` never throws. -/
theorem not_refusesPuts_of_test (h : Trans cap s a s') (ht : TestsAfterClose s a) :
    ¬ RefusesPuts s a s' := by
  intro hp
  cases a with
  | step t w =>
      obtain ⟨hr, val, hpc⟩ := ht
      have hdone := ((hp hr).2 t w val rfl (.inl hpc)).1
      cases h with
      | @block _ _ op h hb => cases op <;> simp at hdone
      | @pass _ _ op h hb => simp at hdone
      | _ => simp_all
  | _ => exact ht.elim

/-- A schedule keeps a closed queue closed for its producers exactly if no
`put` makes its loop test after `close` has returned. -/
theorem close_final_for_producers_iff (cap : UInt32) (cells : ℕ → T)
    (sched : List (Act T ι)) :
    (system cap cells).Along RefusesPuts (initial cells) sched ↔
      (system cap cells).Along (fun s a _ => ¬ TestsAfterClose s a)
        (initial cells) sched := by
  constructor
  · refine Scheduled.Along.imp_of_invariant (I := fun _ => True) ?_ trivial
    intro s a s' _ hstep hp
    exact ⟨trivial, fun ht => not_refusesPuts_of_test (trans_of_step hstep) ht hp⟩
  · refine Scheduled.Along.imp_of_invariant
      (I := fun s => NoPutBehind s ∧ Sound s ∧ FlagOk s) ?_
      ⟨noPutBehind_initial cells, sound_initial cells, flagOk_initial cells⟩
    rintro s a s' ⟨hb, hs, hf⟩ hstep hn
    have ht : Trans cap s a s' := trans_of_step hstep
    exact ⟨⟨hb.trans hs ht hn, hs.trans ht, hf.trans ht⟩,
      refusesPuts_of_noPutBehind hb hf ht hn⟩

end Producers

/-- Thread `t` runs a whole `close`. -/
def closeRun (t : ℕ) : List (Act ℕ ℕ) :=
  [.callClose t, .step t none, .step t none, .step t none, .step t none, .step t none]

/-- The worker of the FSM queue passes `check_closed`, the queue is closed, and
the worker goes to sleep for ever. -/
theorem sleeper_in_closed_queue :
    ¬ ∀ s : State ℕ ℕ, (system 8 fun _ => 0).Reachable s → ¬ Stranded s := by
  intro hall
  obtain ⟨s, hs, hl, hpc, hw⟩ := Scheduled.exists_reachable_of_run (system 8 fun _ => 0)
    ([Act.call 0 .take, .step 0 none] ++ closeRun 1 ++ [Act.step 0 none, .step 0 none])
    (fun s => .closeDone ∈ s.log ∧ s.pc 0 = .wait .take ∧ 0 ∈ s.notEmpty.waiting)
    (by decide)
  exact hall s hs ⟨hl, 0, .take, hpc, hw⟩

/-- A `put` passes `check_closed`, the queue is closed, and the value is added
to the empty queue afterwards. -/
theorem put_into_closed_queue :
    ∃ (s s' : State ℕ ℕ) (a : Act ℕ ℕ), (system 8 fun _ => 0).Reachable s ∧
      step 8 s a = some s' ∧ s.closeReturned ∧ s.ring.contents 8 = [] ∧
      s'.ring.contents 8 = [5] ∧ ¬ RefusesPuts s a s' := by
  obtain ⟨s, hs, hl, hc, hc'⟩ := Scheduled.exists_reachable_of_run (system 8 fun _ => 0)
    ([Act.call 0 (.put 5), .step 0 none] ++ closeRun 1 ++ [Act.step 0 none, .step 0 none])
    (fun s => .closeDone ∈ s.log ∧ s.ring.contents 8 = [] ∧
      (step 8 s (.step 0 none)).any (fun s' => s'.ring.contents 8 = [5] ∧
        s'.log.filterMap Outcome.accepted ≠ s.log.filterMap Outcome.accepted)) (by decide)
  cases hs' : step 8 s (.step 0 none) with
  | none => simp [hs'] at hc'
  | some s' =>
      simp only [hs', Option.any_some, decide_eq_true_eq] at hc'
      exact ⟨s, s', .step 0 none, hs, hs', hl, hc, hc'.1, fun hp => hc'.2 (hp hl).1⟩

end Libraft.Queue.ArrayBlockingQueue
