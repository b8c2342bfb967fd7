import Libraft.Foundation.Progress
import Libraft.Queue.CallerSpec
import Libraft.Queue.Wakeups
import Mathlib.Data.Fintype.Option

/-!
# The operations of the blocking queue come to an end

Whatever the order in which the threads inside `put`, `take` and `close` run,
they run out of steps, and then every one of them has come back or sleeps. In
the open queue the sleepers have nothing to wait for: takers sleep when the
queue is empty, putters when it is full, and never both.

## Implementation notes

A wakeup without notification is not a step of a thread, and it is not counted
here: a thread which is woken again and again for no reason goes round its loop
as often. A notification is worth four steps, from the wait to the next wait.
`close` notifies all threads twice.
-/

namespace Libraft.Queue.ArrayBlockingQueue

open Libraft.Foundation

variable {T ι : Type*}

/-- The steps of the threads which are inside an operation. -/
def Act.inOperation : Act T ι → Bool
  | .step _ _ => true
  | _ => false

/-- An upper bound for the steps which a thread takes from a position until it
has come back or sleeps, and for what its notifications let others do. -/
def Pc.weight (threads : ℕ) : Pc T → ℕ
  | .idle | .done _ => 0
  | .wait _ => 4
  | .body _ => 5
  | .loop _ => 6
  | .recheck _ | .lock _ => 7
  | .check _ => 8
  | .closeUnlock => 1
  | .closeNotifyEmpty => 2 + 4 * threads
  | .closeNotifyFull => 3 + 8 * threads
  | .closeStore => 4 + 8 * threads
  | .closeLock => 5 + 8 * threads

theorem weight_le (threads : ℕ) (p : Pc T) : p.weight threads ≤ 8 * threads + 8 := by
  cases p <;> simp only [Pc.weight] <;> omega

/-- The notifications which have not been consumed. -/
def State.news (s : State T ι) : ℕ := s.notFull.notified.card + s.notEmpty.notified.card

/-- No thread can take a step. -/
def State.Stuck [DecidableEq ι] (cap : UInt32) (s : State T ι) : Prop :=
  ∀ t w, step cap s (.step t w) = none

instance [DecidableEq ι] [Fintype ι] (cap : UInt32) (s : State T ι) : Decidable (s.Stuck cap) :=
  inferInstanceAs (Decidable (∀ t w, step cap s (.step t w) = none))

section News
variable [DecidableEq ι] {s : State T ι} {t : ι}

/-- A step through the waiting loop: the mutex changes hands and the thread
enters or leaves its condition variable. -/
def State.switch (s : State T ι) (m : Option ι) (c : CondVar ι) (op : Op T) (t : ι) (p : Pc T) :
    State T ι :=
  ({ s with mutex := m }.setCond c op).goto t p

theorem switch_pc (m : Option ι) (c : CondVar ι) (op : Op T) (p : Pc T) :
    (s.switch m c op t p).pc = Function.update s.pc t p := by
  cases op <;> rfl

theorem news_switch (m : Option ι) (c : CondVar ι) (op : Op T) (p : Pc T) :
    (s.switch m c op t p).news + (s.cond op).notified.card = s.news + c.notified.card := by
  cases op with
  | put val =>
      change c.notified.card + s.notEmpty.notified.card + s.notFull.notified.card = _
      unfold State.news
      omega
  | take =>
      change s.notFull.notified.card + c.notified.card + s.notEmpty.notified.card = _
      unfold State.news
      omega

end News

section Measure
variable [Fintype ι]

/-- What bounds the steps of all threads. -/
def State.remaining (s : State T ι) : ℕ :=
  total Finset.univ (Pc.weight (Fintype.card ι)) s.pc + 4 * s.news

theorem remaining_le (s : State T ι) :
    s.remaining ≤ 8 * Fintype.card ι * (Fintype.card ι + 2) := by
  have hpc := total_le Finset.univ (weight_le (Fintype.card ι)) s.pc
  have hfull := Finset.card_le_univ s.notFull.notified
  have hempty := Finset.card_le_univ s.notEmpty.notified
  have hbound : 8 * Fintype.card ι * (Fintype.card ι + 2) =
      Fintype.card ι * (8 * Fintype.card ι + 8) + 8 * Fintype.card ι := by
    rw [Nat.mul_add, Nat.mul_add, Nat.mul_comm (Fintype.card ι) (8 * Fintype.card ι)]
    omega
  rw [Finset.card_univ] at hpc
  simp only [State.remaining, State.news]
  omega

variable [DecidableEq ι] {cap : UInt32} {s s' : State T ι} {t : ι} {w : Option ι}

theorem remaining_goto (t : ι) (p : Pc T) :
    (s.goto t p).remaining + (s.pc t).weight (Fintype.card ι) =
      s.remaining + p.weight (Fintype.card ι) := by
  have hsum := total_update (Pc.weight (Fintype.card ι)) s.pc (Finset.mem_univ t) p
  simp only [State.remaining, State.goto, State.news]
  omega

/-- A thread moves to a lighter position, and the difference pays for the
notifications which appear. -/
theorem remaining_lt_of_move {p q : Pc T} {k : ℕ} (h : s.pc t = q)
    (hpc : s'.pc = Function.update s.pc t p) (hk : s'.news ≤ s.news + k)
    (hw : p.weight (Fintype.card ι) + 4 * k < q.weight (Fintype.card ι)) :
    s'.remaining < s.remaining := by
  have hsum := total_update (Pc.weight (Fintype.card ι)) s.pc (Finset.mem_univ t) p
  rw [h] at hsum
  simp only [State.remaining, hpc]
  omega

/-- Every step of a thread decreases the measure. -/
theorem remaining_of_trans (h : Trans cap s (.step t w) s') : s'.remaining < s.remaining := by
  cases h with
  | checkClosed h _ | checkOpen h _ | pass h _ | recheckOpen h _ | recheckClosed h _
  | lock h _ | closeLock h _ | closeStore h | closeUnlock h =>
      exact remaining_lt_of_move (k := 0) h rfl le_rfl (by simp [Pc.weight])
  | @block _ _ op h hb =>
      refine remaining_lt_of_move (k := 0) h (switch_pc none _ op (.wait op)) ?_
        (by simp [Pc.weight])
      have hnews := news_switch (s := s) (t := t) none ((s.cond op).wait t) op (.wait op)
      have hle := (s.cond op).card_wait_le t
      change (s.switch _ _ _ _ _).news ≤ _
      omega
  | @wakeUp _ _ op h hm hn =>
      have hsum := total_update (Pc.weight (Fintype.card ι)) s.pc (Finset.mem_univ t) (.recheck op)
      have hnews := news_switch (s := s) (t := t) (some t) ((s.cond op).resume t) op (.recheck op)
      have hcard := CondVar.card_resume hn
      rw [h] at hsum
      simp only [Pc.weight] at hsum
      change (s.switch _ _ _ _ _).remaining < _
      simp only [State.remaining, switch_pc]
      omega
  | put h hn =>
      refine remaining_lt_of_move (k := 1) h rfl ?_ (by simp [Pc.weight])
      exact Nat.add_le_add_left (CondVar.card_notifyOne_le hn) _
  | take h hn =>
      refine remaining_lt_of_move (k := 1) h rfl ?_ (by simp [Pc.weight])
      have hle := CondVar.card_notifyOne_le hn
      simp only [State.news, State.finish]
      omega
  | closeNotifyFull h =>
      refine remaining_lt_of_move (k := Fintype.card ι) h rfl ?_ (by simp [Pc.weight]; omega)
      have hle := s.notFull.card_notifyAll_le
      simp only [State.news, State.goto]
      omega
  | closeNotifyEmpty h =>
      refine remaining_lt_of_move (k := Fintype.card ι) h rfl ?_ (by simp [Pc.weight])
      have hle := s.notEmpty.card_notifyAll_le
      simp only [State.news, State.goto]
      omega

end Measure

section Stuck
variable [DecidableEq ι] {cap : UInt32} {s : State T ι}

/-- The holder of the mutex can always go on. -/
theorem mutex_of_stuck (hs : Sound s) (h : s.Stuck cap) : s.mutex = none := by
  refine Option.eq_none_iff_forall_ne_some.mpr fun t hm => ?_
  have hold := (hs.holder t).mp hm
  have hnext (w : Option ι) : next cap s t w = none := h t w
  cases hpc : s.pc t with
  | idle | check _ | lock _ | wait _ | closeLock | done _ => simp [hpc, Pc.holds] at hold
  | loop op | recheck op => simp [next, hpc] at hnext
  | closeStore | closeNotifyFull | closeNotifyEmpty | closeUnlock => simp [next, hpc] at hnext
  | body op =>
      cases op with
      | put val =>
          obtain ⟨w, c, hn⟩ := s.notEmpty.exists_notifyOne
          simpa [next, hpc, hn] using hnext w
      | take =>
          obtain ⟨w, c, hn⟩ := s.notFull.exists_notifyOne
          simpa [next, hpc, hn] using hnext w

/-- Where the threads stand when none of them can take a step. -/
theorem allAsleep_of_stuck (hs : Sound s) (h : s.Stuck cap) : s.AllAsleep := by
  have hm := mutex_of_stuck hs h
  intro t
  have hnext : next cap s t none = none := h t none
  have hfree : (s.pc t).holds = false := by
    refine Bool.eq_false_iff.mpr fun hold => ?_
    simpa [hm] using (hs.holder t).mpr hold
  cases hpc : s.pc t with
  | idle => exact .inl rfl
  | done out => exact .inr (.inl ⟨out, rfl⟩)
  | check op | lock op | closeLock => simp [next, hpc, hm] at hnext
  | loop _ | recheck _ | body _ => simp [hpc, Pc.holds] at hfree
  | closeStore | closeNotifyFull | closeNotifyEmpty | closeUnlock =>
      simp [hpc, Pc.holds] at hfree
  | wait op =>
      have hmiss : t ∉ (s.cond op).notified := by simpa [next, hpc, hm] using hnext
      rw [cond_eq] at hmiss
      refine .inr (.inr ⟨op.side, ?_⟩)
      have hblocks : (op.side.cond s).Blocks t := by
        cases op with
        | put val => exact (hs.full t).mpr (by simp [hpc, Pc.waitsFull])
        | take => exact (hs.empty t).mpr (by simp [hpc, Pc.waitsEmpty])
      exact hblocks.resolve_right hmiss

end Stuck

/-- The threads inside operations run out of steps, however they are scheduled, if
wakeups without a notification are set aside. In a state in which none of them can
take a step each thread has come back or sleeps on one of the condition variables.
If the queue is still open, a thread sleeps in `take` only if the queue is empty and
in `put` only if it is full, so takers and putters never wait for each other. -/
theorem operations_end [Fintype ι] [DecidableEq ι] {cap : UInt32} (hcap : 1 ≤ cap)
    {cells : ℕ → T} {s s' : State T ι} (h : (system cap cells).Reachable s)
    {sched : List (Act T ι)} (hin : ∀ a ∈ sched, a.inOperation = true)
    (hrun : (system cap cells).run s sched = some s') :
    sched.length ≤ 8 * Fintype.card ι * (Fintype.card ι + 2) ∧
      (s'.Stuck cap → s'.AllAsleep ∧
        (s'.closed = false →
          (s'.notEmpty.waiting.Nonempty → s'.ring.count = 0) ∧
            (s'.notFull.waiting.Nonempty → s'.ring.count = cap) ∧
            ¬(s'.notEmpty.waiting.Nonempty ∧ s'.notFull.waiting.Nonempty))) := by
  have hend : (system cap cells).Reachable s' := h.run hrun
  have hlen := Scheduled.run_of_decreasing (P := fun a : Act T ι => a.inOperation = true)
    (I := fun _ : State T ι => True) (m := State.remaining) ?_ trivial hin hrun
  · refine ⟨?_, fun hstuck => ?_⟩
    · have hbound := remaining_le s
      omega
    · have ha := allAsleep_of_stuck (sound_of_reachable hend) hstuck
      refine ⟨ha, fun hopen => ?_⟩
      obtain ⟨htake, hput⟩ := exhausted_of_reachable hcap hend hopen ha
      refine ⟨htake, hput, fun hboth => ?_⟩
      rw [← hput hboth.2, htake hboth.1] at hcap
      exact absurd hcap (by decide)
  · rintro u a v - ha hstep
    cases a with
    | step t w => exact ⟨trivial, remaining_of_trans (trans_of_step hstep)⟩
    | call | callClose | spurious | leave => cases ha

/-- Two threads fall asleep in `take`, and a third one calls `put`. -/
def twoTakersRun : List (Act ℕ (Option Bool)) :=
  [Act.call (some true) .take] ++ List.replicate 3 (Act.step (some true) none) ++
    [Act.call (some false) .take] ++ List.replicate 3 (Act.step (some false) none) ++
    [Act.call none (.put 7)]

/-- The value is stored and wakes one of the takers, which takes it. -/
def oneServedRun : List (Act ℕ (Option Bool)) :=
  List.replicate 3 (Act.step none none) ++ [Act.step none (some (some true))] ++
    List.replicate 4 (Act.step (some true) none)

/-- The other taker goes on sleeping, since the queue is empty again. -/
theorem operations_end_one_served :
    ∃ s s' : State ℕ (Option Bool), (system 2 fun _ => 0).run s oneServedRun = some s' ∧
      oneServedRun.length ≤ 120 ∧ some false ∈ s'.notEmpty.waiting ∧ s'.ring.count = 0 := by
  obtain ⟨s, hs, hafter⟩ := Scheduled.exists_reachable_of_run
    (system 2 fun _ => 0) twoTakersRun (fun s : State ℕ (Option Bool) =>
      ((system 2 fun _ => 0).run s oneServedRun).any (fun s' => decide (s'.Stuck 2 ∧
        s'.closed = false ∧ some false ∈ s'.notEmpty.waiting)) = true) (by decide +kernel)
  obtain ⟨s', hrun, hs'⟩ := Option.any_eq_true _ _ |>.mp hafter
  obtain ⟨hstuck, hopen, hw⟩ := of_decide_eq_true hs'
  obtain ⟨hlen, hend⟩ := operations_end (by decide) hs (by decide) hrun
  exact ⟨s, s', hrun, hlen, hw, ((hend hstuck).2 hopen).1 ⟨_, hw⟩⟩

section Callers
variable [DecidableEq ι] {cap : UInt32} {s s' : State T ι} {a : Act T ι}

/-- A value has been accepted, or its `put` is in progress, or the queue is closed. -/
def State.Offered (s : State T ι) (val : T) : Prop :=
  val ∈ s.accepted ∨ s.closed = true ∨ ∃ t, (s.pc t).runs (.put val)

/-- The positions of a thread which only takes. -/
def Pc.takes (p : Pc T) : Prop :=
  p = .idle ∨ p.runs .take ∨ (∃ val, p = .done (.takeDone val)) ∨ p = .done .takeClosed

theorem pc_ne_idle_of_step {t : ι} {w : Option ι} (h : Trans cap s (.step t w) s') :
    s'.pc t ≠ .idle := by
  cases h with
  | @block _ _ op h hb => cases op <;> simp [State.setCond]
  | @wakeUp _ _ op h hm hn => cases op <;> simp [State.setCond]
  | _ => simp

/-- An operation throws only if the queue is closed. -/
theorem closed_of_thrown_step {t : ι} {w : Option ι} (h : Trans cap s (.step t w) s')
    (op : Op T) (hd : s'.pc t = .done op.thrown) : s'.closed = true := by
  cases h with
  | checkClosed h hc | recheckClosed h hc => exact hc
  | @block _ _ op' h hb => cases op' <;> simp [State.setCond] at hd
  | @wakeUp _ _ op' h hm hn => cases op' <;> simp [State.setCond] at hd
  | _ => cases op <;> simp [Op.thrown] at hd

theorem closed_mono (h : Trans cap s a s') (hc : s.closed = true) : s'.closed = true := by
  by_contra hne
  rw [closed_of_trans h (Bool.eq_false_iff.mpr hne)] at hc
  cases hc

theorem closed_of_thrown {cells : ℕ → T} (h : (system cap cells).Reachable s) {t : ι}
    (op : Op T) (hd : s.pc t = .done op.thrown) : s.closed = true := by
  refine Scheduled.Reach.invariant (I := fun s : State T ι =>
    s.pc t = .done op.thrown → s.closed = true) h (by simp [system, initial]) ?_ hd
  intro u b v hu ih hstep _ hv
  have ht := trans_of_step hstep
  by_cases hb : t = b.thread
  · cases b with
    | step t' w =>
        obtain rfl := hb
        exact closed_of_thrown_step ht op hv
    | call | callClose | leave =>
        obtain rfl := hb
        cases ht
        simp at hv
    | spurious t' =>
        rw [(pc_of_spurious ht).1] at hv
        exact closed_mono ht (ih hv)
  · rw [pc_of_ne ht hb] at hv
    exact closed_mono ht (ih hv)

omit [DecidableEq ι] in
/-- A thread which sleeps inside an operation sleeps in the loop of this operation. -/
theorem waiting_of_runs (hs : Sound s) (ha : s.AllAsleep) {t : ι} {op : Op T}
    (hr : (s.pc t).runs op) : t ∈ (op.side.cond s).waiting := by
  rcases ha t with hp | ⟨out, hp⟩ | ⟨side, hmem⟩
  · simp [hp, Pc.runs] at hr
  · simp [hp, Pc.runs] at hr
  · obtain ⟨op', rfl, hp⟩ := hs.wait_of_blocks (.inl hmem)
    obtain rfl : op' = op := by simpa [hp, Pc.runs] using hr
    exact hmem

omit [DecidableEq ι] in
theorem inHand_of_runs {p : Pc T} {op : Op T} (h : p.runs op) : p.inHand = none := by
  rcases h with rfl | rfl | rfl | rfl | rfl | rfl <;> rfl

/-- A `put` in progress is not forgotten. -/
theorem State.Offered.trans {val : T} (ho : s.Offered val) (ht : Trans cap s a s') :
    s'.Offered val := by
  rcases ho with hacc | hclosed | ⟨t, hruns⟩
  · exact .inl (accepted_subset ht hacc)
  · exact .inr (.inl (closed_mono ht hclosed))
  · by_cases hb : t = a.thread
    · cases a with
      | step t' w =>
          obtain rfl := hb
          rcases put_step ht hruns with ⟨hp, -⟩ | ⟨-, hacc⟩ | ⟨hd, -⟩
          · exact .inr (.inr ⟨t, hp⟩)
          · exact .inl (by simp [hacc])
          · exact .inr (.inl (closed_of_thrown_step ht (.put val) hd))
      | spurious t' => exact .inr (.inr ⟨t, (pc_of_spurious ht).1 ▸ hruns⟩)
      | call | callClose | leave =>
          obtain rfl := hb
          cases ht with
          | _ hp => simp [hp, Pc.runs] at hruns
    · exact .inr (.inr ⟨t, (pc_of_ne ht hb).symm ▸ hruns⟩)

theorem takes_of_trans (h : Trans cap s a s') {t : ι} (hp : (s.pc t).takes)
    (hput : ∀ val, a ≠ .call t (.put val)) (hclose : a ≠ .callClose t) : (s'.pc t).takes := by
  by_cases hb : t = a.thread
  · cases h with
    | spuriousFull h | spuriousEmpty h => exact hp
    | callClose h =>
        obtain rfl := hb
        exact absurd rfl hclose
    | @call _ op h =>
        obtain rfl := hb
        cases op with
        | put val => exact absurd rfl (hput val)
        | take => exact .inr (.inl (by simp [Pc.runs]))
    | @block _ _ op h hb' =>
        obtain rfl := hb
        cases op <;> simp_all [Pc.takes, Pc.runs, State.setCond]
    | @wakeUp _ _ op h hm hn =>
        obtain rfl := hb
        cases op <;> simp_all [Pc.takes, Pc.runs, State.setCond]
    | @checkClosed _ _ op h hc | @recheckClosed _ _ op h hc =>
        obtain rfl := hb
        cases op <;> simp_all [Pc.takes, Pc.runs, Op.thrown]
    | _ h =>
        obtain rfl := hb
        simp_all [Pc.takes, Pc.runs]
  · rw [pc_of_ne h hb]
    exact hp

end Callers

end Libraft.Queue.ArrayBlockingQueue
