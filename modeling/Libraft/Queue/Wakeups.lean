import Libraft.Queue.BoundedFifo
import Libraft.Foundation.Wakeups

/-!
# No lost wakeup in the open blocking queue

`put` and `take` wake one thread for each value stored and each cell freed, and
a thread which wakes up tests the queue again. As long as the queue is open, no
taker sleeps while there are more values than takers on their way to them, and
no putter sleeps while there are more free cells than putters on their way.

## Implementation notes

A thread is on its way from the notification until it has taken its value: it
is in `notified` before it has the mutex again, and it is the holder of the
mutex afterwards. The wakeups without notification are recorded beside the
state, since they promise nothing.
-/

namespace Libraft.Queue.ArrayBlockingQueue

open Libraft.Foundation

variable {T ι : Type*}

/-- Which of the two loops a thread is in. -/
inductive Side
  | taker
  | putter
  deriving DecidableEq, Repr

def Op.side : Op T → Side
  | .take => .taker
  | .put _ => .putter

/-- The condition variable on which the side waits. -/
def Side.cond (s : State T ι) : Side → CondVar ι
  | .taker => s.notEmpty
  | .putter => s.notFull

/-- What the side waits for: values, or free cells. -/
def Side.units (cap : UInt32) (r : Ring T) : Side → ℕ
  | .taker => r.count.toNat
  | .putter => cap.toNat - r.count.toNat

/-- The positions of the side inside the critical section. -/
def Side.marks (side : Side) : Pc T → Bool
  | .loop op | .recheck op | .body op => op.side = side
  | _ => false

/-- The number of threads of the side, one at most, which hold the mutex. -/
def State.inside (s : State T ι) (side : Side) : ℕ := Foundation.inside side.marks s.mutex s.pc

variable [DecidableEq ι]

/-- The threads which have woken up without a notification and do not have the
mutex yet. -/
def rouse (_ : State T ι) : Act T ι → Finset ι → Finset ι
  | .spurious t, roused => insert t roused
  | .step t _, roused => roused.erase t
  | .call _ _, roused | .callClose _, roused | .leave _, roused => roused

/-- The queue with a record of the wakeups without notification. -/
def watched (cap : UInt32) (cells : ℕ → T) : Scheduled (State T ι × Finset ι) (Act T ι) :=
  (system cap cells).withHistory ∅ rouse

/-- Both sides are covered. -/
def Served (cap : UInt32) (s : State T ι) (roused : Finset ι) : Prop :=
  ∀ side : Side, Covered (side.cond s) roused (side.units cap s.ring) (s.inside side)

theorem served_initial (cap : UInt32) (cells : ℕ → T) :
    Served cap (initial cells : State T ι) ∅ := by
  intro side
  cases side <;> exact .nobody rfl

section Steps
variable {cap : UInt32} {s s' : State T ι} {a : Act T ι} {roused : Finset ι} {t : ι}

omit [DecidableEq ι] in
theorem inside_free (hm : s.mutex = none) (side : Side) : s.inside side = 0 := by
  rw [State.inside, hm, inside_none]

omit [DecidableEq ι] in
/-- The loop condition says that there is nothing to have. -/
theorem units_of_blocks {op : Op T} (hb : op.blocks cap s.ring = true) :
    op.side.units cap s.ring = 0 := by
  cases op with
  | take =>
      have hz : s.ring.count = 0 := by simpa [Op.blocks] using hb
      simp [Op.side, Side.units, hz]
  | put val =>
      have hz : s.ring.count = cap := by simpa [Op.blocks] using hb
      simp [Op.side, Side.units, hz]

theorem Served.erase (hv : Served cap s roused) (t : ι) : Served cap s (roused.erase t) :=
  fun side => (hv side).erase

/-- A step of a thread outside the critical section. -/
theorem Served.outside (hv : Served cap s roused) (hs : Sound s) (ht : (s.pc t).holds = false)
    (p : Pc T) : Served cap (s.goto t p) roused := by
  intro side
  have hcov := hv side
  rw [State.inside, ← hs.holder.inside_outside ht] at hcov
  exact hcov

/-- A step of the holder of the mutex which stays inside the critical section. -/
theorem Served.stay (hv : Served cap s roused) (hs : Sound s) {p : Pc T}
    (ht : (s.pc t).holds = true) (hp : ∀ side : Side, side.marks p = side.marks (s.pc t))
    (side : Side) :
    Covered (side.cond s) (roused.erase t) (side.units cap s.ring) ((s.goto t p).inside side) := by
  have hcov := (hv side).erase (t := t)
  rw [State.inside, ← hs.holder.inside_stay ht (hp side)] at hcov
  exact hcov

/-- A thread takes the mutex for the first time. -/
theorem Served.acquire (hv : Served cap s roused) (hm : s.mutex = none) (p : Pc T) (side : Side) :
    Covered (side.cond s) (roused.erase t) (side.units cap s.ring)
      (Foundation.inside side.marks (some t) (Function.update s.pc t p)) := by
  refine (hv side).erase.move ?_
  rw [inside_free hm]
  omega

omit [DecidableEq ι] in
theorem cond_eq (op : Op T) : s.cond op = op.side.cond s := by
  cases op <;> rfl

/-- A step through the loop of one side: its own condition variable changes, the
other one does not. -/
theorem served_setCond {op : Op T} {c : CondVar ι} {m : Option ι} {p : Pc T}
    (hown : Covered c roused (op.side.units cap s.ring)
      (Foundation.inside op.side.marks m (Function.update s.pc t p)))
    (hother : ∀ side, op.side ≠ side → Covered (side.cond s) roused (side.units cap s.ring)
      (Foundation.inside side.marks m (Function.update s.pc t p))) :
    Served cap (({ s with mutex := m }.setCond c op).goto t p) roused := by
  rintro (_ | _)
  · cases op with
    | take => exact hown
    | put val => exact hother .taker (by simp [Op.side])
  · cases op with
    | take => exact hother .putter (by simp [Op.side])
    | put val => exact hown

theorem Served.block (hv : Served cap s roused) (hs : Sound s) {op : Op T}
    (ht : s.pc t = .loop op) (hb : op.blocks cap s.ring = true) :
    Served cap (({ s with mutex := none }.setCond ((s.cond op).wait t) op).goto t (.wait op))
      (roused.erase t) := by
  refine served_setCond ?_ fun side hside => ?_
  · rw [cond_eq]
    exact (hv op.side).wait (units_of_blocks hb)
  · have hcov := (hv side).erase (t := t)
    rw [State.inside, hs.holder.inside_holder (t := t) (by simp [ht, Pc.holds]), ht,
      if_neg (by simpa [Side.marks] using hside)] at hcov
    exact hcov

theorem Served.wakeUp (hv : Served cap s roused) {op : Op T} (hm : s.mutex = none) :
    Served cap
      (({ s with mutex := some t }.setCond ((s.cond op).resume t) op).goto t (.recheck op))
      (roused.erase t) := by
  refine served_setCond ?_ fun side _ => hv.acquire hm _ side
  have hcov := hv op.side
  rw [inside_free hm] at hcov
  rw [cond_eq, inside_some, Function.update_self, if_pos (by simp [Side.marks])]
  exact hcov.resume

/-- A value is stored: it is announced to one taker, and a cell is gone. -/
theorem Served.put (hv : Served cap s roused) (hs : Sound s) (hg : Guarded cap s) {val : T}
    {w : Option ι} {c : CondVar ι} (ht : s.pc t = .body (.put val))
    (hn : s.notEmpty.notifyOne w = some c) :
    Served cap ({ s with ring := s.ring.put cap val, notEmpty := c, mutex := none }.finish t
      (.putDone val)) (roused.erase t) := by
  have hlt := count_lt_of_not_full hg.valid (hg.body _ _ ht)
  have hcount := toNat_count_put hlt val
  have hin (side : Side) : s.inside side = if side.marks (s.pc t) then 1 else 0 :=
    hs.holder.inside_holder (by simp [ht, Pc.holds])
  rintro (_ | _)
  · refine (((hv .taker).notifyOne hn).erase (t := t)).move ?_
    simp only [Side.units, State.finish_ring, hcount, hin, ht]
    simp [Side.marks, Op.side]
  · refine ((hv .putter).erase (t := t)).move ?_
    simp only [Side.units, State.finish_ring, hcount, hin, ht]
    simp [Side.marks, Op.side]
    omega

/-- A cell is freed: it is announced to one putter, and a value is gone. -/
theorem Served.take (hv : Served cap s roused) (hs : Sound s) (hg : Guarded cap s)
    {w : Option ι} {c : CondVar ι} (ht : s.pc t = .body .take)
    (hn : s.notFull.notifyOne w = some c) :
    Served cap ({ s with ring := (s.ring.take cap).2, notFull := c, mutex := none }.finish t
      (.takeDone (s.ring.take cap).1)) (roused.erase t) := by
  have hpos := count_pos_of_not_empty (hg.body _ _ ht)
  have hle : s.ring.count.toNat ≤ cap.toNat := UInt32.le_iff_toNat_le.mp hg.valid.count_le
  have hcount : (s.ring.take cap).2.count.toNat = s.ring.count.toNat - 1 := toNat_count_take hpos
  have hin (side : Side) : s.inside side = if side.marks (s.pc t) then 1 else 0 :=
    hs.holder.inside_holder (by simp [ht, Pc.holds])
  rintro (_ | _)
  · refine ((hv .taker).erase (t := t)).move ?_
    simp only [Side.units, State.finish_ring, hcount, hin, ht]
    simp [Side.marks, Op.side]
    omega
  · refine (((hv .putter).notifyOne hn).erase (t := t)).move ?_
    simp only [Side.units, State.finish_ring, hcount, hin, ht]
    simp [Side.marks, Op.side]
    omega

omit [DecidableEq ι] in
/-- A blocked thread stands in the loop of the side it is blocked on. -/
theorem Sound.wait_of_blocks (hs : Sound s) {side : Side} (hb : (side.cond s).Blocks t) :
    ∃ op : Op T, op.side = side ∧ s.pc t = .wait op := by
  cases side with
  | taker =>
      have hpc := (hs.empty t).mp hb
      unfold Pc.waitsEmpty at hpc
      split at hpc
      · exact ⟨.take, rfl, ‹_›⟩
      · exact hpc.elim
  | putter =>
      have hpc := (hs.full t).mp hb
      unfold Pc.waitsFull at hpc
      split at hpc
      · exact ⟨.put _, rfl, ‹_›⟩
      · exact hpc.elim

omit [DecidableEq ι] in
theorem Sound.side_unique (hs : Sound s) {side side' : Side} (hb : (side.cond s).Blocks t)
    (hb' : (side'.cond s).Blocks t) : side = side' := by
  obtain ⟨op, rfl, hpc⟩ := hs.wait_of_blocks hb
  obtain ⟨op', rfl, hpc'⟩ := hs.wait_of_blocks hb'
  rw [hpc, Pc.wait.injEq] at hpc'
  rw [hpc']

theorem Served.trans (hv : Served cap s roused) (hs : Sound s) (hg : Guarded cap s)
    (h : Trans cap s a s') (hopen : s'.closed = false) : Served cap s' (rouse s a roused) := by
  cases h with
  | call h | callClose h | leave h => exact hv.outside hs (by simp [h, Pc.holds]) _
  | checkClosed h hc | recheckClosed h hc => simp [hc] at hopen
  | @checkOpen t w op h hc => exact (hv.erase t).outside hs (by simp [h, Pc.holds]) _
  | lock h hm | closeLock h hm => exact hv.acquire hm _
  | block h hb => exact hv.block hs h hb
  | pass h hb => exact hv.stay hs (by simp [h, Pc.holds]) (by simp [h, Side.marks])
  | recheckOpen h hc => exact hv.stay hs (by simp [h, Pc.holds]) (by simp [h, Side.marks])
  | wakeUp h hm hn => exact hv.wakeUp hm
  | put h hn => exact hv.put hs hg h hn
  | take h hn => exact hv.take hs hg h hn
  | closeStore h => simp at hopen
  | @closeNotifyFull t w h =>
      have hstay := hv.stay hs (t := t) (p := .closeNotifyEmpty) (by simp [h, Pc.holds])
        (by simp [h, Side.marks])
      rintro (_ | _)
      · exact hstay .taker
      · exact .nobody rfl
  | @closeNotifyEmpty t w h =>
      have hstay := hv.stay hs (t := t) (p := .closeUnlock) (by simp [h, Pc.holds])
        (by simp [h, Side.marks])
      rintro (_ | _)
      · exact .nobody rfl
      · exact hstay .putter
  | @closeUnlock t w h =>
      intro side
      have hcov := (hv side).erase (t := t)
      rw [State.inside, hs.holder.inside_holder (t := t) (by simp [h, Pc.holds]), h] at hcov
      exact hcov
  | @spuriousFull t h =>
      rintro (_ | _)
      · refine (hv .taker).rouse_other fun hb => ?_
        have heq : Side.taker = .putter := hs.side_unique hb (.inl h)
        cases heq
      · exact (hv .putter).rouse h
  | @spuriousEmpty t h =>
      rintro (_ | _)
      · exact (hv .taker).rouse h
      · refine (hv .putter).rouse_other fun hb => ?_
        have heq : Side.putter = .taker := hs.side_unique hb (.inl h)
        cases heq

theorem closed_of_trans (h : Trans cap s a s') (hc : s'.closed = false) : s.closed = false := by
  cases h with
  | @block t w op h hb => cases op <;> exact hc
  | @wakeUp t w op h hm hn => cases op <;> exact hc
  | closeStore h => simp at hc
  | _ => exact hc

theorem served_of_reachable (hcap : 1 ≤ cap) {cells : ℕ → T}
    (h : (watched cap cells).Reachable (s, roused)) (hopen : s.closed = false) :
    Served cap s roused := by
  refine Scheduled.Reach.invariant
    (I := fun p : State T ι × Finset ι => p.1.closed = false → Served cap p.1 p.2) h
    (fun _ => served_initial cap cells) ?_ hopen
  rintro ⟨u, past⟩ a ⟨v, past'⟩ hu ih hstep - hv
  obtain ⟨hq, rfl⟩ := Scheduled.withHistory_step hstep
  have ht := trans_of_step hq
  have hbase := Scheduled.Reachable.forget hu
  exact (ih (closed_of_trans ht hv)).trans (sound_of_reachable hbase)
    (guarded_of_reachable hcap hbase).1 ht hv

/-- Every thread which is inside an operation sleeps, and no notification has
been delivered to it. -/
def State.AllAsleep (s : State T ι) : Prop :=
  ∀ t, s.pc t = .idle ∨ (∃ out, s.pc t = .done out) ∨ ∃ side : Side, t ∈ (side.cond s).waiting

omit [DecidableEq ι] in
/-- When all threads sleep, nobody is on its way. -/
theorem Sound.quiet (hs : Sound s) (ha : s.AllAsleep) (side : Side) :
    s.inside side = 0 ∧ (side.cond s).notified = ∅ := by
  constructor
  · refine inside_free (Option.eq_none_iff_forall_ne_some.mpr fun t hm => ?_) side
    have hold := (hs.holder t).mp hm
    rcases ha t with hp | ⟨out, hp⟩ | ⟨side', hw⟩
    · simp [hp, Pc.holds] at hold
    · simp [hp, Pc.holds] at hold
    · obtain ⟨op, -, hp⟩ := hs.wait_of_blocks (.inl hw)
      simp [hp, Pc.holds] at hold
  · refine Finset.eq_empty_of_forall_notMem fun t hn => ?_
    obtain ⟨op, -, hpc⟩ := hs.wait_of_blocks (.inr hn)
    rcases ha t with hp | ⟨out, hp⟩ | ⟨side', hw⟩
    · simp [hp] at hpc
    · simp [hp] at hpc
    · obtain rfl := hs.side_unique (.inr hn) (.inl hw)
      exact (side.cond s).disjoint t hw hn

/-- A side all of whose threads sleep has nothing left to wait for. -/
theorem Served.units_of_allAsleep (hv : Served cap s roused) (hs : Sound s) (ha : s.AllAsleep)
    (side : Side) (hw : (side.cond s).waiting.Nonempty) : side.units cap s.ring = 0 := by
  obtain ⟨hin, hn⟩ := hs.quiet ha side
  have he := (hv side).enough hw
  simpa [hin, hn] using he

theorem Served.exhausted (hv : Served cap s roused) (hs : Sound s) (hg : Guarded cap s)
    (ha : s.AllAsleep) :
    (s.notEmpty.waiting.Nonempty → s.ring.count = 0) ∧
      (s.notFull.waiting.Nonempty → s.ring.count = cap) := by
  have hle : s.ring.count.toNat ≤ cap.toNat := UInt32.le_iff_toNat_le.mp hg.valid.count_le
  refine ⟨fun hw => ?_, fun hw => ?_⟩
  · have hz : s.ring.count.toNat = 0 := hv.units_of_allAsleep hs ha .taker hw
    exact UInt32.toNat_inj.mp hz
  · have hz : cap.toNat - s.ring.count.toNat = 0 := hv.units_of_allAsleep hs ha .putter hw
    apply UInt32.toNat_inj.mp
    omega

/-- As long as the queue is open, a taker sleeps without a notification only if
there are at most as many values as takers which have been notified or hold the
mutex, and a putter only if there are at most as many free cells as putters
which have been notified or hold the mutex. If all threads sleep, no value and
no free cell is left to any of them. -/
theorem open_queue_loses_no_wakeup (hcap : 1 ≤ cap) {cells : ℕ → T}
    (h : (watched cap cells).Reachable (s, roused)) (hopen : s.closed = false) :
    (s.notEmpty.waiting.Nonempty →
      s.ring.count.toNat ≤ (s.notEmpty.notified \ roused).card + s.inside .taker) ∧
    (s.notFull.waiting.Nonempty →
      cap.toNat - s.ring.count.toNat ≤ (s.notFull.notified \ roused).card + s.inside .putter) ∧
    (s.AllAsleep →
      (s.notEmpty.waiting.Nonempty → s.ring.count = 0) ∧
        (s.notFull.waiting.Nonempty → s.ring.count = cap)) := by
  have hv := served_of_reachable hcap h hopen
  have hbase : (system cap cells).Reachable s := Scheduled.Reachable.forget h
  exact ⟨(hv .taker).enough, (hv .putter).enough,
    hv.exhausted (sound_of_reachable hbase) (guarded_of_reachable hcap hbase).1⟩

/-- The last part for the queue itself. -/
theorem exhausted_of_reachable (hcap : 1 ≤ cap) {cells : ℕ → T}
    (h : (system cap cells).Reachable s) (hopen : s.closed = false) (ha : s.AllAsleep) :
    (s.notEmpty.waiting.Nonempty → s.ring.count = 0) ∧
      (s.notFull.waiting.Nonempty → s.ring.count = cap) := by
  obtain ⟨roused, hw⟩ := Scheduled.Reachable.remember h ∅ rouse
  exact (served_of_reachable hcap hw hopen).exhausted (sound_of_reachable h)
    (guarded_of_reachable hcap h).1 ha

end Steps

/-- Threads 0, 1 and 2 fall asleep in `take`; threads 3 and 4 put one value each
and wake the threads 0 and 1; thread 0 has the mutex again. -/
def twoWokenRun : List (Act ℕ ℕ) :=
  [Act.call 0 .take] ++ List.replicate 3 (Act.step 0 none) ++
    [Act.call 1 .take] ++ List.replicate 3 (Act.step 1 none) ++
    [Act.call 2 .take] ++ List.replicate 3 (Act.step 2 none) ++
    [Act.call 3 (.put 7)] ++ List.replicate 3 (Act.step 3 none) ++ [Act.step 3 (some 0)] ++
    [Act.call 4 (.put 8)] ++ List.replicate 3 (Act.step 4 none) ++ [Act.step 4 (some 1)] ++
    [Act.step 0 none]

/-- There are two values, one for the taker which holds the mutex and one for the
taker which has been notified. -/
theorem open_queue_loses_no_wakeup_two :
    ∃ (s : State ℕ ℕ) (roused : Finset ℕ), s.notEmpty.waiting = {2} ∧ s.ring.count = 2 ∧
      2 ≤ (s.notEmpty.notified \ roused).card + s.inside .taker := by
  obtain ⟨⟨s, roused⟩, hs, hopen, hwait, hcount⟩ := Scheduled.exists_reachable_of_run
    (watched 2 fun _ => 0) twoWokenRun (fun p : State ℕ ℕ × Finset ℕ =>
      p.1.closed = false ∧ p.1.notEmpty.waiting = {2} ∧ p.1.ring.count = 2) (by decide)
  refine ⟨s, roused, hwait, hcount, ?_⟩
  have hle := (open_queue_loses_no_wakeup (by decide) hs hopen).1
    ⟨2, show 2 ∈ s.notEmpty.waiting by simp [show s.notEmpty.waiting = {2} from hwait]⟩
  rwa [show s.ring.count = 2 from hcount] at hle

/-- The taker which holds the mutex again is not among the notified ones any
more, but its value is still in the queue. -/
theorem values_beyond_notified_takers :
    ∃ (s : State ℕ ℕ) (roused : Finset ℕ), (watched 2 fun _ => 0).Reachable (s, roused) ∧
      s.closed = false ∧ s.notEmpty.waiting = {2} ∧
      (s.notEmpty.notified \ roused).card < s.ring.count.toNat := by
  obtain ⟨⟨s, roused⟩, hs, hopen, hwait, hlt⟩ := Scheduled.exists_reachable_of_run
    (watched 2 fun _ => 0) twoWokenRun (fun p : State ℕ ℕ × Finset ℕ =>
      p.1.closed = false ∧ p.1.notEmpty.waiting = {2} ∧
        (p.1.notEmpty.notified \ p.2).card < p.1.ring.count.toNat) (by decide)
  exact ⟨s, roused, hs, hopen, hwait, hlt⟩

end Libraft.Queue.ArrayBlockingQueue
