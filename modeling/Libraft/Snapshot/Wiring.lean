import Libraft.Snapshot.System
import Libraft.Fsm.Completion

/-!
# How the snapshot machinery hangs together

The parts of the system go their own ways: the FSM system and `snapshot_queue`
are in states which they can reach by themselves. `Wiring` says how the
positions of the two workers in the queue follow from their programs, and that
the snapshot worker exists before a job is submitted. Nobody locks a slot which
it has already locked.
-/

namespace Libraft.Snapshot

open Libraft.Foundation Libraft.Calls
open Libraft.Queue

variable {S ι : Type*}

/-- The sink was opened, the client's function returned 0 and `fclose` returned 0. -/
def Written.ok : Written → Bool
  | .notOpened => false
  | .closed rc closeRc => rc = 0 && closeRc = 0

/-- What the snapshot worker knows about its sink. -/
def Worker.Faithful : Worker → Prop
  | .fclose _ rc success => success = (rc = 0 : Bool)
  | .complete _ written success => success = written.ok
  | _ => True

/-- The job with which the callback is busy is its request's. -/
def Callback.Serves (req : ℕ) : Callback → Prop
  | .join job | .emplace job | .emplacing job => job.slot = req
  | .completing k => k = req
  | .entry | .returning | .aborted => True

/-- Where the FSM worker stands in `snapshot_queue`. -/
def Callback.At (p : Deque.Pc SnapshotJob) : Callback → Prop
  | .emplacing job => p.runs (.emplace job) ∨ p = .done .returned
  | _ => p = .idle

/-- Where the snapshot worker stands in `snapshot_queue`. -/
def Worker.At (p : Deque.Pc SnapshotJob) : Worker → Prop
  | .take => p.runs .take ∨ ∃ job, p = .done (.value job)
  | _ => p = .idle

/-- The callback is about to submit a job. -/
def Callback.submits : Callback → Bool
  | .emplace _ | .emplacing _ => true
  | _ => false

variable [DecidableEq ι]

/-- How the parts of the system hang together. -/
structure Wiring (client : Fsm.Client S) (fsm : S) (s : State S ι) : Prop where
  reach : (Fsm.system client fsm).Reachable s.fsm
  queue : Deque.system.Reachable s.queue
  isOpen : s.queue.closed = false
  emplacer : s.callback.At (s.queue.pc .fsmWorker)
  taker : s.worker.At (s.queue.pc .snapshotWorker)
  inside : s.callback ≠ .entry → s.current ≠ none
  serves : ∀ req, s.current = some req → s.callback.Serves req
  employed : s.callback.submits = true ∨ s.queue.deque ≠ [] → s.worker ≠ .absent
  running : s.worker ≠ .stopped
  faithful : s.worker.Faithful

theorem wiring_initial (client : Fsm.Client S) (fsm : S) :
    Wiring client fsm (initial fsm : State S ι) where
  reach := .init
  queue := .init
  isOpen := rfl
  emplacer := rfl
  taker := rfl
  inside := fun h => absurd rfl h
  serves := fun _ _ => trivial
  employed := by simp [initial, Callback.submits, Deque.initial]
  running := by simp [initial]
  faithful := trivial

section Wiring
variable {client : Fsm.Client S} {fsm : S} {s s' : State S ι} {a : Act ι}

omit [DecidableEq ι] in
theorem runs_unique {p : Deque.Pc SnapshotJob} {op op' : Deque.Op SnapshotJob}
    (h : p.runs op) (h' : p.runs op') : op = op' := by
  unfold Deque.Pc.runs at h h'
  split at h <;> simp_all

/-- Nobody closes or resets the queue. -/
theorem Wiring.no_close (h : Wiring client fsm s) (t : User) :
    ¬ (s.queue.pc t).runs .close ∧ ¬ (s.queue.pc t).runs .reset := by
  cases t with
  | fsmWorker =>
      have hat := h.emplacer
      unfold Callback.At at hat
      split at hat
      · rcases hat with hr | hd
        · exact ⟨fun hc => (by cases runs_unique hr hc), fun hc => (by cases runs_unique hr hc)⟩
        · simp [hd, Deque.Pc.runs]
      · simp [hat, Deque.Pc.runs]
  | snapshotWorker =>
      have hat := h.taker
      unfold Worker.At at hat
      split at hat
      · rcases hat with hr | ⟨job, hd⟩
        · exact ⟨fun hc => (by cases runs_unique hr hc), fun hc => (by cases runs_unique hr hc)⟩
        · simp [hd, Deque.Pc.runs]
      · simp [hat, Deque.Pc.runs]

/-- What a step inside `snapshot_queue` can be. -/
inductive QueueStep (s : State S ι) (q : Deque.State SnapshotJob User) : Prop
  | quiet (hd : q.deque = s.queue.deque) (ha : q.accepted = s.queue.accepted)
      (hv : q.delivered = s.queue.delivered)
      (hpc : ∀ t, q.pc t = s.queue.pc t ∨
        ∃ op, (s.queue.pc t).runs op ∧ (q.pc t).runs op)
  | stored (job : SnapshotJob) (hc : s.callback = .emplacing job)
      (hr : (s.queue.pc .fsmWorker).runs (.emplace job))
      (hd : q.deque = s.queue.deque ++ [job]) (ha : q.accepted = s.queue.accepted ++ [job])
      (hv : q.delivered = s.queue.delivered)
      (hpc : q.pc = Function.update s.queue.pc .fsmWorker (.done .returned))
  | removed (job : SnapshotJob) (hw : s.worker = .take)
      (hr : (s.queue.pc .snapshotWorker).runs .take)
      (hd : s.queue.deque = job :: q.deque) (ha : q.accepted = s.queue.accepted)
      (hv : q.delivered = s.queue.delivered ++ [job])
      (hpc : q.pc = Function.update s.queue.pc .snapshotWorker (.done (.value job)))

/-- The FSM worker only emplaces. -/
theorem Wiring.emplacing_of_runs (h : Wiring client fsm s) {op : Deque.Op SnapshotJob}
    (hr : (s.queue.pc .fsmWorker).runs op) :
    ∃ job, s.callback = .emplacing job ∧ op = .emplace job := by
  have hat := h.emplacer
  unfold Callback.At at hat
  split at hat
  case h_1 job hc =>
      rcases hat with hr' | hd
      · exact ⟨job, hc, runs_unique hr hr'⟩
      · simp [hd, Deque.Pc.runs] at hr
  case h_2 => simp [hat, Deque.Pc.runs] at hr

/-- The snapshot worker only takes. -/
theorem Wiring.take_of_runs (h : Wiring client fsm s) {op : Deque.Op SnapshotJob}
    (hr : (s.queue.pc .snapshotWorker).runs op) : s.worker = .take ∧ op = .take := by
  have hat := h.taker
  unfold Worker.At at hat
  split at hat
  case h_1 hw =>
      rcases hat with hr' | ⟨job, hd⟩
      · exact ⟨hw, runs_unique hr hr'⟩
      · simp [hd, Deque.Pc.runs] at hr
  case h_2 => simp [hat, Deque.Pc.runs] at hr

theorem Wiring.queueStep (h : Wiring client fsm s) {a : Deque.Act SnapshotJob User}
    {q : Deque.State SnapshotJob User} (hq : Deque.step s.queue a = some q)
    (ha : a.internal = true) : QueueStep s q ∧ q.closed = false := by
  obtain ⟨heff, hopen⟩ := Deque.effect_of_step hq ha h.isOpen h.no_close
  refine ⟨?_, hopen⟩
  cases heff with
  | quiet hd ha hv hpc => exact .quiet hd ha hv hpc
  | stored t op job hr ho hd ha hv hpc =>
      cases t with
      | fsmWorker =>
          obtain ⟨job', hc, rfl⟩ := h.emplacing_of_runs hr
          obtain rfl : job' = job := by simpa using ho
          exact .stored job' hc hr hd ha hv hpc
      | snapshotWorker =>
          obtain ⟨-, rfl⟩ := h.take_of_runs hr
          simp at ho
  | removed t op job hr ho hd ha hv hpc =>
      cases t with
      | fsmWorker =>
          obtain ⟨job', hc, rfl⟩ := h.emplacing_of_runs hr
          cases ho
      | snapshotWorker =>
          obtain ⟨hw, rfl⟩ := h.take_of_runs hr
          exact .removed job hw hr hd ha hv hpc

/-- The FSM worker goes on inside the queue, or returns with the job stored. -/
theorem Callback.At.move {c : Callback} {p p' : Deque.Pc SnapshotJob} (h : c.At p)
    (hp : p' = p ∨ ∃ op, p.runs op ∧ p'.runs op) : c.At p' := by
  rcases hp with rfl | ⟨op, hr, hr'⟩
  · exact h
  · unfold Callback.At at h ⊢
    split at h
    case h_1 job =>
        rcases h with h | h
        · exact .inl (runs_unique hr h ▸ hr')
        · simp [h, Deque.Pc.runs] at hr
    case h_2 => simp [h, Deque.Pc.runs] at hr

theorem Worker.At.move {w : Worker} {p p' : Deque.Pc SnapshotJob} (h : w.At p)
    (hp : p' = p ∨ ∃ op, p.runs op ∧ p'.runs op) : w.At p' := by
  rcases hp with rfl | ⟨op, hr, hr'⟩
  · exact h
  · unfold Worker.At at h ⊢
    split at h
    case h_1 =>
        rcases h with h | ⟨job, h⟩
        · exact .inl (runs_unique hr h ▸ hr')
        · simp [h, Deque.Pc.runs] at hr
    case h_2 => simp [h, Deque.Pc.runs] at hr

/-- What a step of the FSM system means to the callback. -/
inductive Turn (s s' : State S ι) : Prop
  | same (hcur : s'.current = s.current) (hcb : s'.callback = s.callback)
      (hbeg : s'.fsm.begun = s.fsm.begun)
  | enter (req : ℕ) (hnone : s.current = none) (hcur : s'.current = some req)
      (hentry : s.callback = .entry) (hcb : s'.callback = .entry)
      (hbeg : s'.fsm.begun = s.fsm.begun ++ [req])
  | leave (hret : s.callback = .returning) (hcur : s'.current = none)
      (hcb : s'.callback = .entry) (hbeg : s'.fsm.begun = s.fsm.begun)

theorem Wiring.entry_of_none (h : Wiring client fsm s) (hn : s.current = none) :
    s.callback = .entry := by
  by_contra hne
  exact h.inside hne hn

omit [DecidableEq ι] in
theorem current_of_ne_running (h : ∀ k cb, s.fsm.worker ≠ .running k cb) : s.current = none := by
  unfold State.current
  split
  case h_1 hw => exact absurd hw (h _ _)
  case h_2 => rfl

theorem Wiring.turn (h : Wiring client fsm s) {a : Fsm.Act ι} {f : Fsm.State S ι}
    (ha : s.allows a = true) (hs : Fsm.step client s.fsm a = some f) :
    Turn s { s with fsm := f, callback := s.callbackAfter a } := by
  by_cases hw : ∃ w, a = .worker w
  · obtain ⟨w, rfl⟩ := hw
    rcases Fsm.invoked_of_workerStep hs with ⟨k, cb, hinv, -, hbeg, hrun⟩ | ⟨hbeg, hrun⟩
    · have hnone : s.current = none := current_of_ne_running (by simp [hinv])
      have hentry := h.entry_of_none hnone
      cases cb with
      | beginSnapshot path req =>
          refine .enter req hnone ?_ hentry rfl ?_
          · simp [State.current, hrun]
          · simp [Fsm.State.begun, hbeg, Fsm.Invocation.request?]
      | _ =>
          refine .same ?_ hentry.symm ?_
          · simp [State.current, hrun, hinv]
          · simp [Fsm.State.begun, hbeg, Fsm.Invocation.request?]
    · have hcur : ({ s with fsm := f, callback := .entry } : State S ι).current = none :=
        current_of_ne_running hrun
      have hbeg' : f.begun = s.fsm.begun := by rw [Fsm.State.begun, hbeg]; rfl
      simp only [State.allows, Bool.or_eq_true, decide_eq_true_eq] at ha
      rcases ha with hnone | hret
      · exact .same (hcur.trans hnone.symm) (h.entry_of_none hnone).symm hbeg'
      · exact .leave hret hcur rfl hbeg'
  · obtain ⟨hbeg, hworker⟩ := Fsm.worker_of_step hs (not_exists.mp hw)
    refine .same ?_ ?_ ?_
    · simp [State.current, hworker]
    · cases a with
      | worker w => exact absurd ⟨w, rfl⟩ hw
      | _ => rfl
    · rw [Fsm.State.begun, hbeg]; rfl

/-- Somebody calls `raft_fsm_snapshot_complete`. -/
theorem current_of_complete {k : ℕ} {success : Bool} {f : Fsm.State S ι}
    (hs : Fsm.step client s.fsm (.complete k success) = some f) :
    ({ s with fsm := f } : State S ι).current = s.current ∧ f.begun = s.fsm.begun := by
  obtain ⟨hbeg, hworker⟩ := Fsm.worker_of_step hs (by simp)
  exact ⟨by simp [State.current, hworker], by rw [Fsm.State.begun, hbeg]; rfl⟩

omit [DecidableEq ι] in
theorem Callback.at_iff {c : Callback} (hne : ∀ job, c ≠ .emplacing job)
    {p : Deque.Pc SnapshotJob} : c.At p ↔ p = .idle := by
  cases c with
  | emplacing job => exact absurd rfl (hne job)
  | _ => exact .rfl

omit [DecidableEq ι] in
theorem Worker.at_iff {w : Worker} (hne : w ≠ .take) {p : Deque.Pc SnapshotJob} :
    w.At p ↔ p = .idle := by
  cases w with
  | take => exact absurd rfl hne
  | _ => exact .rfl

/-- The history and the deferred requests do not matter here. -/
theorem Wiring.congr (h : Wiring client fsm s) (hf : s'.fsm = s.fsm)
    (hc : s'.callback = s.callback) (hq : s'.queue = s.queue) (hw : s'.worker = s.worker) :
    Wiring client fsm s' := by
  have hcur : s'.current = s.current := by simp [State.current, hf]
  constructor
  · rw [hf]; exact h.reach
  · rw [hq]; exact h.queue
  · rw [hq]; exact h.isOpen
  · rw [hc, hq]; exact h.emplacer
  · rw [hw, hq]; exact h.taker
  · rw [hc, hcur]; exact h.inside
  · rw [hc, hcur]; exact h.serves
  · rw [hc, hq, hw]; exact h.employed
  · rw [hw]; exact h.running
  · rw [hw]; exact h.faithful

/-- The callback moves on outside the queue. -/
theorem Wiring.goto (h : Wiring client fsm s) {req : ℕ} {c : Callback}
    (hcur : s.current = some req) (hidle : s.queue.pc .fsmWorker = .idle)
    (hne : ∀ job, c ≠ .emplacing job) (hserves : c.Serves req)
    (hemp : c.submits = true → s.worker ≠ .absent) :
    Wiring client fsm { s with callback := c } where
  reach := h.reach
  queue := h.queue
  isOpen := h.isOpen
  emplacer := (Callback.at_iff hne).mpr hidle
  taker := h.taker
  inside := fun _ => by
    change s.current ≠ none
    simp [hcur]
  serves := by
    intro req' hreq
    cases hcur.symm.trans hreq
    exact hserves
  employed := fun he => he.elim hemp fun hd => h.employed (.inr hd)
  running := h.running
  faithful := h.faithful

/-- The snapshot worker moves on outside the queue. -/
theorem Wiring.work (h : Wiring client fsm s) {w : Worker}
    (hidle : s.queue.pc .snapshotWorker = .idle) (hne : w ≠ .take) (habs : w ≠ .absent)
    (hstop : w ≠ .stopped) (hf : w.Faithful) : Wiring client fsm { s with worker := w } where
  reach := h.reach
  queue := h.queue
  isOpen := h.isOpen
  emplacer := h.emplacer
  taker := (Worker.at_iff hne).mpr hidle
  inside := h.inside
  serves := h.serves
  employed := fun _ => habs
  running := hstop
  faithful := hf

/-- Somebody calls `raft_fsm_snapshot_complete`. -/
theorem Wiring.complete (h : Wiring client fsm s) {k : ℕ} {success : Bool} {f : Fsm.State S ι}
    (hs : Fsm.step client s.fsm (.complete k success) = some f) :
    Wiring client fsm { s with fsm := f } := by
  have hcur := (current_of_complete hs).1
  have hreach := h.reach.next (a := Fsm.Act.complete k success) hs
  refine ⟨hreach, h.queue, h.isOpen, h.emplacer, h.taker, ?_, ?_, h.employed, h.running,
    h.faithful⟩
  · rw [hcur]; exact h.inside
  · rw [hcur]; exact h.serves

theorem Wiring.idle_of_callback (h : Wiring client fsm s) {c : Callback} (hc : s.callback = c)
    (hne : ∀ job, c ≠ .emplacing job) : s.queue.pc .fsmWorker = .idle := by
  have hat := h.emplacer
  rw [hc] at hat
  exact (Callback.at_iff hne).mp hat

theorem Wiring.idle_of_worker (h : Wiring client fsm s) {w : Worker} (hw : s.worker = w)
    (hne : w ≠ .take) : s.queue.pc .snapshotWorker = .idle := by
  have hat := h.taker
  rw [hw] at hat
  exact (Worker.at_iff hne).mp hat

theorem Wiring.current_of_callback (h : Wiring client fsm s) {c : Callback}
    (hc : s.callback = c) (hne : c ≠ .entry) :
    ∃ req, s.current = some req ∧ c.Serves req := by
  obtain ⟨req, hr⟩ := Option.ne_none_iff_exists'.mp (h.inside (hc ▸ hne))
  exact ⟨req, hr, hc ▸ h.serves req hr⟩

/-- A step of the FSM system which is not the call of a completion. -/
theorem Wiring.fsmStep (h : Wiring client fsm s) {a : Fsm.Act ι} {f : Fsm.State S ι}
    (ha : s.allows a = true) (hs : Fsm.step client s.fsm a = some f) :
    Wiring client fsm { s with fsm := f, callback := s.callbackAfter a } := by
  have hreach := h.reach.next hs
  -- the next callback starts afresh
  have hafresh (hidle : s.queue.pc .fsmWorker = .idle) (hcb : s.callbackAfter a = .entry) :
      Wiring client fsm { s with fsm := f, callback := s.callbackAfter a } := by
    rw [hcb]
    exact ⟨hreach, h.queue, h.isOpen, hidle, h.taker, fun hne => absurd rfl hne,
      fun _ _ => trivial, fun he => h.employed (.inr (by simpa [Callback.submits] using he)),
      h.running, h.faithful⟩
  cases h.turn ha hs with
  | same hcur hcb hbeg =>
      rw [show s.callbackAfter a = s.callback from hcb]
      refine ⟨hreach, h.queue, h.isOpen, h.emplacer, h.taker, ?_, ?_, h.employed, h.running,
        h.faithful⟩
      · intro hne
        exact hcur ▸ h.inside hne
      · exact fun req hr => h.serves req (hcur ▸ hr)
  | enter req hnone hcur hentry hcb hbeg =>
      exact hafresh (h.idle_of_callback hentry (by simp)) hcb
  | leave hret hcur hcb hbeg => exact hafresh (h.idle_of_callback hret (by simp)) hcb

/-- A step inside `snapshot_queue`. -/
theorem Wiring.queueTrans (h : Wiring client fsm s) {a : Deque.Act SnapshotJob User}
    {q : Deque.State SnapshotJob User} (hq : Deque.step s.queue a = some q)
    (ha : a.internal = true) : Wiring client fsm { s with queue := q } := by
  obtain ⟨hstep, hopen⟩ := h.queueStep hq ha
  have hreach := h.queue.next hq
  cases hstep with
  | quiet hd hacc hv hpc =>
      refine ⟨h.reach, hreach, hopen, h.emplacer.move (hpc _), h.taker.move (hpc _), h.inside,
        h.serves, ?_, h.running, h.faithful⟩
      rw [hd]
      exact h.employed
  | stored job hc hr hd hacc hv hpc =>
      refine ⟨h.reach, hreach, hopen, ?_, ?_, h.inside, h.serves, fun _ => ?_, h.running,
        h.faithful⟩
      · rw [hc]
        exact .inr (by simp [hpc])
      · simpa [hpc] using h.taker
      · exact h.employed (.inl (by simp [hc, Callback.submits]))
  | removed job hw hr hd hacc hv hpc =>
      refine ⟨h.reach, hreach, hopen, ?_, ?_, h.inside, h.serves, fun _ => ?_, h.running,
        h.faithful⟩
      · simpa [hpc] using h.emplacer
      · rw [hw]
        exact .inr ⟨job, by simp [hpc]⟩
      · simp [hw]

/-- The snapshot worker never finds its queue closed. -/
theorem Wiring.not_queueClosed (h : Wiring client fsm s) (hw : s.worker = .take) :
    s.queue.pc .snapshotWorker ≠ .done .queueClosed := by
  intro hp
  have hat := h.taker
  rw [hw] at hat
  rcases hat with hr | ⟨job, hd⟩
  · simp [hp, Deque.Pc.runs] at hr
  · simp [hp] at hd

theorem Wiring.trans (h : Wiring client fsm s) (ht : Trans client s a s') :
    Wiring client fsm s' := by
  cases ht with
  | fsm ha hs => exact h.fsmStep ha hs
  | @planTake req h' f hb hc =>
      have hidle := h.idle_of_callback hc (by simp)
      unfold raftFsmTakeSnapshot
      split
      · exact h.goto hb hidle (by simp) trivial (by simp [Callback.submits])
      · exact h.goto hb hidle (by simp) rfl (by simp [Callback.submits])
  | @planComplete req success f hb hc hs =>
      have hcur := (current_of_complete hs).1.trans hb
      have hidle := h.idle_of_callback hc (by simp)
      exact ((h.complete hs).goto (c := .completing req) hcur hidle (by simp) rfl
        (by simp [Callback.submits])).congr rfl rfl rfl rfl
  | @planDefer req hb hc =>
      have hidle := h.idle_of_callback hc (by simp)
      exact (h.goto (c := .returning) hb hidle (by simp) trivial
        (by simp [Callback.submits])).congr rfl rfl rfl rfl
  | @join job hc =>
      obtain ⟨req, hreq, hserves⟩ := h.current_of_callback hc (by simp)
      have hidle := h.idle_of_callback hc (by simp)
      have hstart : Wiring client fsm
          { s with worker := if s.worker = .absent then .loop else s.worker } := by
        split
        · rename_i hw
          exact h.work (h.idle_of_worker hw (by simp)) (by simp) (by simp) (by simp) trivial
        · exact h
      refine (hstart.goto (c := .emplace job) hreq hidle (by simp) hserves fun _ => ?_).congr
        rfl rfl rfl rfl
      change (if s.worker = .absent then Worker.loop else s.worker) ≠ .absent
      split <;> simp_all
  | @emplace job q hc hq =>
      obtain ⟨req, hreq, hserves⟩ := h.current_of_callback hc (by simp)
      have hidle := h.idle_of_callback hc (by simp)
      have hemp := h.employed (.inl (by simp [hc, Callback.submits]))
      have hreach := h.queue.next (a := Deque.Act.call User.fsmWorker (.emplace job)) hq
      obtain rfl : s.queue.goto .fsmWorker (.lock (.emplace job)) = q := by
        simpa [Deque.step, hidle] using hq
      refine ⟨h.reach, hreach, h.isOpen, .inl ?_, ?_, fun _ => ?_, ?_, fun _ => hemp,
        h.running, h.faithful⟩
      · simp [Deque.Pc.runs]
      · simpa using h.taker
      · change s.current ≠ none
        simp [hreq]
      · intro req' hreq'
        cases hreq.symm.trans hreq'
        exact hserves
  | @emplaced job hc hp =>
      obtain ⟨req, hreq, -⟩ := h.current_of_callback hc (by simp)
      have hleave : Deque.step s.queue (.leave .fsmWorker) =
          some (s.queue.goto .fsmWorker .idle) := by simp [Deque.step, hp]
      have hreach := h.queue.next (a := Deque.Act.leave User.fsmWorker) hleave
      refine ⟨h.reach, hreach, h.isOpen, by simp [Callback.At], ?_, fun _ => ?_,
        fun _ _ => trivial, ?_, h.running, h.faithful⟩
      · simpa using h.taker
      · change s.current ≠ none
        simp [hreq]
      · exact fun he => h.employed (.inr (by simpa [Callback.submits] using he))
  | @completed k hc =>
      obtain ⟨req, hreq, -⟩ := h.current_of_callback hc (by simp)
      exact h.goto hreq (h.idle_of_callback hc (by simp)) (by simp) trivial
        (by simp [Callback.submits])
  | queue ha hq => exact h.queueTrans hq ha
  | @take q hw hq =>
      have hidle := h.idle_of_worker hw (by simp)
      have hreach := h.queue.next (a := Deque.Act.call User.snapshotWorker .take) hq
      obtain rfl : s.queue.goto .snapshotWorker (.lock .take) = q := by
        simpa [Deque.step, hidle] using hq
      refine ⟨h.reach, hreach, h.isOpen, ?_, .inl ?_, h.inside, h.serves, by simp,
        by simp, trivial⟩
      · simpa using h.emplacer
      · simp [Deque.Pc.runs]
  | @taken job hw hp =>
      have hleave : Deque.step s.queue (.leave .snapshotWorker) =
          some (s.queue.goto .snapshotWorker .idle) := by simp [Deque.step, hp]
      have hreach := h.queue.next (a := Deque.Act.leave User.snapshotWorker) hleave
      refine ⟨h.reach, hreach, h.isOpen, ?_, by simp [Worker.At], h.inside, h.serves,
        by simp, by simp, trivial⟩
      simpa using h.emplacer
  | stop hw hp => exact absurd hp (h.not_queueClosed hw)
  | @answer job written success f hw hs =>
      have hidle := h.idle_of_worker hw (by simp)
      exact ((h.complete hs).work (w := .completing job) hidle (by simp) (by simp) (by simp)
        trivial).congr rfl rfl rfl rfl
  | @back job hw | @opened job hw | @notOpened job hw | @func job rc hw =>
      have hidle := h.idle_of_worker hw (by simp)
      exact h.work hidle (by simp) (by simp) (by simp) (by simp [Worker.Faithful, Written.ok])
  | @fclose job rc rc' success hw =>
      have hidle := h.idle_of_worker hw (by simp)
      have hsucc : success = (rc = 0 : Bool) := by
        have hf := h.faithful
        rwa [hw] at hf
      refine h.work hidle (by simp) (by simp) (by simp) ?_
      change (if rc' ≠ 0 then false else success) = Written.ok (.closed rc rc')
      by_cases hz : rc' = 0 <;> simp [Written.ok, hz, hsucc]
  | @completeDeferred k success f hk hs => exact (h.complete hs).congr rfl rfl rfl rfl

theorem wiring_of_reachable (h : (system client fsm).Reachable s) : Wiring client fsm s :=
  Scheduled.Reach.invariant (I := Wiring client fsm) h (wiring_initial client fsm)
    fun _ _ _ _ hw hstep _ => hw.trans (trans_of_step hstep)

end Wiring

section Locks

/-- The threads which lock slots. -/
inductive Thread
  | fsmWorker
  | snapshotWorker
  /-- the thread to which the completion was left -/
  | client
  /-- the Raft-side thread which waits for the slot -/
  | raft
  deriving DecidableEq, Repr

/-- The thread which is inside `raft_fsm_snapshot_complete` for slot `k`. -/
def State.completer (s : State S ι) (k : ℕ) : Thread :=
  if s.callback = .completing k then .fsmWorker
  else match s.worker with
    | .completing job => if job.slot = k then .snapshotWorker else .client
    | _ => .client

/-- The thread which holds the mutex of slot `k`. -/
def State.holder (s : State S ι) (k : ℕ) : Option Thread :=
  (s.fsm.slots k).base.owned.map fun
    | .worker => .fsmWorker
    | .raft => .raft
    | .completer => s.completer k

/-- The thread is in front of an acquisition of the mutex of slot `k`. -/
inductive State.Locks (s : State S ι) (k : ℕ) : Thread → Prop
  | worker {tag} (h : s.fsm.worker = .lock tag k) : s.Locks k .fsmWorker
  | complete {b} (h : (s.fsm.slots k).completion = .lock b) : s.Locks k (s.completer k)
  | wait {pc} (h : (s.fsm.slots k).wait = some pc) (hpc : pc = .lock ∨ pc = .blocked) :
      s.Locks k .raft

variable {client : Fsm.Client S} {fsm : S} {s : State S ι}

omit [DecidableEq ι] in
theorem completer_ne_raft (k : ℕ) : s.completer k ≠ .raft := by
  unfold State.completer
  repeat' split
  all_goals simp

/-- The FSM worker completes a request only inside its callback. -/
theorem Wiring.running_of_completer (h : Wiring client fsm s) {k : ℕ}
    (hk : s.completer k = .fsmWorker) :
    ∃ j path req, s.fsm.worker = .running j (.beginSnapshot path req) := by
  have hcb : s.callback = .completing k := by
    unfold State.completer at hk
    split at hk
    · assumption
    · split at hk
      · split at hk <;> cases hk
      · cases hk
  obtain ⟨req, hcur, -⟩ := h.current_of_callback hcb (by simp)
  unfold State.current at hcur
  split at hcur
  case h_1 j path req' hw => exact ⟨j, path, req', hw⟩
  case h_2 => cases hcur

/-- Nobody locks a slot which it has already locked. -/
theorem Wiring.holder_ne (h : Wiring client fsm s) {k : ℕ} {th : Thread} (hl : s.Locks k th) :
    s.holder k ≠ some th := by
  intro hh
  obtain ⟨a, ha, hth⟩ := Option.map_eq_some_iff.mp hh
  have hmay := Fsm.held_of_reachable h.reach k a ha
  cases hl with
  | worker hw =>
      cases a with
      | worker => simp [Fsm.State.MayHold, hw, Fsm.Worker.mayHold] at hmay
      | raft => cases hth
      | completer =>
          obtain ⟨j, path, req, hrun⟩ := h.running_of_completer hth
          simp [hw] at hrun
  | complete hc =>
      cases a with
      | worker =>
          obtain ⟨j, path, req, hrun⟩ := h.running_of_completer hth.symm
          simp [Fsm.State.MayHold, hrun, Fsm.Worker.mayHold] at hmay
      | raft => exact completer_ne_raft k hth.symm
      | completer => simp [Fsm.State.MayHold, hc, Fsm.Completion.holds] at hmay
  | @wait pc hw hpc =>
      cases a with
      | worker => cases hth
      | raft =>
          obtain ⟨q, hq, hholds⟩ := hmay
          cases hw.symm.trans hq
          rcases hpc with rfl | rfl <;> cases hholds
      | completer => exact completer_ne_raft k hth

end Locks

end Libraft.Snapshot
