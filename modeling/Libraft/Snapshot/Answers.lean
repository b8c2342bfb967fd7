import Libraft.Snapshot.Wiring

/-!
# Snapshot requests are answered once and truthfully

Every request handed to the client is in one place: with the callback, in
`snapshot_queue`, with the snapshot worker, with another thread of the client,
or its completion has been called. Everything else follows from this account:
a request is completed once, jobs are run in the order of their submission, and
each one ends with the answer which its sink has earned.
-/

namespace Libraft.Snapshot

open Libraft.Foundation Libraft.Calls
open Libraft.Queue

variable {S ι : Type*}

/-- The callback for `req`, whose thread stands at `p` in the queue, still has to
do something with its request. -/
def Callback.owes (p : Deque.Pc SnapshotJob) (req : ℕ) : Callback → List ℕ
  | .entry | .join _ | .emplace _ | .aborted => [req]
  | .emplacing _ => if p = .done .returned then [] else [req]
  | .completing _ | .returning => []

/-- The job which `take` has removed. -/
def removedJob : Deque.Pc SnapshotJob → List SnapshotJob
  | .done (.value job) => [job]
  | _ => []

/-- The request which the snapshot worker has to complete. -/
def Worker.owes (p : Deque.Pc SnapshotJob) : Worker → List ℕ
  | .take => (removedJob p).map SnapshotJob.slot
  | .fopen job | .func job | .fclose job _ _ | .complete job _ _ => [job.slot]
  | .absent | .loop | .completing _ | .stopped => []

def State.callbackOwes (s : State S ι) : List ℕ :=
  match s.current with
  | some req => s.callback.owes (s.queue.pc .fsmWorker) req
  | none => []

def State.workerOwes (s : State S ι) : List ℕ := s.worker.owes (s.queue.pc .snapshotWorker)

/-- The requests which somebody still has to complete. -/
def State.owing (s : State S ι) : List ℕ :=
  s.callbackOwes ++ s.queue.deque.map SnapshotJob.slot ++ s.workerOwes ++ s.deferred

/-- The job which the snapshot worker is running and has not completed. -/
def Worker.hand : Worker → List SnapshotJob
  | .fopen job | .func job | .fclose job _ _ | .complete job _ _ => [job]
  | .absent | .loop | .take | .completing _ | .stopped => []

/-- The account of the requests and of the jobs. -/
structure Ledger (s : State S ι) : Prop where
  balanced : ∀ k, (s.owing ++ s.called).count k = s.fsm.begun.count k
  submitted : ∀ k, (s.callbackOwes ++ s.queue.accepted.map SnapshotJob.slot).count k ≤
    s.fsm.begun.count k
  called : ∀ k, k ∈ s.called ↔ (s.fsm.slots k).completion ≠ .idle
  ordered : s.started ++ removedJob (s.queue.pc .snapshotWorker) = s.queue.delivered
  handled : s.answered.map Prod.fst ++ s.worker.hand = s.started
  truthful : ∀ p ∈ s.answered, (s.fsm.slots p.1.slot).Completing p.2.ok

theorem ledger_initial (fsm : S) : Ledger (initial fsm : State S ι) where
  balanced := by
    intro k
    rfl
  submitted := fun k => le_rfl
  called := by simp [initial, Fsm.initial, Fsm.Slot.new]
  ordered := rfl
  handled := rfl
  truthful := by simp [initial]

section Ledger
variable [DecidableEq ι] {client : Fsm.Client S} {fsm : S} {s s' : State S ι} {a : Act ι}

omit [DecidableEq ι] in
/-- A step which completes nothing. -/
theorem Ledger.move (h : Ledger s) (hf : s'.fsm = s.fsm) (hc : s'.called = s.called)
    (ha : s'.answered = s.answered) (howing : ∀ k, s'.owing.count k = s.owing.count k)
    (hsub : ∀ k, (s'.callbackOwes ++ s'.queue.accepted.map SnapshotJob.slot).count k ≤
      (s.callbackOwes ++ s.queue.accepted.map SnapshotJob.slot).count k)
    (hord : s'.started ++ removedJob (s'.queue.pc .snapshotWorker) = s'.queue.delivered)
    (hhand : s.answered.map Prod.fst ++ s'.worker.hand = s'.started) : Ledger s' where
  balanced := by
    intro k
    rw [hf, hc, ← h.balanced k, List.count_append, List.count_append, howing]
  submitted := by
    intro k
    rw [hf]
    exact (hsub k).trans (h.submitted k)
  called := by
    rw [hf, hc]
    exact h.called
  ordered := hord
  handled := by rw [ha, hhand]
  truthful := by
    rw [hf, ha]
    exact h.truthful

omit [DecidableEq ι] in
/-- A step after which everyone owes what they owed before. -/
theorem Ledger.keep (h : Ledger s) (hf : s'.fsm = s.fsm) (hc : s'.called = s.called)
    (ha : s'.answered = s.answered) (hcb : s'.callbackOwes = s.callbackOwes)
    (hwo : s'.workerOwes = s.workerOwes) (hd : s'.deferred = s.deferred)
    (hqd : s'.queue.deque = s.queue.deque) (hqa : s'.queue.accepted = s.queue.accepted)
    (hord : s'.started ++ removedJob (s'.queue.pc .snapshotWorker) = s'.queue.delivered)
    (hhand : s.answered.map Prod.fst ++ s'.worker.hand = s'.started) : Ledger s' := by
  refine h.move hf hc ha (fun k => ?_) (fun k => ?_) hord hhand
  · rw [State.owing, State.owing, hcb, hwo, hd, hqd]
  · rw [hcb, hqa]

omit [DecidableEq ι] in
theorem callbackOwes_congr (hcur : s'.current = s.current) (hc : s'.callback = s.callback)
    (hp : s'.queue.pc .fsmWorker = s.queue.pc .fsmWorker) :
    s'.callbackOwes = s.callbackOwes := by
  rw [State.callbackOwes, State.callbackOwes, hcur, hc, hp]

/-- Somebody who owes the completion of `k` calls it. -/
theorem Ledger.complete (h : Ledger s) (hw : Wiring client fsm s) {k : ℕ} {success : Bool}
    {f : Fsm.State S ι} (hs : Fsm.step client s.fsm (.complete k success) = some f)
    (hf : s'.fsm = f) (hc : s'.called = s.called ++ [k])
    (howing : ∀ j, s'.owing.count j + [k].count j = s.owing.count j)
    (hsub : ∀ j, s'.callbackOwes.count j ≤ s.callbackOwes.count j)
    (hq : s'.queue = s.queue) (hst : s'.started = s.started)
    (hhand : s'.answered.map Prod.fst ++ s'.worker.hand = s.started)
    (hans : ∀ p ∈ s'.answered, p ∈ s.answered ∨ p.1.slot = k ∧ success = p.2.ok) :
    Ledger s' := by
  have hbeg := (current_of_complete (s := s) hs).2
  have hbal (j : ℕ) : s'.owing.count j + s.called.count j + [k].count j = s.fsm.begun.count j := by
    have hold := h.balanced j
    rw [List.count_append, ← howing j] at hold
    omega
  have hk : k ∈ s.fsm.begun := by
    have hcount := hbal k
    rw [List.count_singleton_self] at hcount
    exact List.count_pos_iff.mp (by omega)
  obtain ⟨hidle, hslots⟩ := Fsm.slots_of_complete hs
  refine ⟨fun j => ?_, fun j => ?_, fun j => ?_, ?_, ?_, fun p hp => ?_⟩
  · rw [hf, hc, hbeg, ← hbal j]
    simp only [List.count_append]
    omega
  · rw [hf, hbeg, hq, List.count_append]
    have hold := h.submitted j
    rw [List.count_append] at hold
    exact (Nat.add_le_add_right (hsub j) _).trans hold
  · rw [hf, hc, hslots]
    by_cases hj : j = k
    · subst hj
      simp
    · simpa [hj] using h.called j
  · rw [hst, hq]
    exact h.ordered
  · rw [hst, hhand]
  · rw [hf]
    rcases hans p hp with hold | ⟨rfl, rfl⟩
    · exact (h.truthful p hold).next hw.reach hs
    · exact Fsm.completing_of_complete hw.reach hs hk

omit [DecidableEq ι] in
/-- What the callback owes while it is running. -/
theorem callbackOwes_of_current {req : ℕ} (hcur : s.current = some req) :
    s.callbackOwes = s.callback.owes (s.queue.pc .fsmWorker) req := by
  simp [State.callbackOwes, hcur]

/-- A step of the FSM system which is not the call of a completion. -/
theorem Ledger.fsmStep (h : Ledger s) (hw : Wiring client fsm s) {a : Fsm.Act ι}
    {f : Fsm.State S ι} (ha : s.allows a = true) (hs : Fsm.step client s.fsm a = some f) :
    Ledger { s with fsm := f, callback := s.callbackAfter a } := by
  have hcalled (k : ℕ) : k ∈ s.called ↔ (f.slots k).completion ≠ .idle := by
    rw [h.called k, not_iff_not]
    exact (Fsm.idle_of_step hw.reach hs (by rintro b rfl; cases ha)).symm
  have htruth (p : SnapshotJob × Written) (hp : p ∈ s.answered) :
      (f.slots p.1.slot).Completing p.2.ok :=
    (h.truthful p hp).next hw.reach hs
  have hsame {c : Callback} (hbeg : f.begun = s.fsm.begun)
      (howes : ({ s with fsm := f, callback := c } : State S ι).callbackOwes = s.callbackOwes) :
      Ledger { s with fsm := f, callback := c } := by
    refine ⟨fun k => ?_, fun k => ?_, hcalled, h.ordered, h.handled, htruth⟩
    · rw [hbeg, ← h.balanced k, State.owing, howes]
      rfl
    · rw [hbeg, howes]
      exact h.submitted k
  cases hw.turn ha hs with
  | same hcur hcb hbeg =>
      refine hsame hbeg ?_
      unfold State.callbackOwes
      rw [hcur, hcb]
  | enter req hnone hcur hentry hcb hbeg =>
      have hold : s.callbackOwes = [] := by simp [State.callbackOwes, hnone]
      have hnew : ({ s with fsm := f, callback := s.callbackAfter a } : State S ι).callbackOwes =
          [req] := by
        rw [callbackOwes_of_current hcur, hcb]
        rfl
      have hbeg' : f.begun = s.fsm.begun ++ [req] := hbeg
      refine ⟨fun k => ?_, fun k => ?_, hcalled, h.ordered, h.handled, htruth⟩
      · have hk := h.balanced k
        simp only [State.owing, State.workerOwes, hold, List.nil_append, List.count_append] at hk
        simp only [State.owing, State.workerOwes, hnew, hbeg', List.count_append]
        omega
      · have hk := h.submitted k
        simp only [hold, List.nil_append] at hk
        simp only [hnew, hbeg', List.count_append]
        omega
  | leave hret hcur hcb hbeg =>
      refine hsame hbeg ?_
      obtain ⟨req, hreq, -⟩ := hw.current_of_callback hret (by simp)
      rw [callbackOwes_of_current hreq, hret]
      simp [State.callbackOwes, hcur, Callback.owes]

omit [DecidableEq ι] in
/-- The callback moves on and keeps its request. -/
theorem Ledger.callbackStep (h : Ledger s) {req : ℕ} (hcur : s.current = some req)
    {c : Callback} (howes : c.owes (s.queue.pc .fsmWorker) req =
      s.callback.owes (s.queue.pc .fsmWorker) req) : Ledger { s with callback := c } := by
  refine h.keep rfl rfl rfl ?_ rfl rfl rfl rfl h.ordered h.handled
  rw [callbackOwes_of_current hcur, ← howes]
  exact callbackOwes_of_current hcur

omit [DecidableEq ι] in
/-- The snapshot worker moves on and keeps its job. -/
theorem Ledger.workerStep (h : Ledger s) {w : Worker}
    (howes : w.owes (s.queue.pc .snapshotWorker) = s.worker.owes (s.queue.pc .snapshotWorker))
    (hhand : w.hand = s.worker.hand) : Ledger { s with worker := w } := by
  refine h.keep rfl rfl rfl rfl howes rfl rfl rfl h.ordered ?_
  rw [hhand]
  exact h.handled

omit [DecidableEq ι] in
theorem Callback.owes_move (c : Callback) {p p' : Deque.Pc SnapshotJob}
    (hp : p' = p ∨ ∃ op, p.runs op ∧ p'.runs op) (req : ℕ) : c.owes p' req = c.owes p req := by
  rcases hp with rfl | ⟨op, hr, hr'⟩
  · rfl
  · have hne {p : Deque.Pc SnapshotJob} (hr : p.runs op) : p ≠ .done .returned := by
      rintro rfl
      exact hr
    unfold Callback.owes
    rw [if_neg (hne hr), if_neg (hne hr')]

omit [DecidableEq ι] in
theorem removedJob_of_runs {p : Deque.Pc SnapshotJob} {op : Deque.Op SnapshotJob}
    (hr : p.runs op) : removedJob p = [] := by
  unfold removedJob
  split
  case h_1 => exact hr.elim
  case h_2 => rfl

omit [DecidableEq ι] in
theorem removedJob_move {p p' : Deque.Pc SnapshotJob}
    (hp : p' = p ∨ ∃ op, p.runs op ∧ p'.runs op) : removedJob p' = removedJob p := by
  rcases hp with rfl | ⟨op, hr, hr'⟩
  · rfl
  · rw [removedJob_of_runs hr, removedJob_of_runs hr']

/-- A step inside `snapshot_queue`. -/
theorem Ledger.queueStep (h : Ledger s) (hw : Wiring client fsm s)
    {q : Deque.State SnapshotJob User} (hq : QueueStep s q) : Ledger { s with queue := q } := by
  cases hq with
  | quiet hd ha hv hpc =>
      have hremoved := removedJob_move (hpc .snapshotWorker)
      refine h.keep rfl rfl rfl ?_ ?_ rfl hd ha ?_ h.handled
      · have howes := s.callback.owes_move (hpc .fsmWorker)
        simp only [State.callbackOwes, howes]
        rfl
      · simp only [State.workerOwes, Worker.owes, hremoved]
      · rw [hremoved, hv]
        exact h.ordered
  | stored job hc hr hd ha hv hpc =>
      obtain ⟨req, hcur, hserves⟩ := hw.current_of_callback hc (by simp)
      have hslot : job.slot = req := hserves
      have hold : s.callbackOwes = [req] := by
        have hne : s.queue.pc .fsmWorker ≠ .done .returned := by
          intro hd
          simp [hd, Deque.Pc.runs] at hr
        rw [callbackOwes_of_current hcur, hc]
        simp [Callback.owes, hne]
      have hnew : ({ s with queue := q } : State S ι).callbackOwes = [] := by
        rw [callbackOwes_of_current (s := { s with queue := q }) hcur]
        simp [hc, hpc, Callback.owes]
      have hother : q.pc .snapshotWorker = s.queue.pc .snapshotWorker := by simp [hpc]
      refine h.move rfl rfl rfl (fun k => ?_) (fun k => ?_) ?_ h.handled
      · simp only [State.owing, State.workerOwes, hold, hnew, hd, hother, List.map_append,
          List.map_cons, List.map_nil, hslot, List.count_append, List.count_nil]
        omega
      · simp only [hold, hnew, ha, List.map_append, List.map_cons, List.map_nil, hslot,
          List.count_append, List.count_nil]
        omega
      · rw [hother, hv]
        exact h.ordered
  | removed job hwk hr hd ha hv hpc =>
      have hnone := removedJob_of_runs hr
      have hsome : removedJob (q.pc .snapshotWorker) = [job] := by simp [hpc, removedJob]
      have hsame : ({ s with queue := q } : State S ι).callbackOwes = s.callbackOwes :=
        callbackOwes_congr rfl rfl (by simp [hpc])
      refine h.move rfl rfl rfl (fun k => ?_) (fun k => ?_) ?_ h.handled
      · have hold : s.workerOwes = [] := by simp [State.workerOwes, hwk, Worker.owes, hnone]
        have hnew : ({ s with queue := q } : State S ι).workerOwes = [job.slot] := by
          simp [State.workerOwes, hwk, Worker.owes, hsome]
        simp only [State.owing, hsame, hold, hnew, hd, List.map_cons, List.count_append,
          List.count_cons, List.count_nil]
        omega
      · rw [hsame, ha]
      · have hord := h.ordered
        rw [hnone, List.append_nil] at hord
        rw [hsome, hv, hord]

omit [DecidableEq ι] in
theorem callbackOwes_of_entry {req : ℕ} (hcur : s.current = some req)
    (hc : s.callback = .entry) : s.callbackOwes = [req] := by
  rw [callbackOwes_of_current hcur, hc]
  rfl

/-- `begin_snapshot` completes its request itself. -/
theorem Ledger.planComplete (h : Ledger s) (hw : Wiring client fsm s) {req : ℕ} {success : Bool}
    {f : Fsm.State S ι} (hb : s.current = some req) (hc : s.callback = .entry)
    (hs : Fsm.step client s.fsm (.complete req success) = some f) :
    Ledger
      { s with fsm := f, called := s.called ++ [req], callback := .completing req } := by
  have hold := callbackOwes_of_entry hb hc
  have hcur := (current_of_complete hs).1.trans hb
  have hnew : ({ s with
      fsm := f, called := s.called ++ [req], callback := .completing req } :
        State S ι).callbackOwes = [] := callbackOwes_of_current hcur
  refine h.complete hw hs rfl rfl (fun j => ?_) (fun j => ?_) rfl rfl h.handled
    fun p hp => .inl hp
  · simp only [State.owing, State.workerOwes, hold, hnew, List.count_append, List.count_nil]
    omega
  · rw [hnew]
    exact Nat.zero_le _

/-- The snapshot worker completes the request of its job. -/
theorem Ledger.answer (h : Ledger s) (hw : Wiring client fsm s) {job : SnapshotJob}
    {written : Written} {success : Bool} {f : Fsm.State S ι}
    (hwk : s.worker = .complete job written success)
    (hs : Fsm.step client s.fsm (.complete job.slot success) = some f) :
    Ledger
      { s with
        fsm := f, called := s.called ++ [job.slot], worker := .completing job
        answered := s.answered ++ [(job, written)] } := by
  have hok : success = written.ok := by
    have hf := hw.faithful
    rwa [hwk] at hf
  have hold : s.workerOwes = [job.slot] := by rw [State.workerOwes, hwk]; rfl
  have hcur := (current_of_complete hs).1
  have hcb : ({ s with
      fsm := f, called := s.called ++ [job.slot], worker := .completing job
      answered := s.answered ++ [(job, written)] } : State S ι).callbackOwes =
        s.callbackOwes := callbackOwes_congr hcur rfl rfl
  have hhand := h.handled
  rw [hwk] at hhand
  refine h.complete hw hs rfl rfl (fun j => ?_) (fun j => ?_) rfl rfl ?_ ?_
  · simp only [State.owing, hcb, hold, List.count_append]
    simp [State.workerOwes, Worker.owes]
    omega
  · rw [hcb]
  · rw [← hhand]
    simp [Worker.hand]
  · intro p hp
    rcases List.mem_append.mp hp with hp | hp
    · exact .inl hp
    · cases List.mem_singleton.mp hp
      exact .inr ⟨rfl, hok⟩

/-- Another thread completes a request which was left to it. -/
theorem Ledger.completeDeferred (h : Ledger s) (hw : Wiring client fsm s) {k : ℕ}
    {success : Bool} {f : Fsm.State S ι} (hk : k ∈ s.deferred)
    (hs : Fsm.step client s.fsm (.complete k success) = some f) :
    Ledger { s with fsm := f, called := s.called ++ [k], deferred := s.deferred.erase k } := by
  have hcb : ({ s with
      fsm := f, called := s.called ++ [k], deferred := s.deferred.erase k } :
        State S ι).callbackOwes = s.callbackOwes :=
    callbackOwes_congr (current_of_complete hs).1 rfl rfl
  refine h.complete hw hs rfl rfl (fun j => ?_) (fun j => by rw [hcb]) rfl rfl h.handled
    fun p hp => .inl hp
  have hperm := (List.perm_cons_erase hk).count_eq j
  simp only [State.owing, State.workerOwes, hcb, hperm, List.count_append, List.count_cons,
    List.count_nil]
  omega

theorem Ledger.trans (h : Ledger s) (hw : Wiring client fsm s) (ht : Trans client s a s') :
    Ledger s' := by
  cases ht with
  | fsm ha hs => exact h.fsmStep hw ha hs
  | @planTake req h' f hb hc =>
      refine h.callbackStep hb ?_
      rw [hc]
      unfold raftFsmTakeSnapshot
      split <;> rfl
  | planComplete hb hc hs => exact h.planComplete hw hb hc hs
  | @planDefer req hb hc =>
      have hold := callbackOwes_of_entry hb hc
      have hnew : ({ s with callback := .returning, deferred := s.deferred ++ [req] } :
          State S ι).callbackOwes = [] := callbackOwes_of_current hb
      refine h.move rfl rfl rfl (fun k => ?_) (fun k => ?_) h.ordered h.handled
      · simp only [State.owing, State.workerOwes, hold, hnew, List.count_append, List.count_nil]
        omega
      · rw [hnew, List.nil_append, List.count_append]
        exact Nat.le_add_left _ _
  | @join job hc =>
      obtain ⟨req, hcur, -⟩ := hw.current_of_callback hc (by simp)
      have hstart : Ledger { s with worker := if s.worker = .absent then .loop else s.worker } := by
        split
        · rename_i hwk
          exact h.workerStep (by rw [hwk]; rfl) (by rw [hwk]; rfl)
        · exact h
      exact hstart.callbackStep hcur (by rw [hc]; rfl)
  | @emplace job q hc hq =>
      obtain ⟨req, hcur, -⟩ := hw.current_of_callback hc (by simp)
      have hidle := hw.idle_of_callback hc (by simp)
      obtain rfl : s.queue.goto .fsmWorker (.lock (.emplace job)) = q := by
        simpa [Deque.step, hidle] using hq
      refine h.keep rfl rfl rfl ?_ (by simp [State.workerOwes]) rfl rfl rfl ?_ h.handled
      · rw [callbackOwes_of_current hcur, hc]
        rw [callbackOwes_of_current (s := { s with
          queue := s.queue.goto .fsmWorker (.lock (.emplace job))
          callback := .emplacing job }) hcur]
        simp [Callback.owes]
      · simpa using h.ordered
  | @emplaced job hc hp =>
      obtain ⟨req, hcur, -⟩ := hw.current_of_callback hc (by simp)
      refine h.keep rfl rfl rfl ?_ (by simp [State.workerOwes]) rfl rfl rfl ?_ h.handled
      · rw [callbackOwes_of_current hcur, hc, hp]
        rw [callbackOwes_of_current (s := { s with
          queue := s.queue.goto .fsmWorker .idle, callback := .returning }) hcur]
        simp [Callback.owes]
      · simpa using h.ordered
  | @completed k hc =>
      obtain ⟨req, hcur, -⟩ := hw.current_of_callback hc (by simp)
      exact h.callbackStep hcur (by rw [hc]; rfl)
  | queue ha hq => exact h.queueStep hw (hw.queueStep hq ha).1
  | @take q hwk hq =>
      have hidle := hw.idle_of_worker hwk (by simp)
      obtain rfl : s.queue.goto .snapshotWorker (.lock .take) = q := by
        simpa [Deque.step, hidle] using hq
      refine h.keep rfl rfl rfl (callbackOwes_congr rfl rfl (by simp)) ?_ rfl rfl rfl ?_ ?_
      · simp [State.workerOwes, hwk, Worker.owes, removedJob]
      · simpa [hidle, removedJob] using h.ordered
      · simpa [hwk, Worker.hand] using h.handled
  | @taken job hwk hp =>
      refine h.keep rfl rfl rfl (callbackOwes_congr rfl rfl (by simp)) ?_ rfl rfl rfl ?_ ?_
      · simp [State.workerOwes, hwk, hp, Worker.owes, removedJob]
      · simpa [hp, removedJob] using h.ordered
      · simpa [hwk, Worker.hand] using h.handled
  | stop hwk hp => exact absurd hp (hw.not_queueClosed hwk)
  | answer hwk hs => exact h.answer hw hwk hs
  | back hwk | opened hwk | notOpened hwk | func hwk | fclose hwk =>
      exact h.workerStep (by rw [hwk]; rfl) (by rw [hwk]; rfl)
  | completeDeferred hk hs => exact h.completeDeferred hw hk hs

theorem ledger_of_reachable (h : (system client fsm).Reachable s) : Ledger s :=
  Scheduled.Reach.invariant (I := Ledger) h (ledger_initial fsm)
    fun _ _ _ hs hl hstep _ => hl.trans (wiring_of_reachable hs) (trans_of_step hstep)

end Ledger

section Results
variable [DecidableEq ι] {client : Fsm.Client S} {fsm : S} {s : State S ι}

/-- No job is submitted twice. -/
theorem Ledger.nodup_accepted (h : Ledger s) (hw : Wiring client fsm s) :
    (s.queue.accepted.map SnapshotJob.slot).Nodup := by
  refine List.nodup_iff_count_le_one.mpr fun k => ?_
  have hone := List.nodup_iff_count_le_one.mp (Fsm.nodup_begun hw.reach) k
  have hsub := h.submitted k
  rw [List.count_append] at hsub
  omega

/-- A request handed to the client is owed one completion, until it is called. -/
theorem Ledger.owing_iff (h : Ledger s) (hw : Wiring client fsm s) {k : ℕ}
    (hk : k ∈ s.fsm.begun) :
    (s.owing.count k = 1 ∧ (s.fsm.slots k).completion = .idle) ∨
      (k ∉ s.owing ∧ (s.fsm.slots k).completion ≠ .idle) := by
  have hone := List.nodup_iff_count_eq_one.mp (Fsm.nodup_begun hw.reach) k hk
  have hbal := h.balanced k
  rw [List.count_append, hone] at hbal
  by_cases hc : k ∈ s.called
  · have hpos := List.count_pos_iff.mpr hc
    exact .inr ⟨List.count_eq_zero.mp (by omega), (h.called k).mp hc⟩
  · have hzero := List.count_eq_zero.mpr hc
    exact .inl ⟨by omega, not_not.mp (mt (h.called k).mpr hc)⟩

omit [DecidableEq ι] in
theorem Ledger.begun_of_owing (h : Ledger s) {k : ℕ} (hk : k ∈ s.owing) : k ∈ s.fsm.begun := by
  have hpos := List.count_pos_iff.mpr hk
  have hbal := h.balanced k
  rw [List.count_append] at hbal
  exact List.count_pos_iff.mp (by omega)

theorem Ledger.started_prefix (h : Ledger s) (hw : Wiring client fsm s) :
    s.started <+: s.queue.accepted := by
  have hcontents := Deque.delivered_append_deque hw.queue
  rw [← h.ordered, List.append_assoc] at hcontents
  exact ⟨_, hcontents⟩

omit [DecidableEq ι] in
/-- A completion which has returned has left its answer. -/
theorem answer_of_completing {slot : Fsm.Slot} {success : Bool} (h : slot.Completing success)
    (hr : slot.completion = .returned) :
    slot.base.state = (if success then .success else .error) ∧
      slot.base.error = if success then .success else .other := by
  simp only [Fsm.Slot.Completing, hr] at h
  obtain ⟨⟨hstate, hstores⟩, -⟩ := h
  have herr : slot.base.error = if success then .success else .other := by
    rcases hstores with he | ⟨hv, -⟩
    · simpa [Fsm.completionReply] using he.symm
    · cases hv
  refine ⟨?_, herr⟩
  rw [hstate, herr]
  cases success <;> rfl

/-- Every snapshot request is answered at most once, by the one who owes the
answer, and truthfully. -/
theorem snapshot_answered_once_and_truthfully (client : Fsm.Client S) (fsm : S)
    (h : (system client fsm).Reachable s) :
    -- no slot is replied to twice
    (∀ k < s.fsm.next, (∃ path, (s.fsm.slots k).request = .snapshot path) →
      (s.fsm.slots k).replies ≤ 1) ∧
    (∀ k err, (s.fsm.slots k).completion = .replying (.state err) →
      isTerminal (s.fsm.slots k).base.state = false) ∧
    -- no thread locks a mutex which it holds
    (∀ k th, s.Locks k th → s.holder k ≠ some th) ∧
    -- jobs are run in order, each at most once, and only wait for a worker which exists
    s.started <+: s.queue.accepted ∧ (s.queue.accepted.map SnapshotJob.slot).Nodup ∧
    (s.queue.deque ≠ [] → s.worker ≠ .absent ∧ s.worker ≠ .stopped) ∧
    -- the answer is the one which the sink has earned
    (∀ job written, (job, written) ∈ s.answered →
      (s.fsm.slots job.slot).completion = .returned →
      (s.fsm.slots job.slot).base.state = (if written.ok then .success else .error) ∧
      (s.fsm.slots job.slot).base.error = if written.ok then .success else .other) ∧
    -- no request is lost: one party owes its completion and may call it, or it was called
    (∀ k ∈ s.fsm.begun, (s.owing.count k = 1 ∧ (s.fsm.slots k).completion = .idle) ∨
      (k ∉ s.owing ∧ (s.fsm.slots k).completion ≠ .idle)) ∧
    ∀ k ∈ s.owing, ∀ success, (Fsm.step client s.fsm (.complete k success)).isSome := by
  have hw := wiring_of_reachable h
  have hl := ledger_of_reachable h
  refine ⟨fun k hlt hk => ?_, fun k err hk => ?_, fun k th => hw.holder_ne, hl.started_prefix hw,
    hl.nodup_accepted hw, fun hd => ⟨hw.employed (.inr hd), hw.running⟩, fun job written hp => ?_,
    fun k => hl.owing_iff hw, fun k hk success => ?_⟩
  · obtain ⟨path, hpath⟩ := hk
    rcases Fsm.snapshot_cases hw.reach hlt hpath with ⟨-, -, hr⟩ | ⟨success, hc⟩
    · omega
    · exact hc.replies_le
  · have hne : (s.fsm.slots k).completion ≠ .idle := by simp [hk]
    have ht : Fsm.Tracked client s.fsm := Fsm.tracked_of_reach hw.reach
    obtain ⟨path, hpath⟩ := ht.completion k hne
    obtain ⟨e, he, rfl⟩ := Fsm.begun_of_completion hw.reach hne
    rcases Fsm.snapshot_cases hw.reach (ht.own e he).1 hpath with ⟨hidle, -⟩ | ⟨success, hc⟩
    · exact absurd hidle hne
    · simp only [Fsm.Slot.Completing, hk] at hc
      exact hc.2.1
  · exact answer_of_completing (hl.truthful _ hp)
  · have hbegun := hl.begun_of_owing hk
    have hidle : (s.fsm.slots k).completion = .idle := by
      rcases hl.owing_iff hw hbegun with ⟨-, hidle⟩ | ⟨hno, -⟩
      · exact hidle
      · exact absurd hk hno
    rw [Fsm.complete_enabled hw.reach hbegun hidle]
    rfl

end Results

/-- A snapshot request is sent, and the FSM worker calls `begin_snapshot`. -/
def beginRun : List (Act Unit) :=
  (Fsm.sendRun (.snapshot [115]) ++ Fsm.workerRun 3).map Act.fsm

/-- `begin_snapshot` hands the request to the snapshot worker, and the FSM worker
goes on. -/
def submitRun : List (Act Unit) :=
  [Act.plan (.take 1 2), .callback, .callback] ++
    List.replicate 3 (Act.queue (.step .fsmWorker none)) ++ [Act.callback, .fsm (.worker none)]

/-- The snapshot worker runs the job with the given results and completes it. -/
def jobRun (rc closeRc : Int32) : List (Act Unit) :=
  [Act.worker] ++ List.replicate 4 (Act.queue (.step .snapshotWorker none)) ++
    [Act.worker, .fopen true, .func rc, .fclose closeRc, .worker] ++
    List.replicate 6 (Act.fsm (.completeStep 0 none)) ++ [Act.worker]

/-- The client's function succeeds and `fclose` fails. -/
theorem snapshot_answered_once_and_truthfully_fclose :
    ∃ s : State ℕ Unit, (⟨0, 1, 2⟩, .closed 0 1) ∈ s.answered ∧
      (s.fsm.slots 0).base.state = .error ∧ (s.fsm.slots 0).base.error = .other := by
  obtain ⟨s, hs, hmem, hret⟩ := Scheduled.exists_reachable_of_run (system Fsm.counter 0)
    (beginRun ++ submitRun ++ jobRun 0 1)
    (fun s => (⟨0, 1, 2⟩, .closed 0 1) ∈ s.answered ∧ (s.fsm.slots 0).completion = .returned)
    (by decide)
  obtain ⟨-, -, -, -, -, -, htrue, -, -⟩ := snapshot_answered_once_and_truthfully Fsm.counter 0 hs
  exact ⟨s, hmem, htrue _ _ hmem hret⟩

end Libraft.Snapshot
