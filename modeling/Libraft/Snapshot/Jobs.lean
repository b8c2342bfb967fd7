import Libraft.Snapshot.Answers

/-!
# Where the snapshot jobs are

A job is created by `raft_fsm_take_snapshot` and ends with the call of the
client's function. If the sink cannot be opened the function is never called,
and nobody looks at the handle of the job again.
-/

namespace Libraft.Snapshot

open Libraft.Foundation Libraft.Calls
open Libraft.Queue

variable {S ι : Type*}

/-- The job which the callback has not yet submitted. -/
def Callback.jobs (p : Deque.Pc SnapshotJob) : Callback → List SnapshotJob
  | .join job | .emplace job => [job]
  | .emplacing job => if p = .done .returned then [] else [job]
  | .entry | .completing _ | .returning | .aborted => []

/-- The job whose function the snapshot worker is going to call. -/
def Worker.jobs (p : Deque.Pc SnapshotJob) : Worker → List SnapshotJob
  | .take => removedJob p
  | .fopen job | .func job => [job]
  | .absent | .loop | .fclose _ _ _ | .complete _ _ _ | .completing _ | .stopped => []

/-- The job whose function is not called, since its sink could not be opened. -/
def Worker.abandoned : Worker → List SnapshotJob
  | .complete job .notOpened _ => [job]
  | _ => []

/-- A job which was answered without a call of its function. -/
def uncalled : SnapshotJob × Written → Option SnapshotJob
  | (job, .notOpened) => some job
  | (_, .closed _ _) => none

/-- The jobs whose function is going to be called. -/
def State.pending (s : State S ι) : List SnapshotJob :=
  s.callback.jobs (s.queue.pc .fsmWorker) ++ s.queue.deque ++
    s.worker.jobs (s.queue.pc .snapshotWorker)

/-- The jobs whose function is never called. -/
def State.abandoned (s : State S ι) : List SnapshotJob :=
  s.worker.abandoned ++ s.answered.filterMap uncalled

/-- The jobs whose function has not been called. -/
def State.jobs (s : State S ι) : List SnapshotJob := s.pending ++ s.abandoned

/-- What a step does to the jobs. -/
inductive JobStep (s : State S ι) (a : Act ι) (s' : State S ι) : Prop
  | keep (hj : s'.jobs.Perm s.jobs) (hplan : ∀ h f, h ≠ 0 → f ≠ 0 → a ≠ .plan (.take h f))
      (hfunc : ∀ rc, a ≠ .func rc)
  | submit (req : ℕ) (h f : UInt64) (ha : a = .plan (.take h f)) (hcur : s.current = some req)
      (hh : h ≠ 0) (hf : f ≠ 0) (hj : s'.jobs.Perm (⟨req, h, f⟩ :: s.jobs))
  | call (job : SnapshotJob) (rc : Int32) (ha : a = .func rc) (hw : s.worker = .func job)
      (hj : s.jobs.Perm (job :: s'.jobs))

section JobStep
variable {s s' : State S ι} {a : Act ι}

/-- The parts which the jobs are counted from. -/
theorem jobs_congr (hc : s'.callback.jobs (s'.queue.pc .fsmWorker) =
      s.callback.jobs (s.queue.pc .fsmWorker))
    (hd : s'.queue.deque = s.queue.deque)
    (hw : s'.worker.jobs (s'.queue.pc .snapshotWorker) =
      s.worker.jobs (s.queue.pc .snapshotWorker))
    (hab : s'.abandoned = s.abandoned) : s'.jobs = s.jobs := by
  simp only [State.jobs, State.pending, hc, hd, hw, hab]

theorem abandoned_congr (hw : s'.worker = s.worker) (ha : s'.answered = s.answered) :
    s'.abandoned = s.abandoned := by
  simp only [State.abandoned, hw, ha]

theorem Callback.jobs_move (c : Callback) {p p' : Deque.Pc SnapshotJob}
    (hp : p' = p ∨ ∃ op, p.runs op ∧ p'.runs op) : c.jobs p' = c.jobs p := by
  have hiff : p' = .done .returned ↔ p = .done .returned := by
    rcases hp with rfl | ⟨op, hr, hr'⟩
    · rfl
    · have hne {p : Deque.Pc SnapshotJob} (hr : p.runs op) : p ≠ .done .returned := by
        rintro rfl
        exact hr
      simp [hne hr, hne hr']
  cases c with
  | emplacing job => simp only [Callback.jobs, hiff]
  | _ => rfl

theorem Worker.jobs_move (w : Worker) {p p' : Deque.Pc SnapshotJob}
    (hp : p' = p ∨ ∃ op, p.runs op ∧ p'.runs op) : w.jobs p' = w.jobs p := by
  cases w with
  | take => exact removedJob_move hp
  | _ => rfl

/-- A step of the FSM system starts or ends a callback without a job. -/
theorem jobs_of_turn (ht : Turn s s') (hq : s'.queue = s.queue) (hw : s'.worker = s.worker)
    (ha : s'.answered = s.answered) : s'.jobs = s.jobs := by
  refine jobs_congr ?_ (by rw [hq]) (by rw [hw, hq]) (abandoned_congr hw ha)
  rw [hq]
  cases ht with
  | same hcur hcb hbeg => rw [hcb]
  | enter req hnone hcur hentry hcb hbeg => rw [hcb, hentry]
  | leave hret hcur hcb hbeg => rw [hcb, hret]; rfl

/-- A step inside `snapshot_queue` moves a job from one place to the next. -/
theorem jobs_of_queueStep {q : Deque.State SnapshotJob User} (hq : QueueStep s q) :
    ({ s with queue := q } : State S ι).jobs.Perm s.jobs := by
  cases hq with
  | quiet hd ha hv hpc =>
      have hsame : ({ s with queue := q } : State S ι).jobs = s.jobs :=
        jobs_congr (s.callback.jobs_move (hpc _)) hd (s.worker.jobs_move (hpc _)) rfl
      rw [hsame]
  | stored job hc hr hd ha hv hpc =>
      have hne : s.queue.pc .fsmWorker ≠ .done .returned := by
        intro hd
        simp [hd, Deque.Pc.runs] at hr
      refine List.perm_iff_count.mpr fun j => ?_
      have hreturned : q.pc .fsmWorker = .done .returned := by simp [hpc]
      have hother : q.pc .snapshotWorker = s.queue.pc .snapshotWorker := by simp [hpc]
      simp only [State.jobs, State.pending, State.abandoned, hd, hc, Callback.jobs, hreturned,
        hother, hne, if_false, if_true, List.count_append, List.nil_append]
      omega
  | removed job hw hr hd ha hv hpc =>
      have hsome : removedJob (q.pc .snapshotWorker) = [job] := by simp [hpc, removedJob]
      have hother : q.pc .fsmWorker = s.queue.pc .fsmWorker := by simp [hpc]
      refine List.perm_iff_count.mpr fun j => ?_
      simp only [State.jobs, State.pending, State.abandoned, hd, hw, Worker.jobs,
        removedJob_of_runs hr, hsome, hother, List.count_append, List.count_cons, List.count_nil]
      omega

variable [DecidableEq ι] {client : Fsm.Client S} {fsm : S}

/-- Everything one step can do to the jobs. -/
theorem jobStep_of_trans (hw : Wiring client fsm s) (ht : Trans client s a s') :
    JobStep s a s' := by
  have hsame (hj : s'.jobs = s.jobs) (hplan : ∀ h f, h ≠ 0 → f ≠ 0 → a ≠ .plan (.take h f))
      (hfunc : ∀ rc, a ≠ .func rc) : JobStep s a s' :=
    .keep (hj ▸ .refl _) hplan hfunc
  cases ht with
  | fsm ha hs => exact hsame (jobs_of_turn (hw.turn ha hs) rfl rfl rfl) (by simp) (by simp)
  | @planTake req h f hb hc =>
      by_cases hz : h = 0 ∨ f = 0
      · refine hsame ?_ (fun h' f' hh hf heq => ?_) (by simp)
        · refine jobs_congr ?_ rfl rfl rfl
          simp [raftFsmTakeSnapshot, hz, hc, Callback.jobs]
        · cases heq
          exact hz.elim hh hf
      · rw [not_or] at hz
        refine .submit req h f rfl hb hz.1 hz.2 ?_
        simp [State.jobs, State.pending, State.abandoned, raftFsmTakeSnapshot, hz, hc,
          Callback.jobs]
  | planComplete hb hc hs | planDefer hb hc =>
      exact hsame (jobs_congr (by simp [hc, Callback.jobs]) rfl rfl rfl) (by simp) (by simp)
  | @join job hc =>
      refine hsame (jobs_congr (by simp [hc, Callback.jobs]) rfl ?_ ?_) (by simp) (by simp)
      · by_cases hwk : s.worker = .absent <;> simp [hwk, Worker.jobs]
      · by_cases hwk : s.worker = .absent <;> simp [hwk, State.abandoned, Worker.abandoned]
  | @emplace job q hc hq =>
      have hidle := hw.idle_of_callback hc (by simp)
      obtain rfl : s.queue.goto .fsmWorker (.lock (.emplace job)) = q := by
        simpa [Deque.step, hidle] using hq
      exact hsame (jobs_congr (by simp [hc, Callback.jobs]) rfl (by simp) rfl) (by simp) (by simp)
  | @emplaced job hc hp =>
      exact hsame (jobs_congr (by simp [hc, hp, Callback.jobs]) rfl (by simp) rfl) (by simp)
        (by simp)
  | completed hc =>
      exact hsame (jobs_congr (by simp [hc, Callback.jobs]) rfl rfl rfl) (by simp) (by simp)
  | queue ha hq =>
      exact .keep (jobs_of_queueStep (hw.queueStep hq ha).1) (by simp) (by simp)
  | @take q hwk hq =>
      have hidle := hw.idle_of_worker hwk (by simp)
      obtain rfl : s.queue.goto .snapshotWorker (.lock .take) = q := by
        simpa [Deque.step, hidle] using hq
      exact hsame (jobs_congr (by simp) rfl (by simp [hwk, Worker.jobs, removedJob])
        (by simp [State.abandoned, hwk, Worker.abandoned])) (by simp) (by simp)
  | @taken job hwk hp =>
      exact hsame (jobs_congr (by simp) rfl (by simp [hwk, hp, Worker.jobs, removedJob])
        (by simp [State.abandoned, hwk, Worker.abandoned])) (by simp) (by simp)
  | stop hwk hp => exact absurd hp (hw.not_queueClosed hwk)
  | @answer job written success f hwk hs =>
      have hab : ({ s with
          fsm := f, called := s.called ++ [job.slot], worker := .completing job
          answered := s.answered ++ [(job, written)] } : State S ι).abandoned.Perm
            s.abandoned := by
        cases written with
        | notOpened => simp [State.abandoned, hwk, Worker.abandoned, uncalled]
        | closed rc rc' =>
            simp [State.abandoned, hwk, Worker.abandoned, List.filterMap_cons, uncalled]
      refine .keep (.append ?_ hab) (by simp) (by simp)
      simp [State.pending, hwk, Worker.jobs]
  | back hwk | opened hwk | fclose hwk =>
      exact hsame (jobs_congr rfl rfl (by simp [hwk, Worker.jobs])
        (by simp [State.abandoned, hwk, Worker.abandoned])) (by simp) (by simp)
  | notOpened hwk =>
      refine .keep (.of_eq ?_) (by simp) (by simp)
      simp [State.jobs, State.pending, State.abandoned, hwk, Worker.jobs, Worker.abandoned]
  | @func job rc hwk =>
      refine .call job rc rfl hwk (List.perm_iff_count.mpr fun j => ?_)
      simp only [State.jobs, State.pending, State.abandoned, hwk, Worker.jobs, Worker.abandoned,
        List.count_append, List.count_cons, List.count_nil, List.nil_append]
      omega
  | completeDeferred hk hs => exact hsame (jobs_congr rfl rfl rfl rfl) (by simp) (by simp)

/-- No invocation is forgotten. -/
theorem invoked_subset_of_trans (ht : Trans client s a s') :
    s.fsm.invoked ⊆ s'.fsm.invoked := by
  have hstep {b : Fsm.Act ι} {f : Fsm.State S ι} (hs : Fsm.step client s.fsm b = some f) :
      s.fsm.invoked ⊆ f.invoked := by
    by_cases hb : ∃ w, b = .worker w
    · obtain ⟨w, rfl⟩ := hb
      rcases Fsm.invoked_of_workerStep hs with ⟨k, cb, -, -, hinv, -⟩ | ⟨hinv, -⟩
      · exact hinv ▸ List.subset_append_left _ _
      · exact hinv ▸ List.Subset.refl _
    · exact (Fsm.worker_of_step hs (not_exists.mp hb)).1 ▸ List.Subset.refl _
  cases ht with
  | fsm ha hs | planComplete hb hc hs | answer hw hs | completeDeferred hk hs => exact hstep hs
  | _ => exact List.Subset.refl _

end JobStep

end Libraft.Snapshot
