import Libraft.Fsm.Worker
import Libraft.Queue.DequeLaws

/-!
# Snapshots

`raft_fsm_take_snapshot`, `run_snapshot_worker`, `run_snapshot_job` and
`raft_fsm_snapshot_complete` of `raft_c_if.cc`, together with the FSM worker
which calls `begin_snapshot`.

## Implementation notes

The system is the FSM worker's, with the callback `begin_snapshot` opened up:
while the FSM worker is inside it, the callback runs as a program of its own.
It hands the request to `raft_fsm_take_snapshot`, completes it itself, or
leaves that to another thread of the client. `snapshot_queue` is the unbounded
queue with its own threads, the FSM worker and the snapshot worker; nobody
closes it here, so an operation on it which throws has no continuation. The
results of `fopen`, of the client's function and of `fclose` are arbitrary.

`raft_fsm_snapshot_complete` is stepped by the slot. Calling it takes one step
of the caller, which then waits for its return.
-/

namespace Libraft.Snapshot

open Libraft.Foundation Libraft.Calls
open Libraft.Queue

structure SnapshotJob where
  slot : ℕ
  handle : UInt64
  func : UInt64
  deriving DecidableEq, Repr

/-- The threads which use `snapshot_queue`. -/
inductive User
  | fsmWorker
  | snapshotWorker
  deriving DecidableEq, Repr

/-- What `begin_snapshot` does with its request. -/
inductive Plan
  /-- calls `raft_fsm_take_snapshot` -/
  | take (handle func : UInt64)
  /-- calls `raft_fsm_snapshot_complete` -/
  | complete (success : Bool)
  /-- leaves the call of `raft_fsm_snapshot_complete` to another thread -/
  | defer
  deriving DecidableEq, Repr

/-- Where the FSM worker stands inside `begin_snapshot`. -/
inductive Callback
  | entry
  /-- before the test of `snapshot_worker.joinable()` -/
  | join (job : SnapshotJob)
  /-- before `snapshot_queue.emplace` -/
  | emplace (job : SnapshotJob)
  /-- inside `snapshot_queue.emplace` -/
  | emplacing (job : SnapshotJob)
  /-- inside `raft_fsm_snapshot_complete` -/
  | completing (k : ℕ)
  | returning
  /-- an assertion of `raft_fsm_take_snapshot` failed -/
  | aborted
  deriving DecidableEq, Repr

/-- What became of the sink of a job. -/
inductive Written
  | notOpened
  | closed (rc closeRc : Int32)
  deriving DecidableEq, Repr

/-- Where `snapshot_worker` stands. -/
inductive Worker
  /-- the thread has not been created -/
  | absent
  /-- before `snapshot_queue.take()` -/
  | loop
  /-- inside `snapshot_queue.take()` -/
  | take
  /-- before `fopen` -/
  | fopen (job : SnapshotJob)
  /-- before the call of the client's function -/
  | func (job : SnapshotJob)
  /-- before `fclose` -/
  | fclose (job : SnapshotJob) (rc : Int32) (success : Bool)
  /-- before the call of `raft_fsm_snapshot_complete` -/
  | complete (job : SnapshotJob) (written : Written) (success : Bool)
  /-- inside `raft_fsm_snapshot_complete` -/
  | completing (job : SnapshotJob)
  /-- the queue was closed -/
  | stopped
  deriving DecidableEq, Repr

/-- The state. `deferred` lists the requests whose completion was left to another
thread. The last three fields are history: the requests for which
`raft_fsm_snapshot_complete` was called, the jobs which were run, and what
became of their sinks. -/
structure State (S ι : Type*) where
  fsm : Fsm.State S ι
  callback : Callback
  queue : Deque.State SnapshotJob User
  worker : Worker
  deferred : List ℕ
  called : List ℕ
  started : List SnapshotJob
  answered : List (SnapshotJob × Written)

def initial {S ι : Type*} (fsm : S) : State S ι where
  fsm := Fsm.initial fsm
  callback := .entry
  queue := Deque.initial
  worker := .absent
  deferred := []
  called := []
  started := []
  answered := []

inductive Act (ι : Type*)
  /-- a step of the FSM worker outside `begin_snapshot`, of the Raft side, or
  inside `raft_fsm_snapshot_complete` -/
  | fsm (a : Fsm.Act ι)
  /-- `begin_snapshot` decides what to do -/
  | plan (p : Plan)
  /-- the next statement of the FSM worker inside `begin_snapshot` -/
  | callback
  /-- a step of some thread inside `snapshot_queue` -/
  | queue (a : Deque.Act SnapshotJob User)
  /-- the next statement of the snapshot worker outside its library calls -/
  | worker
  | fopen (opened : Bool)
  | func (rc : Int32)
  | fclose (rc : Int32)
  /-- another thread calls `raft_fsm_snapshot_complete` -/
  | completeDeferred (k : ℕ) (success : Bool)

section Step
variable {S ι : Type*}

/-- The request whose `begin_snapshot` is running. -/
def State.current (s : State S ι) : Option ℕ :=
  match s.fsm.worker with
  | .running _ (.beginSnapshot _ req) => some req
  | _ => none

/-- The FSM system may take the step: nobody else calls
`raft_fsm_snapshot_complete`, and `begin_snapshot` returns when it is done. -/
def State.allows (s : State S ι) : Fsm.Act ι → Bool
  | .complete _ _ => false
  | .worker _ => s.current = none || s.callback = .returning
  | _ => true

/-- The callback after a step of the FSM system: the next one starts afresh. -/
def State.callbackAfter (s : State S ι) : Fsm.Act ι → Callback
  | .worker _ => .entry
  | _ => s.callback

/-- `raft_fsm_take_snapshot` up to the end of its assertions. -/
def raftFsmTakeSnapshot (req : ℕ) (h f : UInt64) : Callback :=
  if h = 0 ∨ f = 0 then .aborted else .join ⟨req, h, f⟩

variable [DecidableEq ι] (client : Fsm.Client S)

/-- Some thread calls `raft_fsm_snapshot_complete`. -/
def State.complete (s : State S ι) (k : ℕ) (success : Bool) : Option (State S ι) :=
  (Fsm.step client s.fsm (.complete k success)).map fun f =>
    { s with fsm := f, called := s.called ++ [k] }

/-- The next statement of `begin_snapshot`. -/
def callbackStep (s : State S ι) : Option (State S ι) :=
  match s.callback with
  | .join job =>
      some { s with
        worker := if s.worker = .absent then .loop else s.worker
        callback := .emplace job }
  | .emplace job =>
      (Deque.step s.queue (.call .fsmWorker (.emplace job))).map fun q =>
        { s with queue := q, callback := .emplacing job }
  | .emplacing _ =>
      match s.queue.pc .fsmWorker with
      | .done .returned =>
          some { s with queue := s.queue.goto .fsmWorker .idle, callback := .returning }
      | _ => none
  | .completing k =>
      if (s.fsm.slots k).completion = .returned then some { s with callback := .returning }
      else none
  | .entry | .returning | .aborted => none

/-- The next statement of `run_snapshot_worker` and `run_snapshot_job`. -/
def workerStep (s : State S ι) : Option (State S ι) :=
  match s.worker with
  | .loop =>
      (Deque.step s.queue (.call .snapshotWorker .take)).map fun q =>
        { s with queue := q, worker := .take }
  | .take =>
      match s.queue.pc .snapshotWorker with
      | .done (.value job) =>
          some { s with
            queue := s.queue.goto .snapshotWorker .idle
            worker := .fopen job, started := s.started ++ [job] }
      | .done .queueClosed =>
          some { s with queue := s.queue.goto .snapshotWorker .idle, worker := .stopped }
      | _ => none
  | .complete job written success =>
      (s.complete client job.slot success).map fun s' =>
        { s' with worker := .completing job, answered := s.answered ++ [(job, written)] }
  | .completing job =>
      if (s.fsm.slots job.slot).completion = .returned then some { s with worker := .loop }
      else none
  | .absent | .fopen _ | .func _ | .fclose _ _ _ | .stopped => none

def step (s : State S ι) : Act ι → Option (State S ι)
  | .fsm a =>
      if s.allows a then
        (Fsm.step client s.fsm a).map fun f => { s with fsm := f, callback := s.callbackAfter a }
      else none
  | .plan p =>
      match s.current, s.callback with
      | some req, .entry =>
          match p with
          | .take h f => some { s with callback := raftFsmTakeSnapshot req h f }
          | .complete success =>
              (s.complete client req success).map fun s' => { s' with callback := .completing req }
          | .defer => some { s with callback := .returning, deferred := s.deferred ++ [req] }
      | _, _ => none
  | .callback => callbackStep s
  | .queue a =>
      match a with
      | .step _ _ | .spurious _ => (Deque.step s.queue a).map fun q => { s with queue := q }
      | _ => none
  | .worker => workerStep client s
  | .fopen opened =>
      match s.worker with
      | .fopen job =>
          some { s with worker := if opened then .func job else .complete job .notOpened false }
      | _ => none
  | .func rc =>
      match s.worker with
      | .func job => some { s with worker := .fclose job rc (rc = 0) }
      | _ => none
  | .fclose rc' =>
      match s.worker with
      | .fclose job rc success =>
          some { s with
            worker := .complete job (.closed rc rc') (if rc' ≠ 0 then false else success) }
      | _ => none
  | .completeDeferred k success =>
      if k ∈ s.deferred then
        (s.complete client k success).map fun s' => { s' with deferred := s'.deferred.erase k }
      else none

/-- The snapshot machinery and the FSM worker as a scheduled system. -/
def system (fsm : S) : Scheduled (State S ι) (Act ι) where
  init := initial fsm
  step := step client

end Step

section Trans
variable {S ι : Type*} [DecidableEq ι] (client : Fsm.Client S)

/-- The transitions of the system. -/
inductive Trans (s : State S ι) : Act ι → State S ι → Prop
  | fsm {a f} (ha : s.allows a = true) (hs : Fsm.step client s.fsm a = some f) :
      Trans s (.fsm a) { s with fsm := f, callback := s.callbackAfter a }
  | planTake {req h f} (hb : s.current = some req) (hc : s.callback = .entry) :
      Trans s (.plan (.take h f)) { s with callback := raftFsmTakeSnapshot req h f }
  | planComplete {req success f} (hb : s.current = some req) (hc : s.callback = .entry)
      (hs : Fsm.step client s.fsm (.complete req success) = some f) :
      Trans s (.plan (.complete success))
        { s with fsm := f, called := s.called ++ [req], callback := .completing req }
  | planDefer {req} (hb : s.current = some req) (hc : s.callback = .entry) :
      Trans s (.plan .defer)
        { s with callback := .returning, deferred := s.deferred ++ [req] }
  | join {job} (hc : s.callback = .join job) :
      Trans s .callback
        { s with
          worker := if s.worker = .absent then .loop else s.worker
          callback := .emplace job }
  | emplace {job q} (hc : s.callback = .emplace job)
      (hq : Deque.step s.queue (.call .fsmWorker (.emplace job)) = some q) :
      Trans s .callback { s with queue := q, callback := .emplacing job }
  | emplaced {job} (hc : s.callback = .emplacing job)
      (hp : s.queue.pc .fsmWorker = .done .returned) :
      Trans s .callback
        { s with queue := s.queue.goto .fsmWorker .idle, callback := .returning }
  | completed {k} (hc : s.callback = .completing k) :
      Trans s .callback { s with callback := .returning }
  | queue {a q} (ha : a.internal = true) (hq : Deque.step s.queue a = some q) :
      Trans s (.queue a) { s with queue := q }
  | take {q} (hw : s.worker = .loop)
      (hq : Deque.step s.queue (.call .snapshotWorker .take) = some q) :
      Trans s .worker { s with queue := q, worker := .take }
  | taken {job} (hw : s.worker = .take)
      (hp : s.queue.pc .snapshotWorker = .done (.value job)) :
      Trans s .worker
        { s with
          queue := s.queue.goto .snapshotWorker .idle
          worker := .fopen job, started := s.started ++ [job] }
  | stop (hw : s.worker = .take) (hp : s.queue.pc .snapshotWorker = .done .queueClosed) :
      Trans s .worker
        { s with queue := s.queue.goto .snapshotWorker .idle, worker := .stopped }
  | answer {job written success f} (hw : s.worker = .complete job written success)
      (hs : Fsm.step client s.fsm (.complete job.slot success) = some f) :
      Trans s .worker
        { s with
          fsm := f, called := s.called ++ [job.slot], worker := .completing job
          answered := s.answered ++ [(job, written)] }
  | back {job} (hw : s.worker = .completing job) : Trans s .worker { s with worker := .loop }
  | opened {job} (hw : s.worker = .fopen job) :
      Trans s (.fopen true) { s with worker := .func job }
  | notOpened {job} (hw : s.worker = .fopen job) :
      Trans s (.fopen false) { s with worker := .complete job .notOpened false }
  | func {job rc} (hw : s.worker = .func job) :
      Trans s (.func rc) { s with worker := .fclose job rc (rc = 0) }
  | fclose {job rc rc' success} (hw : s.worker = .fclose job rc success) :
      Trans s (.fclose rc')
        { s with worker := .complete job (.closed rc rc') (if rc' ≠ 0 then false else success) }
  | completeDeferred {k success f} (hk : k ∈ s.deferred)
      (hs : Fsm.step client s.fsm (.complete k success) = some f) :
      Trans s (.completeDeferred k success)
        { s with fsm := f, called := s.called ++ [k], deferred := s.deferred.erase k }

variable {client} {s s' : State S ι}

theorem trans_of_callbackStep (h : callbackStep s = some s') : Trans client s .callback s' := by
  unfold callbackStep at h
  split at h
  case h_1 job hc => cases h; exact .join hc
  case h_2 job hc =>
      obtain ⟨q, hq, rfl⟩ := Option.map_eq_some_iff.mp h
      exact .emplace hc hq
  case h_3 job hc =>
      split at h <;> cases h
      exact .emplaced hc ‹_›
  case h_4 k hc =>
      split at h <;> cases h
      exact .completed hc
  case h_5 | h_6 | h_7 => cases h

theorem trans_of_workerStep (h : workerStep client s = some s') : Trans client s .worker s' := by
  unfold workerStep at h
  split at h
  case h_1 hw =>
      obtain ⟨q, hq, rfl⟩ := Option.map_eq_some_iff.mp h
      exact .take hw hq
  case h_2 hw =>
      split at h
      case h_1 job hp => cases h; exact .taken hw hp
      case h_2 hp => cases h; exact .stop hw hp
      case h_3 => cases h
  case h_3 job written success hw =>
      obtain ⟨s₁, h₁, rfl⟩ := Option.map_eq_some_iff.mp h
      obtain ⟨f, hf, rfl⟩ := Option.map_eq_some_iff.mp h₁
      exact .answer hw hf
  case h_4 job hw =>
      split at h <;> cases h
      exact .back hw
  case h_5 | h_6 | h_7 | h_8 | h_9 => cases h

/-- Everything one step can do. -/
theorem trans_of_step {a : Act ι} (h : step client s a = some s') : Trans client s a s' := by
  cases a with
  | fsm a =>
      simp only [step] at h
      split at h
      · rename_i ha
        obtain ⟨f, hf, rfl⟩ := Option.map_eq_some_iff.mp h
        exact .fsm ha hf
      · cases h
  | plan p =>
      simp only [step] at h
      split at h
      case h_1 req hb hc =>
          cases p with
          | take h' f => cases h; exact .planTake hb hc
          | complete success =>
              obtain ⟨s₁, h₁, rfl⟩ := Option.map_eq_some_iff.mp h
              obtain ⟨f, hf, rfl⟩ := Option.map_eq_some_iff.mp h₁
              exact .planComplete hb hc hf
          | defer => cases h; exact .planDefer hb hc
      case h_2 => cases h
  | callback => exact trans_of_callbackStep h
  | queue a =>
      cases a with
      | step t w | spurious t =>
          obtain ⟨q, hq, rfl⟩ := Option.map_eq_some_iff.mp h
          exact .queue rfl hq
      | _ => cases h
  | worker => exact trans_of_workerStep h
  | fopen opened =>
      simp only [step] at h
      split at h
      case h_1 job hw =>
          cases opened <;> cases h
          · exact .notOpened hw
          · exact .opened hw
      case h_2 => cases h
  | func rc =>
      simp only [step] at h
      split at h
      case h_1 job hw => cases h; exact .func hw
      case h_2 => cases h
  | fclose rc' =>
      simp only [step] at h
      split at h
      case h_1 job rc success hw => cases h; exact .fclose hw
      case h_2 => cases h
  | completeDeferred k success =>
      simp only [step] at h
      split at h
      · rename_i hk
        obtain ⟨s₁, h₁, rfl⟩ := Option.map_eq_some_iff.mp h
        obtain ⟨f, hf, rfl⟩ := Option.map_eq_some_iff.mp h₁
        exact .completeDeferred hk hf
      · cases h

end Trans

end Libraft.Snapshot
