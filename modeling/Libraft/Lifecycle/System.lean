import Libraft.Queue.DequeLaws

/-!
# Starting and stopping the library

`raft_init` and `raft_cleanup` of `raft_c_if.cc`, `run_raft` and `shm_cleanup`
of `raft_shm.cc`, and the threads which they start and join: the FSM worker,
the snapshot worker, the collector of orphans and the watcher of the Raft
process. The process goes through any number of cycles.

## Implementation notes

The queues `snapshot_queue` and `orphaned_calls`, `orphan_backlog` and the
handles of the threads belong to the process and outlive the segments of shared
memory. A pointer to a slot names the segment it leads into; segments are
numbered, and no number is used again. The operations of a `Deque` are critical
sections, so each of them is one step; `atomic_of_reachable` derives this from
the model of `queue.h`. `fsm_queue` is an `ArrayBlockingQueue`, whose `take` tests
`closed` before it locks the mutex: a worker which is past that test when the
queue is closed can go to sleep afterwards. What the Raft process puts into
this queue is left to the scheduler. A thread which is not joinable has no
position.

The process ends when the Raft process dies or `fork` fails; then nothing
happens any more. `exit` has no step here. Whether `try_dispose_orphan`
succeeds, and what the clock says, is left to the scheduler.
-/

namespace Libraft.Lifecycle

open Libraft.Foundation

/-- A pointer to a slot. -/
structure SlotPtr where
  segment : ℕ
  offset : ℕ
  deriving DecidableEq, Repr

/-- A `Deque` between its operations. -/
structure Deque where
  contents : List SlotPtr
  closed : Bool
  deriving DecidableEq, Repr

/-- `Deque::reset`. -/
def Deque.reset (_ : Deque) : Deque := ⟨[], false⟩

/-- `Deque::close`. -/
def Deque.close (q : Deque) : Deque := { q with closed := true }

/-- `Deque::put` and `Deque::emplace`; nothing when `queue_closed` is thrown. -/
def Deque.put (q : Deque) (slot : SlotPtr) : Option Deque :=
  if q.closed then none else some { q with contents := q.contents ++ [slot] }

/-- How an attempt to take from a `Deque` ends. -/
inductive Taken
  | queueClosed
  | blocked
  | value (slot : SlotPtr) (rest : Deque)

/-- `Deque::take`, and `Deque::poll_until` before its deadline. -/
def Deque.take (q : Deque) : Taken :=
  if q.closed then .queueClosed
  else match q.contents with
    | [] => .blocked
    | slot :: rest => .value slot { q with contents := rest }

/-- The operations of a `Deque` which change it. -/
inductive Operation
  | put (slot : SlotPtr)
  | take
  | close
  | reset

def Deque.perform (q : Deque) : Operation → Option Deque
  | .put slot => q.put slot
  | .take =>
      match q.take with
      | .value _ rest => some rest
      | .queueClosed | .blocked => none
  | .close => some q.close
  | .reset => some q.reset

/-- A `Deque` whose operations are single steps. -/
def atomic : Scheduled Deque Operation where
  init := ⟨[], false⟩
  step := Deque.perform

section Atomicity
variable {ι : Type*}

/-- What the operations can see of the queue of `queue.h`. -/
def ofQueue (q : Queue.Deque.State SlotPtr ι) : Deque := ⟨q.deque, q.closed⟩

/-- What an operation has done to the queue when it ends. -/
def Ended (q q' : Deque) : Queue.Deque.Outcome SlotPtr → Prop
  | .returned => (∃ slot, q.put slot = some q') ∨ q' = q.close ∨ q' = q.reset
  | .value slot => q.take = .value slot q'
  | .queueClosed => q' = q ∧ q.take = .queueClosed ∧ ∀ slot, q.put slot = none
  | .timedOut => q' = q

variable {s s' : Queue.Deque.State SlotPtr ι}

theorem ended_queueClosed (hc : s.closed = true) : Ended (ofQueue s) (ofQueue s) .queueClosed := by
  simp [Ended, ofQueue, Deque.take, Deque.put, hc]

variable [DecidableEq ι] {a : Queue.Deque.Act SlotPtr ι}

/-- Whatever the threads do inside the queue, an operation happens in the one step
in which it ends. -/
theorem ofQueue_of_step (h : Queue.Deque.system.Reachable s)
    (hs : Queue.Deque.step s a = some s') :
    ((∀ t out, s'.pc t = .done out → s.pc t = .done out) ∧ ofQueue s' = ofQueue s) ∨
    ∃ t out, (∀ out', s.pc t ≠ .done out') ∧ s'.pc = Function.update s.pc t (.done out) ∧
      Ended (ofQueue s) (ofQueue s') out := by
  have hchecked := Queue.Deque.checked_of_reachable h
  -- a thread which goes on, and ends nothing
  have hmove {t : ι} {p : Queue.Deque.Pc SlotPtr} (hp : ∀ out, p ≠ .done out) :
      ∀ u out, Function.update s.pc t p u = .done out → s.pc u = .done out := by
    intro u out hu
    by_cases hut : u = t
    · subst hut
      rw [Function.update_self] at hu
      exact absurd hu (hp out)
    · rwa [Function.update_of_ne hut] at hu
  cases Queue.Deque.trans_of_step hs with
  | call hp | leave hp | block hp hd | pass hp hd | wakeUp hp hm hn | recheckOpen hp hc =>
      exact .inl ⟨hmove (by simp), rfl⟩
  | @lock t w op hp hm =>
      refine .inl ⟨hmove fun out => ?_, rfl⟩
      cases op <;> simp [Queue.Deque.Op.entered]
  | @checkOpen t w op hp hc =>
      refine .inl ⟨hmove fun out => ?_, rfl⟩
      unfold Queue.Deque.Op.checked
      split <;> simp
  | spurious hw => exact .inl ⟨fun _ _ => id, rfl⟩
  | @checkClosed t w op hp hc | @recheckClosed t w op hp hc =>
      exact .inr ⟨t, _, by simp [hp], rfl, ended_queueClosed hc⟩
  | @lateLock t hp | @lateWait t hp => exact .inr ⟨t, .timedOut, by simp [hp], rfl, rfl⟩
  | @store t w op val c hp ho hn =>
      have hopen : s.closed = false := by
        refine hchecked.isOpen t op (.inr hp) ?_ ?_ <;> rcases ho with rfl | rfl <;> simp
      refine .inr ⟨t, .returned, by simp [hp], rfl, .inl ⟨val, ?_⟩⟩
      simp [ofQueue, Deque.put, hopen]
  | @remove t w op val rest hp ho hd =>
      have hopen : s.closed = false := by
        refine hchecked.isOpen t op (.inr hp) ?_ ?_ <;> rintro rfl <;> cases ho
      refine .inr ⟨t, .value val, by simp [hp], rfl, ?_⟩
      simp [Ended, ofQueue, Deque.take, hopen, hd]
  | @close t w hp => exact .inr ⟨t, .returned, by simp [hp], rfl, .inr (.inl rfl)⟩
  | @reset t w hp => exact .inr ⟨t, .returned, by simp [hp], rfl, .inr (.inr rfl)⟩

omit [DecidableEq ι] in
/-- An operation which has ended is one step, or none if it has thrown. -/
theorem Ended.reachable {q q' : Deque} {out : Queue.Deque.Outcome SlotPtr} (h : Ended q q' out)
    (hq : atomic.Reachable q) : atomic.Reachable q' := by
  cases out with
  | returned =>
      rcases h with ⟨slot, hput⟩ | rfl | rfl
      · exact hq.next (a := .put slot) hput
      · exact hq.next (a := .close) rfl
      · exact hq.next (a := .reset) rfl
  | value slot =>
      have htake : q.take = .value slot q' := h
      exact hq.next (a := .take) (by simp [atomic, Deque.perform, htake])
  | queueClosed => exact h.1 ▸ hq
  | timedOut =>
      have hsame : q' = q := h
      exact hsame ▸ hq

/-- Whatever the threads do inside the queue of `queue.h`, it is in a state to
which single steps lead. -/
theorem atomic_of_reachable (h : Queue.Deque.system.Reachable s) :
    atomic.Reachable (ofQueue s) := by
  refine h.invariant (I := fun s => atomic.Reachable (ofQueue s)) .init ?_
  intro s a s' hs ih hstep _
  rcases ofQueue_of_step hs hstep with ⟨-, hsame⟩ | ⟨t, out, -, -, hended⟩
  · exact hsame ▸ ih
  · exact hended.reachable ih

end Atomicity

/-- The next statement of the thread which calls `raft_init` and `raft_cleanup`. -/
inductive Main
  /-- outside, the library is not initialised -/
  | idle
  /-- `snapshot_queue.reset()` -/
  | snapshotReset
  /-- `shm_init` up to the construction of the scoreboard -/
  | shmInit
  /-- `orphaned_calls.reset()` -/
  | orphanReset
  /-- `assert(! raft_watcher.joinable())` and the start of the thread -/
  | startWatcher
  /-- `assert(! orphan_gc_thread.joinable())` and the start of the thread -/
  | startGc
  /-- `start_fsm_worker` -/
  | startFsmWorker
  | waitForRaft
  /-- outside, the library is in use -/
  | running
  /-- `fsm_queue.close()` -/
  | fsmClose
  /-- `assert(fsm_worker.joinable()); fsm_worker.join()` -/
  | fsmJoin
  /-- `snapshot_queue.close()` -/
  | snapshotClose
  /-- `if (snapshot_worker.joinable()) snapshot_worker.join()` -/
  | snapshotJoin
  /-- `api_queue.close()` -/
  | apiClose
  /-- `orphaned_calls.close()` -/
  | orphanClose
  /-- `assert(orphan_gc_thread.joinable()); orphan_gc_thread.join()` -/
  | gcJoin
  /-- `if (raft_watcher.joinable()) raft_watcher.join()` -/
  | watcherJoin
  /-- `shm = decltype(shm)()` -/
  | unmap
  /-- an assertion failed -/
  | aborted
  deriving DecidableEq, Repr

inductive FsmWorker
  /-- before the first test of `closed` in `fsm_queue.take()` -/
  | loop
  /-- in `fsm_queue.take()`, before the test of `count` -/
  | take
  /-- waits for `not_empty` -/
  | asleep
  /-- notified, before the test of `closed` inside the loop -/
  | woken
  /-- inside `begin_snapshot` -/
  | callback (slot : SlotPtr)
  /-- inside `raft_fsm_take_snapshot`, before the test of `snapshot_worker.joinable()` -/
  | test (slot : SlotPtr)
  /-- before `snapshot_queue.emplace` -/
  | emplace (slot : SlotPtr)
  | exited
  deriving DecidableEq, Repr

inductive SnapshotWorker
  | loop
  /-- inside `run_snapshot_job` -/
  | job (slot : SlotPtr)
  | exited
  deriving DecidableEq, Repr

inductive Gc
  /-- before `orphan_backlog` is cleared -/
  | start
  | loop
  /-- inside `try_dispose_orphan`, for a fresh orphan or for an entry of the backlog -/
  | attempt (slot : SlotPtr) (entry : Option ℕ)
  /-- before the test of the clock -/
  | check
  /-- inside `scan_orphans` -/
  | scan (i : ℕ)
  | exited
  deriving DecidableEq, Repr

inductive Watcher
  | running
  | exited
  deriving DecidableEq, Repr

/-- The state of the process. `fsmClosed` and `shutdownRequested` are in the
scoreboard of the mapped segment. -/
structure State where
  main : Main
  segments : ℕ
  shm : Option ℕ
  fsmClosed : Bool
  shutdownRequested : Bool
  snapshotQueue : Deque
  orphanedCalls : Deque
  orphanBacklog : List SlotPtr
  fsmWorker : Option FsmWorker
  snapshotWorker : Option SnapshotWorker
  gc : Option Gc
  watcher : Option Watcher

def initial : State where
  main := .idle
  segments := 0
  shm := none
  fsmClosed := false
  shutdownRequested := false
  snapshotQueue := ⟨[], false⟩
  orphanedCalls := ⟨[], false⟩
  orphanBacklog := []
  fsmWorker := none
  snapshotWorker := none
  gc := none
  watcher := none

inductive Act
  /-- `raft_init` is called -/
  | init
  /-- `raft_cleanup` is called -/
  | cleanup
  /-- the next statement of `raft_init` or `raft_cleanup` -/
  | main
  /-- `raft_shutdown` is called -/
  | shutdown
  /-- a client thread disposes of a future which nobody has observed -/
  | dispose (slot : SlotPtr)
  /-- the FSM worker takes a snapshot request and calls `begin_snapshot` -/
  | beginSnapshot (offset : ℕ)
  /-- the FSM worker takes a request of another kind and answers it -/
  | fsmCall
  /-- the FSM worker finds `fsm_queue` empty and waits for `not_empty` -/
  | fsmSleep
  /-- the FSM worker is notified by a `put`, or wakes up by itself -/
  | fsmWake
  /-- `begin_snapshot` calls `raft_fsm_take_snapshot` -/
  | takeSnapshot
  /-- `begin_snapshot` returns -/
  | endSnapshot
  /-- the next statement of the FSM worker -/
  | fsmWorker
  | snapshotWorker
  | gc
  /-- `poll_until` gives up -/
  | gcTimeout
  /-- `try_dispose_orphan` returns -/
  | gcTried (disposed : Bool)
  | gcCheck (scan : Bool)
  /-- the Raft process has exited after a shutdown -/
  | watcher
  deriving DecidableEq, Repr

section Step

/-- What `notify_all` does to the FSM worker. -/
def FsmWorker.notified : FsmWorker → FsmWorker
  | .asleep => .woken
  | w => w

@[simps] def State.goto (s : State) (main : Main) : State := { s with main := main }

/-- The next statement of `raft_init` or `raft_cleanup`. -/
def mainStep (s : State) : Option State :=
  match s.main with
  | .snapshotReset => some ({ s with snapshotQueue := s.snapshotQueue.reset }.goto .shmInit)
  | .shmInit =>
      some ({ s with
        segments := s.segments + 1, shm := some (s.segments + 1)
        fsmClosed := false, shutdownRequested := false }.goto .orphanReset)
  | .orphanReset => some ({ s with orphanedCalls := s.orphanedCalls.reset }.goto .startWatcher)
  | .startWatcher =>
      some (if s.watcher.isSome then s.goto .aborted
        else { s with watcher := some .running }.goto .startGc)
  | .startGc =>
      some (if s.gc.isSome then s.goto .aborted
        else { s with gc := some .start }.goto .startFsmWorker)
  | .startFsmWorker =>
      some (if s.fsmWorker.isSome then s.goto .aborted
        else { s with fsmWorker := some .loop }.goto .waitForRaft)
  | .waitForRaft => some (s.goto .running)
  | .fsmClose =>
      some ({ s with
        fsmClosed := true, fsmWorker := s.fsmWorker.map FsmWorker.notified }.goto .fsmJoin)
  | .fsmJoin =>
      match s.fsmWorker with
      | none => some (s.goto .aborted)
      | some .exited => some ({ s with fsmWorker := none }.goto .snapshotClose)
      | some _ => none
  | .snapshotClose => some ({ s with snapshotQueue := s.snapshotQueue.close }.goto .snapshotJoin)
  | .snapshotJoin =>
      match s.snapshotWorker with
      | none => some (s.goto .apiClose)
      | some .exited => some ({ s with snapshotWorker := none }.goto .apiClose)
      | some _ => none
  | .apiClose => some (s.goto .orphanClose)
  | .orphanClose => some ({ s with orphanedCalls := s.orphanedCalls.close }.goto .gcJoin)
  | .gcJoin =>
      match s.gc with
      | none => some (s.goto .aborted)
      | some .exited => some ({ s with gc := none }.goto .watcherJoin)
      | some _ => none
  | .watcherJoin =>
      match s.watcher with
      | none => some (s.goto .unmap)
      | some .exited => some ({ s with watcher := none }.goto .unmap)
      | some _ => none
  | .unmap => some ({ s with shm := none }.goto .idle)
  | .idle | .running | .aborted => none

/-- The next statement of `run_fsm_worker` and of `raft_fsm_take_snapshot`. -/
def fsmWorkerStep (s : State) : Option State :=
  match s.fsmWorker with
  | some .loop => some { s with fsmWorker := some (if s.fsmClosed then .exited else .take) }
  | some .woken => some { s with fsmWorker := some (if s.fsmClosed then .exited else .take) }
  | some (.test slot) =>
      some { s with
        snapshotWorker := if s.snapshotWorker.isSome then s.snapshotWorker else some .loop
        fsmWorker := some (.emplace slot) }
  | some (.emplace slot) =>
      match s.snapshotQueue.put slot with
      | some q => some { s with snapshotQueue := q, fsmWorker := some (.callback slot) }
      | none => some { s with fsmWorker := some .exited }
  | some .take | some .asleep | some (.callback _) | some .exited | none => none

/-- The next statement of `run_snapshot_worker`. -/
def snapshotWorkerStep (s : State) : Option State :=
  match s.snapshotWorker with
  | some .loop =>
      match s.snapshotQueue.take with
      | .queueClosed => some { s with snapshotWorker := some .exited }
      | .blocked => none
      | .value slot q => some { s with snapshotQueue := q, snapshotWorker := some (.job slot) }
  | some (.job _) => some { s with snapshotWorker := some .loop }
  | some .exited | none => none

/-- The next statement of `run_orphan_gc`. -/
def gcStep (s : State) : Option State :=
  match s.gc with
  | some .start => some { s with orphanBacklog := [], gc := some .loop }
  | some .loop =>
      match s.orphanedCalls.take with
      | .queueClosed => some { s with gc := some .exited }
      | .blocked => none
      | .value slot q => some { s with orphanedCalls := q, gc := some (.attempt slot none) }
  | some (.scan i) =>
      some { s with gc := some (match s.orphanBacklog[i]? with
        | some slot => .attempt slot (some i)
        | none => .loop) }
  | some (.attempt _ _) | some .check | some .exited | none => none

/-- `try_dispose_orphan` has returned. -/
def State.tried (s : State) (slot : SlotPtr) (disposed : Bool) : Option ℕ → State
  | none =>
      { s with
        orphanBacklog := if disposed then s.orphanBacklog else s.orphanBacklog ++ [slot]
        gc := some .check }
  | some i =>
      if disposed then { s with orphanBacklog := s.orphanBacklog.eraseIdx i, gc := some (.scan i) }
      else { s with gc := some (.scan (i + 1)) }

def step (s : State) : Act → Option State
  | .init => if s.main = .idle then some (s.goto .snapshotReset) else none
  | .cleanup => if s.main = .running then some (s.goto .fsmClose) else none
  | .main => mainStep s
  | .shutdown => if s.main = .running then some { s with shutdownRequested := true } else none
  | .dispose slot =>
      match s.orphanedCalls.put slot with
      | some q => some { s with orphanedCalls := q }
      | none => some s
  | .beginSnapshot offset =>
      match s.fsmWorker, s.shm with
      | some .take, some segment =>
          some { s with fsmWorker := some (.callback ⟨segment, offset⟩) }
      | _, _ => none
  | .fsmCall =>
      if s.fsmWorker = some .take then some { s with fsmWorker := some .loop } else none
  | .fsmSleep =>
      if s.fsmWorker = some .take then some { s with fsmWorker := some .asleep } else none
  | .fsmWake =>
      if s.fsmWorker = some .asleep then some { s with fsmWorker := some .woken } else none
  | .takeSnapshot =>
      match s.fsmWorker with
      | some (.callback slot) => some { s with fsmWorker := some (.test slot) }
      | _ => none
  | .endSnapshot =>
      match s.fsmWorker with
      | some (.callback _) => some { s with fsmWorker := some .loop }
      | _ => none
  | .fsmWorker => fsmWorkerStep s
  | .snapshotWorker => snapshotWorkerStep s
  | .gc => gcStep s
  | .gcTimeout =>
      if s.gc = some .loop ∧ s.orphanBacklog ≠ [] then some { s with gc := some .check } else none
  | .gcTried disposed =>
      match s.gc with
      | some (.attempt slot entry) => some (s.tried slot disposed entry)
      | _ => none
  | .gcCheck scan =>
      if s.gc = some .check then
        some { s with gc := some (if scan ∧ s.orphanBacklog ≠ [] then .scan 0 else .loop) }
      else none
  | .watcher =>
      if s.watcher = some .running ∧ s.shutdownRequested then
        some { s with watcher := some .exited }
      else none

/-- The process as a scheduled system. -/
def system : Scheduled State Act where
  init := initial
  step := step

end Step

end Libraft.Lifecycle
