import Libraft.Calls.Slot
import Libraft.Queue.CallerSpec

/-!
# The FSM worker

`run_fsm_worker`, `fsm_worker_step` and the `dispatch_fsm_*` functions of
`raft_c_if.cc`, running against any number of Raft-side threads which enqueue
requests with `send_fsm_request`, wait for their slots, or close the queue.

## Implementation notes

The queue is the blocking queue of `queue.h` with its own threads; the worker
is the thread `none`, the Raft side owns the others. A slot keeps the request
stored in it, the `wait` of the Raft-side thread which sent it, and the
completion of a snapshot, which arrives from another thread or from inside the
callback. The callbacks of the client are arbitrary functions of an arbitrary
state. A callback takes two steps, its call and its return, and other threads
run in between. A slot is named by a number which is never used again.
-/

namespace Libraft.Fsm

open Libraft.Foundation Libraft.Calls
open Libraft.Queue

/-- `LogEntry`. -/
structure LogEntry where
  index : UInt64
  term : UInt64
  logType : RaftLogType
  dataBuf : UInt64
  dataLen : UInt64
  deriving DecidableEq, Repr

/-- The arguments stored in a slot, by kind of call. -/
inductive Request
  | apply (log : LogEntry)
  | snapshot (path : List UInt8)
  | restore (path : List UInt8)
  deriving DecidableEq, Repr

def Request.tag : Request → CallTag
  | .apply _ => .fsmApply
  | .snapshot _ => .fsmSnapshot
  | .restore _ => .fsmRestore

/-- The client's `RaftFSM`, and `get_address_from_handle` of the segment. -/
structure Client (S : Type*) where
  apply : S → UInt64 → UInt64 → RaftLogType → UInt64 → UInt64 → S × UInt64
  beginSnapshot : S → List UInt8 → ℕ → S
  restore : S → List UInt8 → S × Int32
  addressOf : UInt64 → UInt64

/-- A callback with the arguments it is called with. -/
inductive Callback
  | apply (index term : UInt64) (logType : RaftLogType) (data len : UInt64)
  | beginSnapshot (path : List UInt8) (req : ℕ)
  | restore (path : List UInt8)
  deriving DecidableEq, Repr

/-- What a callback does to the client's state, and the reply which the worker
makes of its result. -/
def Callback.run {S : Type*} (client : Client S) (fsm : S) : Callback → S × Option Reply
  | .apply index term logType data len =>
      let (fsm', response) := client.apply fsm index term logType data len
      (fsm', some (.retval response))
  | .beginSnapshot path req => (client.beginSnapshot fsm path req, none)
  | .restore path =>
      let (fsm', result) := client.restore fsm path
      (fsm', some (.error (if result = 0 then .success else .other)))

/-- One invocation: for which slot, in which state of the client, and how. -/
structure Invocation (S : Type*) where
  slot : ℕ
  seen : S
  callback : Callback

/-- The threads which lock a slot: the worker, the Raft-side thread which sent
it, and the thread which completes a snapshot. -/
inductive Actor
  | worker
  | raft
  | completer
  deriving DecidableEq, Repr

/-- `raft_fsm_snapshot_complete` on a slot. -/
inductive Completion
  | idle
  | lock (success : Bool)
  | replying (r : Reply)
  | unlock
  | returned
  deriving DecidableEq, Repr

/-- A slot sent to the worker. `replies` counts the stores to `state` made by
`reply`, and `processed` says that the worker's step has returned. -/
structure Slot where
  base : BaseSlot Actor
  request : Request
  wait : Option Wait
  completion : Completion
  replies : ℕ
  processed : Bool

def Slot.new (req : Request) : Slot where
  base := .new req.tag
  request := req
  wait := none
  completion := .idle
  replies := 0
  processed := false

/-- Where the worker stands. -/
inductive Worker
  /-- in `fsm_queue.take()` -/
  | take
  /-- before `lock(slot->owned)` -/
  | lock (tag : CallTag) (k : ℕ)
  /-- before the assertion on `state` and the switch over the tag -/
  | dispatch (tag : CallTag) (k : ℕ)
  /-- before the call of the client's function -/
  | invoke (k : ℕ) (cb : Callback)
  /-- inside the client's function -/
  | running (k : ℕ) (cb : Callback)
  | replying (k : ℕ) (r : Reply)
  /-- at the end of the scope of the slot lock -/
  | unlock (k : ℕ)
  /-- the queue was closed -/
  | stopped
  /-- an assertion failed, or `abort()` -/
  | aborted
  deriving DecidableEq, Repr

structure State (S ι : Type*) where
  queue : ArrayBlockingQueue.State (CallTag × ℕ) (Option ι)
  slots : ℕ → Slot
  next : ℕ
  worker : Worker
  fsm : S
  invoked : List (Invocation S)

/-- `Capacity` of `CallQueue`. -/
def callQueueCapacity : UInt32 := 8

/-- The records in zero-initialised memory. -/
def noRecords : ℕ → CallTag × ℕ := fun _ => (.invalid, 0)

def initial {S ι : Type*} (fsm : S) : State S ι where
  queue := ArrayBlockingQueue.initial noRecords
  slots := fun _ => .new (.restore [])
  next := 0
  worker := .take
  fsm := fsm
  invoked := []

inductive Act (ι : Type*)
  /-- thread `t` calls `send_fsm_request` -/
  | send (t : ι) (req : Request)
  /-- a step of some thread inside `fsm_queue` -/
  | queue (a : ArrayBlockingQueue.Act (CallTag × ℕ) (Option ι))
  /-- a step of the worker outside the queue; `w` is woken by `notify_one` -/
  | worker (w : Option Actor)
  /-- the sender of the slot calls `BaseSlot::wait` -/
  | wait (k : ℕ)
  | waitStep (k : ℕ)
  | waitWake (k : ℕ)
  /-- `raft_fsm_snapshot_complete` is called -/
  | complete (k : ℕ) (success : Bool)
  | completeStep (k : ℕ) (w : Option Actor)

/-- One statement of `reply`; the store to `state` completes the reply. -/
def Slot.reply (slot : Slot) (w : Option Actor) (r : Reply) : Option (Slot × Option Reply) :=
  (slot.base.reply w r).map fun (base, r') =>
    ({ slot with
        base := base
        replies := match r with
          | .state _ => slot.replies + 1
          | _ => slot.replies }, r')

/-- The next statement of `raft_fsm_snapshot_complete`. -/
def Slot.complete (slot : Slot) (w : Option Actor) : Option Slot :=
  match slot.completion with
  | .idle | .returned => none
  | .lock success =>
      if slot.base.owned.isNone then
        some { slot with
          base := { slot.base with owned := some .completer }
          completion := .replying (.error (if success then .success else .other)) }
      else none
  | .replying r =>
      (slot.reply w r).map fun (slot', r') =>
        { slot' with completion := match r' with
            | some r' => .replying r'
            | none => .unlock }
  | .unlock =>
      some { slot with base := { slot.base with owned := none }, completion := .returned }

section Step
variable {S ι : Type*}

@[simps] def State.setSlot (s : State S ι) (k : ℕ) (slot : Slot) : State S ι :=
  { s with slots := Function.update s.slots k slot }

@[simps!] def State.setBase (s : State S ι) (k : ℕ) (base : BaseSlot Actor) : State S ι :=
  s.setSlot k { s.slots k with base := base }

@[simps] def State.goto (s : State S ι) (worker : Worker) : State S ι :=
  { s with worker := worker }

/-- The worker's step for slot `k` returns. -/
@[simps!] def State.finish (s : State S ι) (k : ℕ) : State S ι :=
  (s.setSlot k { s.slots k with processed := true }).goto .take

/-- `dispatch_fsm_apply` up to the call of the client: only commands are passed on. -/
def dispatchFsmApply (client : Client S) (s : State S ι) (k : ℕ) (log : LogEntry) :
    State S ι :=
  match log.logType with
  | .command =>
      if log.dataBuf = 0 then s.goto .aborted
      else (s.setBase k { (s.slots k).base with state := .dispatched }).goto
        (.invoke k (.apply log.index log.term log.logType (client.addressOf log.dataBuf)
          log.dataLen))
  | .noop | .addPeer | .removePeer | .barrier => s.goto (.unlock k)

/-- `dispatch_fsm_snapshot` up to the call of the client; the lock is gone by then. -/
def dispatchFsmSnapshot (s : State S ι) (k : ℕ) (path : List UInt8) : State S ι :=
  if path.length = 0 then (s.setBase k { (s.slots k).base with owned := none }).goto .aborted
  else (s.setBase k { (s.slots k).base with owned := none }).goto
    (.invoke k (.beginSnapshot path k))

/-- `dispatch_fsm_restore` up to the call of the client. -/
def dispatchFsmRestore (s : State S ι) (k : ℕ) (path : List UInt8) : State S ι :=
  if path.length = 0 then s.goto .aborted else s.goto (.invoke k (.restore path))

/-- The assertion and the switch of `fsm_worker_step`. -/
def dispatch (client : Client S) (s : State S ι) (tag : CallTag) (k : ℕ) : State S ι :=
  if (s.slots k).base.state = .pending then
    match tag, (s.slots k).request with
    | .fsmApply, .apply log => dispatchFsmApply client s k log
    | .fsmSnapshot, .snapshot path => dispatchFsmSnapshot s k path
    | .fsmRestore, .restore path => dispatchFsmRestore s k path
    | _, _ => s.goto .aborted
  else s.goto .aborted

variable [DecidableEq ι]

/-- The next step of the worker outside the queue. -/
def workerStep (client : Client S) (s : State S ι) (w : Option Actor) : Option (State S ι) :=
  match s.worker with
  | .take =>
      match s.queue.pc none with
      | .done (.takeDone (tag, k)) =>
          some ({ s with queue := s.queue.goto none .idle }.goto (.lock tag k))
      | .done .takeClosed => some ({ s with queue := s.queue.goto none .idle }.goto .stopped)
      | _ => none
  | .lock tag k =>
      if (s.slots k).base.owned.isNone then
        some ((s.setBase k { (s.slots k).base with owned := some .worker }).goto
          (.dispatch tag k))
      else none
  | .dispatch tag k => some (dispatch client s tag k)
  | .invoke k cb =>
      some { s with invoked := s.invoked ++ [⟨k, s.fsm, cb⟩], worker := .running k cb }
  | .running k cb =>
      match cb.run client s.fsm with
      | (fsm, some r) => some ({ s with fsm := fsm }.goto (.replying k r))
      | (fsm, none) => some ({ s with fsm := fsm }.finish k)
  | .replying k r =>
      ((s.slots k).reply w r).map fun (slot, r') =>
        (s.setSlot k slot).goto (match r' with
          | some r' => .replying k r'
          | none => .unlock k)
  | .unlock k => some ((s.setBase k { (s.slots k).base with owned := none }).finish k)
  | .stopped | .aborted => none

/-- Who may do what inside the queue: the worker only takes, the Raft side
puts only through `send_fsm_request` and never takes. -/
def queueAllowed (worker : Worker) :
    ArrayBlockingQueue.Act (CallTag × ℕ) (Option ι) → Bool
  | .call none .take => (worker matches .take)
  | .call _ _ => false
  | .callClose none => false
  | .leave none => false
  | _ => true

def step (client : Client S) (s : State S ι) : Act ι → Option (State S ι)
  | .send t req =>
      (ArrayBlockingQueue.step callQueueCapacity s.queue
        (.call (some t) (.put (req.tag, s.next)))).map fun q =>
          { s with queue := q, slots := Function.update s.slots s.next (.new req)
                   next := s.next + 1 }
  | .queue a =>
      if queueAllowed s.worker a then
        (ArrayBlockingQueue.step callQueueCapacity s.queue a).map fun q => { s with queue := q }
      else none
  | .worker w => workerStep client s w
  | .wait k =>
      if k < s.next ∧ (s.slots k).wait.isNone then
        some (s.setSlot k { s.slots k with wait := some .lock })
      else none
  | .waitStep k =>
      (s.slots k).wait.bind fun pc =>
        ((s.slots k).base.wait .raft pc).map fun (base, pc') =>
          s.setSlot k { s.slots k with base := base, wait := pc' }
  | .waitWake k =>
      if .raft ∈ (s.slots k).base.retCond.waiting then
        some (s.setBase k { (s.slots k).base with
          retCond := (s.slots k).base.retCond.wake .raft })
      else none
  | .complete k success =>
      -- the request handle reaches the client with the call of `begin_snapshot`
      if (∃ e ∈ s.invoked, e.slot = k ∧ (e.callback matches .beginSnapshot _ _)) ∧
          (s.slots k).completion = .idle then
        some (s.setSlot k { s.slots k with completion := .lock success })
      else none
  | .completeStep k w => ((s.slots k).complete w).map fun slot => s.setSlot k slot

/-- The FSM worker and its surroundings as a scheduled system. -/
def system (client : Client S) (fsm : S) : Scheduled (State S ι) (Act ι) where
  init := initial fsm
  step := step client

end Step

end Libraft.Fsm
