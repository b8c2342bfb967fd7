import Libraft.Pool.Call
import Libraft.Queue.CallerSpec

/-!
# The slot pool, its clients and the orphan collector

All calls together: the nodes of the allocators, the API queue, the queue of
orphaned calls and the thread `run_orphan_gc` of `raft_shm.cc`, with its
backlog and `try_dispose_orphan`, and the command buffers.

## Implementation notes

A call is named by a number which is never used again, its slot by the node in
which it was built. Every access of a call to its slot goes through the node,
so a thread which still has a pointer to a deallocated slot reaches the slot
of the call which was built there afterwards. The API queue is the blocking
queue with its own threads: the thread which creates call `c` is `inl c`, the
threads of the Raft side are `inr`. The queue of orphans is a `Deque`, whose
operations are critical sections; each of them is one step.

The collector's guard in `try_dispose_orphan` is released by a step of its
own, after `dispose` has returned.
-/

namespace Libraft.Pool

open Libraft.Foundation Libraft.Calls
open Libraft.Queue

/-- The statements of `try_dispose_orphan`. -/
inductive Attempt
  | tryLock
  | test
  /-- inside `orphan->dispose()` -/
  | dispose
  /-- the end of the scope of `slot_lock` -/
  | release (locked disposed : Bool)
  deriving DecidableEq, Repr

/-- Where the collector stands. -/
inductive Gc
  /-- at the top of the loop of `run_orphan_gc` -/
  | loop
  /-- inside `try_dispose_orphan` for call `c`, called for a fresh orphan or for
  the entry of the backlog at the given position -/
  | attempt (c : ℕ) (entry : Option ℕ) (pc : Attempt)
  /-- before the test of the clock -/
  | check
  /-- inside `scan_orphans` -/
  | scan (i : ℕ)
  | stopped
  deriving DecidableEq, Repr

/-- How often a buffer was given to `free_raft_buffer`. -/
structure Frees where
  byClient : ℕ
  byLibrary : ℕ
  deriving DecidableEq, Repr

structure State (τ ρ : Type*) where
  calls : ℕ → Call τ
  next : ℕ
  mem : Addr → BaseSlot (Actor τ)
  /-- the call whose slot occupies the node -/
  pool : Addr → Option ℕ
  api : ArrayBlockingQueue.State (CallTag × ℕ) (ℕ ⊕ ρ)
  orphans : List ℕ
  orphansClosed : Bool
  backlog : List ℕ
  gc : Gc
  callAlloc : UInt64
  callFree : UInt64
  buffers : ℕ
  frees : ℕ → Frees
  bufferAlloc : UInt64
  bufferFree : UInt64

/-- `Capacity` of `CallQueue`. -/
def callQueueCapacity : UInt32 := 8

/-- The records in zero-initialised memory. -/
def noRecords : ℕ → CallTag × ℕ := fun _ => (.invalid, 0)

def initial {τ ρ : Type*} : State τ ρ where
  calls := fun _ => .unborn
  next := 0
  mem := fun p => .new p.1
  pool := fun _ => none
  api := ArrayBlockingQueue.initial noRecords
  orphans := []
  orphansClosed := false
  backlog := []
  gc := .loop
  callAlloc := 0
  callFree := 0
  buffers := 0
  frees := fun _ => ⟨0, 0⟩
  bufferAlloc := 0
  bufferFree := 0

inductive Act (τ ρ : Type*)
  /-- `alloc_request_` is called, by `send_api_request`, or by
  `make_error_request` with the given error -/
  | create (tag : CallTag) (buf : Option ℕ) (err : Option RaftError)
  /-- `allocate_one` returns the node `n`, and the slot is constructed there -/
  | allocate (c n : ℕ)
  /-- `queue.put` is called -/
  | enqueue (c : ℕ)
  /-- a step of some thread inside `api_queue` -/
  | api (a : ArrayBlockingQueue.Act (CallTag × ℕ) (ℕ ⊕ ρ))
  /-- `queue.put` has returned or thrown -/
  | sent (c : ℕ)
  /-- a step on the slot of call `c` -/
  | call (c : ℕ) (a : CallAct τ)
  /-- a step of `dispose` on call `c` outside its slot -/
  | dispose (c : ℕ)
  /-- `take` or `poll_until` returns the oldest orphan -/
  | gcTake
  | gcTimeout
  /-- `queue_closed` ends the collector -/
  | gcStop
  | gcStep
  /-- the clock says that the backlog is to be scanned, or not -/
  | gcCheck (scan : Bool)
  | closeOrphans
  | allocBuffer
  | freeBuffer (b : ℕ)

section Step
variable {τ ρ : Type*}

@[simps] def State.setCall (s : State τ ρ) (c : ℕ) (call : Call τ) : State τ ρ :=
  { s with calls := Function.update s.calls c call }

/-- The slot which the pointer to call `c` leads to. -/
def State.slot (s : State τ ρ) (c : ℕ) : BaseSlot (Actor τ) := s.mem (s.calls c).addr

@[simps] def State.setSlot (s : State τ ρ) (c : ℕ) (slot : BaseSlot (Actor τ)) : State τ ρ :=
  { s with mem := Function.update s.mem (s.calls c).addr slot }

@[simps] def State.setLife (s : State τ ρ) (c : ℕ) (life : Life) : State τ ρ :=
  { s with calls := Function.update s.calls c { s.calls c with life := life } }

@[simps] def State.setGc (s : State τ ρ) (gc : Gc) : State τ ρ := { s with gc := gc }

/-- The records which have left the API queue. -/
def State.taken (s : State τ ρ) : List ℕ := s.api.delivered.map Prod.snd

/-- The new call, numbered but without a slot. -/
def Call.create (tag : CallTag) (buf : Option ℕ) (err : Option RaftError) : Call τ :=
  { Call.unborn with tag := tag, buf := buf, life := .creating (.allocate err) }

/-- The call once its slot has been constructed at `addr`. -/
def Call.allocated (call : Call τ) (addr : Addr) : Option RaftError → Call τ
  | none => { call with addr := addr, life := .creating .enqueue }
  | some err =>
      { call with
        addr := addr, life := .creating (.setError err)
        rejected := true, outcome := some (err, 0) }

/-- `put` has thrown `queue_closed`; `send_request` fails the call. -/
def Call.refused (call : Call τ) : Call τ :=
  { call with
    life := .creating (.setError .inShutdown)
    rejected := true, outcome := some (.inShutdown, 0) }

/-- `track_orphan`: `put` of the deque, which throws when the deque is closed. -/
def State.track (s : State τ ρ) (c : ℕ) : State τ ρ :=
  if s.orphansClosed then s.setLife c .thrown
  else { s with
    calls := Function.update s.calls c { s.calls c with life := .orphaned, handed := true }
    orphans := s.orphans ++ [c] }

/-- `orphan_cleanup`: an Apply gives up its command buffer. -/
def State.cleanup (s : State τ ρ) (c : ℕ) (byGc : Bool) : State τ ρ :=
  { s with
    calls := Function.update s.calls c { s.calls c with
      life := .disposing byGc .deallocate, cleanups := (s.calls c).cleanups + 1 }
    frees := match (s.calls c).buf with
      | some b => Function.update s.frees b
          { s.frees b with byLibrary := (s.frees b).byLibrary + 1 }
      | none => s.frees
    bufferFree := match (s.calls c).buf with
      | some _ => s.bufferFree + 1
      | none => s.bufferFree }

def State.deallocate (s : State τ ρ) (c : ℕ) (byGc : Bool) : State τ ρ :=
  { s with
    calls := Function.update s.calls c { s.calls c with
      life := .disposing byGc .count, frees := (s.calls c).frees + 1 }
    pool := Function.update s.pool (s.calls c).addr none }

def State.count (s : State τ ρ) (c : ℕ) : State τ ρ :=
  { s.setLife c .gone with callFree := s.callFree + 1 }

/-- The steps of `dispose` which leave the slot alone. -/
def disposeStep (s : State τ ρ) (c : ℕ) : Option (State τ ρ) :=
  match (s.calls c).life with
  | .disposing _ .track => some (s.track c)
  | .disposing byGc .cleanup => some (s.cleanup c byGc)
  | .disposing byGc .deallocate => some (s.deallocate c byGc)
  | .disposing _ .count => some (s.count c)
  | _ => none

/-- `try_dispose_orphan` has returned. -/
def State.attempted (s : State τ ρ) (c : ℕ) (entry : Option ℕ) (disposed : Bool) : State τ ρ :=
  match entry, disposed with
  | none, true => s.setGc .check
  | none, false => { s with backlog := s.backlog ++ [c], gc := .check }
  | some i, true => { s with backlog := s.backlog.eraseIdx i, gc := .scan i }
  | some i, false => s.setGc (.scan (i + 1))

/-- The next step of the collector outside `dispose` and outside the deque. -/
def gcStep (s : State τ ρ) : Option (State τ ρ) :=
  match s.gc with
  | .attempt c entry .tryLock =>
      some (if (s.slot c).owned.isNone then
        (s.setSlot c { s.slot c with owned := some .gc }).setGc (.attempt c entry .test)
      else s.setGc (.attempt c entry (.release false false)))
  | .attempt c entry .test =>
      some (if isTerminal (s.slot c).state then
        (s.setLife c (.disposing true .load)).setGc (.attempt c entry .dispose)
      else s.setGc (.attempt c entry (.release true false)))
  | .attempt c entry .dispose =>
      if (s.calls c).life = .gone then some (s.setGc (.attempt c entry (.release true true)))
      else none
  | .attempt c entry (.release locked disposed) =>
      some ((if locked then s.setSlot c { s.slot c with owned := none } else s).attempted c entry
        disposed)
  | .scan i =>
      some (s.setGc (match s.backlog[i]? with
        | some c => .attempt c (some i) .tryLock
        | none => .loop))
  | .loop | .check | .stopped => none

/-- Who may do what inside the API queue: creators only put, and only through
`send_request`; the Raft side takes, and anyone else closes. -/
def apiAllowed : ArrayBlockingQueue.Act (CallTag × ℕ) (ℕ ⊕ ρ) → Bool
  | .call (.inr _) .take => true
  | .call _ _ => false
  | .callClose (.inl _) => false
  | .leave (.inl _) => false
  | _ => true

variable [DecidableEq τ] [DecidableEq ρ]

def step (s : State τ ρ) : Act τ ρ → Option (State τ ρ)
  | .create tag buf err =>
      -- `make_error_request` asserts that its error is one; only ApplyArgs has a buffer
      if err ≠ some .success ∧ (tag ≠ .apply → buf = none) then
        some { s.setCall s.next (.create tag buf err) with
          next := s.next + 1, callAlloc := s.callAlloc + 1 }
      else none
  | .allocate c n =>
      match (s.calls c).life with
      | .creating (.allocate err) =>
          if s.pool ((s.calls c).tag, n) = none then
            some { s.setCall c ((s.calls c).allocated ((s.calls c).tag, n) err) with
              mem := Function.update s.mem ((s.calls c).tag, n) (.new (s.calls c).tag)
              pool := Function.update s.pool ((s.calls c).tag, n) (some c) }
          else none
      | _ => none
  | .enqueue c =>
      if (s.calls c).life = .creating .enqueue then
        (ArrayBlockingQueue.step callQueueCapacity s.api
          (.call (.inl c) (.put ((s.slot c).tag, c)))).map fun q =>
            { s.setLife c (.creating .sending) with api := q }
      else none
  | .api a =>
      if apiAllowed a then
        (ArrayBlockingQueue.step callQueueCapacity s.api a).map fun q => { s with api := q }
      else none
  | .sent c =>
      if (s.calls c).life = .creating .sending then
        match s.api.pc (.inl c) with
        | .done (.putDone _) =>
            some { s.setLife c .held with api := s.api.goto (.inl c) .idle }
        | .done (.putClosed _) =>
            some { s.setCall c (s.calls c).refused with api := s.api.goto (.inl c) .idle }
        | _ => none
      else none
  | .call c .raftLock =>
      if c ∈ s.taken then
        ((s.calls c).step c (s.slot c) .raftLock).map fun (call, slot) =>
          (s.setSlot c slot).setCall c call
      else none
  | .call c a =>
      ((s.calls c).step c (s.slot c) a).map fun (call, slot) =>
        (s.setSlot c slot).setCall c call
  | .dispose c => disposeStep s c
  | .gcTake =>
      match s.gc, s.orphans with
      | .loop, c :: rest =>
          if s.orphansClosed then none
          else some { s with orphans := rest, gc := .attempt c none .tryLock }
      | _, _ => none
  | .gcTimeout => if s.gc = .loop ∧ s.backlog ≠ [] then some (s.setGc .check) else none
  | .gcStop => if s.gc = .loop ∧ s.orphansClosed then some (s.setGc .stopped) else none
  | .gcStep => gcStep s
  | .gcCheck scan =>
      if s.gc = .check then
        some (s.setGc (if scan ∧ s.backlog ≠ [] then .scan 0 else .loop))
      else none
  | .closeOrphans => some { s with orphansClosed := true }
  | .allocBuffer =>
      some { s with buffers := s.buffers + 1, bufferAlloc := s.bufferAlloc + 1 }
  | .freeBuffer b =>
      some { s with
        frees := Function.update s.frees b
          { s.frees b with byClient := (s.frees b).byClient + 1 }
        bufferFree := s.bufferFree + 1 }

/-- The pool and everyone who uses it as a scheduled system. -/
def system : Scheduled (State τ ρ) (Act τ ρ) where
  init := initial
  step := step

end Step

end Libraft.Pool
