import Libraft.Foundation.Scheduled
import Libraft.Foundation.CondVar
import Libraft.Foundation.CyclicWindow
import Mathlib.Data.UInt
import Mathlib.Tactic.Simps.Basic

/-!
# The bounded blocking queue

`ArrayBlockingQueue` of `queue.h`: a circular buffer behind one mutex and two
condition variables. The first `check_closed` of `put` and `take` runs before
the mutex is taken; the one inside the waiting loop runs with the mutex held.
Any number of threads call `put`, `take` and `close`.

## Implementation notes

A thread is interrupted at the unlocked `check_closed`, before and after the
acquisition of the mutex, at the loop test, while it is blocked, and after it
has woken up. The statements behind the loop run as one step: all of them
work on members which only the holder of the mutex reads or writes. `close`
is interrupted between its statements, since `closed` is read without the
mutex. The array is indexed by natural numbers and `head`, `tail` and `count`
wrap as `uint32_t`, so that an index outside the array would be visible.
-/

namespace Libraft.Queue.ArrayBlockingQueue

open Libraft.Foundation

variable {T ι : Type*}

/-- The members guarded by the mutex. -/
structure Ring (T : Type*) where
  array : ℕ → T
  head : UInt32
  tail : UInt32
  count : UInt32

/-- The index behind `i`; the source returns `i` and stores the new index. -/
def inc (cap i : UInt32) : UInt32 := if i = cap - 1 then 0 else i + 1

/-- `array[inc(head)] = val; ++count`. -/
def Ring.put (cap : UInt32) (r : Ring T) (val : T) : Ring T :=
  { array := Function.update r.array r.head.toNat val
    head := inc cap r.head
    tail := r.tail
    count := r.count + 1 }

/-- `val = array[inc(tail)]; --count`. -/
def Ring.take (cap : UInt32) (r : Ring T) : T × Ring T :=
  (r.array r.tail.toNat, { r with tail := inc cap r.tail, count := r.count - 1 })

/-- The two operations which pass through the waiting loop. -/
inductive Op (T : Type*)
  | put (val : T)
  | take
  deriving DecidableEq

/-- How an operation ends: normally, or by throwing `queue_closed`. -/
inductive Outcome (T : Type*)
  | putDone (val : T)
  | takeDone (val : T)
  | putClosed (val : T)
  | takeClosed
  | closeDone
  deriving DecidableEq

/-- The condition of the waiting loop. -/
def Op.blocks (cap : UInt32) (r : Ring T) : Op T → Bool
  | .put _ => r.count == cap
  | .take => r.count == 0

/-- The operation throws `queue_closed`. -/
def Op.thrown : Op T → Outcome T
  | .put val => .putClosed val
  | .take => .takeClosed

/-- Where a thread stands. -/
inductive Pc (T : Type*)
  | idle
  /-- before the unlocked `check_closed` -/
  | check (op : Op T)
  /-- before `lock(mutex)` -/
  | lock (op : Op T)
  /-- holds the mutex, before the loop test -/
  | loop (op : Op T)
  /-- blocked in `not_full.wait` or `not_empty.wait` -/
  | wait (op : Op T)
  /-- holds the mutex again, before the `check_closed` of the loop -/
  | recheck (op : Op T)
  /-- holds the mutex, behind the loop -/
  | body (op : Op T)
  | closeLock
  | closeStore
  | closeNotifyFull
  | closeNotifyEmpty
  | closeUnlock
  | done (out : Outcome T)
  deriving DecidableEq

/-- The positions between acquiring and releasing the mutex. -/
def Pc.holds : Pc T → Bool
  | .loop _ | .recheck _ | .body _ => true
  | .closeStore | .closeNotifyFull | .closeNotifyEmpty | .closeUnlock => true
  | _ => false

/-- One queue together with all threads using it. `log` lists the ends of
operations in the order in which they happened. -/
structure State (T ι : Type*) where
  ring : Ring T
  closed : Bool
  mutex : Option ι
  notEmpty : CondVar ι
  notFull : CondVar ι
  pc : ι → Pc T
  log : List (Outcome T)

/-- Zero-initialised memory: the cells hold whatever value zero bytes mean. -/
def initial (cells : ℕ → T) : State T ι where
  ring := ⟨cells, 0, 0, 0⟩
  closed := false
  mutex := none
  notEmpty := .empty
  notFull := .empty
  pc := fun _ => .idle
  log := []

/-- What the scheduler decides. `step t w` runs the next step of `t`; when
that step is a `notify_one`, it wakes `w`. -/
inductive Act (T ι : Type*)
  | call (t : ι) (op : Op T)
  | callClose (t : ι)
  | step (t : ι) (w : Option ι)
  /-- a wakeup without notification -/
  | spurious (t : ι)
  /-- the caller goes on with the outcome -/
  | leave (t : ι)

section Step
variable [DecidableEq ι]

@[simps] def State.goto (s : State T ι) (t : ι) (p : Pc T) : State T ι :=
  { s with pc := Function.update s.pc t p }

@[simps] def State.finish (s : State T ι) (t : ι) (out : Outcome T) : State T ι :=
  { s with pc := Function.update s.pc t (.done out), log := s.log ++ [out] }

/-- The condition variable on which an operation waits. -/
def State.cond (s : State T ι) : Op T → CondVar ι
  | .put _ => s.notFull
  | .take => s.notEmpty

def State.setCond (s : State T ι) (c : CondVar ι) : Op T → State T ι
  | .put _ => { s with notFull := c }
  | .take => { s with notEmpty := c }

/-- The next step of thread `t`. -/
def next (cap : UInt32) (s : State T ι) (t : ι) (w : Option ι) : Option (State T ι) :=
  match s.pc t with
  | .idle | .done _ => none
  | .check op => some (if s.closed then s.finish t op.thrown else s.goto t (.lock op))
  | .lock op =>
      if s.mutex.isNone then some ({ s with mutex := some t }.goto t (.loop op)) else none
  | .loop op =>
      some (if op.blocks cap s.ring then
        ({ s with mutex := none }.setCond ((s.cond op).wait t) op).goto t (.wait op)
      else s.goto t (.body op))
  | .wait op =>
      if s.mutex.isNone ∧ t ∈ (s.cond op).notified then
        some (({ s with mutex := some t }.setCond ((s.cond op).resume t) op).goto t
          (.recheck op))
      else none
  | .recheck op =>
      some (if s.closed then { s with mutex := none }.finish t op.thrown
        else s.goto t (.loop op))
  | .body (.put val) =>
      (s.notEmpty.notifyOne w).map fun c =>
        { s with ring := s.ring.put cap val, notEmpty := c, mutex := none }.finish t
          (.putDone val)
  | .body .take =>
      (s.notFull.notifyOne w).map fun c =>
        { s with ring := (s.ring.take cap).2, notFull := c, mutex := none }.finish t
          (.takeDone (s.ring.take cap).1)
  | .closeLock =>
      if s.mutex.isNone then some ({ s with mutex := some t }.goto t .closeStore) else none
  | .closeStore => some ({ s with closed := true }.goto t .closeNotifyFull)
  | .closeNotifyFull =>
      some ({ s with notFull := s.notFull.notifyAll }.goto t .closeNotifyEmpty)
  | .closeNotifyEmpty =>
      some ({ s with notEmpty := s.notEmpty.notifyAll }.goto t .closeUnlock)
  | .closeUnlock => some ({ s with mutex := none }.finish t .closeDone)

def step (cap : UInt32) (s : State T ι) : Act T ι → Option (State T ι)
  | .call t op =>
      match s.pc t with
      | .idle => some (s.goto t (.check op))
      | _ => none
  | .callClose t =>
      match s.pc t with
      | .idle => some (s.goto t .closeLock)
      | _ => none
  | .step t w => next cap s t w
  | .spurious t =>
      if t ∈ s.notFull.waiting then some { s with notFull := s.notFull.wake t }
      else if t ∈ s.notEmpty.waiting then some { s with notEmpty := s.notEmpty.wake t }
      else none
  | .leave t =>
      match s.pc t with
      | .done _ => some (s.goto t .idle)
      | _ => none

/-- The queue with all its threads as a scheduled system. -/
def system (cap : UInt32) (cells : ℕ → T) : Scheduled (State T ι) (Act T ι) where
  init := initial cells
  step := step cap

end Step

end Libraft.Queue.ArrayBlockingQueue
