import Libraft.Calls.Slot

/-!
# One call of the client API

The life of a call from `alloc_request_` to its deallocation, as far as it
touches the call's own slot: `send_request` and `make_error_request` filling
in an error, the operations on the future (`raft_future_wait`,
`raft_future_poll`, `raft_future_wait_for`, `CallSlot::get_ptr`,
`future_get`), the reply of the Raft side, and the switch of
`CallSlot::dispose`.

## Implementation notes

A step takes the call and the slot its pointer leads to, and gives both back.
Nothing here says that the slot is still the call's own: that is for the pool
to know. Several client threads may work on one future at the same time;
`active` lists them, and a future is disposed of when none is left. The Raft
side is not part of the repository. It locks the slot once, replies at most
once, and leaves it.

The fields from `outcome` on are history: they record what the call was
completed with, which operations were called, and what disposal has done. No
step reads them.
-/

namespace Libraft.Pool

open Libraft.Foundation Libraft.Calls

/-- A node of the allocator for calls with the given tag. -/
abbrev Addr := CallTag × ℕ

/-- The threads which can hold a slot's mutex: client threads, the thread of the
Raft side which works on call `c`, and the orphan collector. -/
inductive Actor (τ : Type*)
  | client (t : τ)
  | raft (c : ℕ)
  | gc
  deriving DecidableEq

/-- Operations on a future. The flag says whether the result pointer is non-null;
`leader` is the use `raft_leader` makes of `future_eat`. -/
inductive Op
  | wait
  | poll
  | waitFor
  | getFsmReply (res : Bool)
  | getStats (res : Bool)
  | futureGet
  | leader
  deriving DecidableEq, Repr

inductive Result
  | waited (err : RaftError)
  | polled (terminal : Bool)
  /-- the error returned, and the value written, if any -/
  | got (err : RaftError) (val : Option UInt64)
  /-- refused without looking at the outcome -/
  | refused (err : RaftError)
  | assertFailed
  deriving DecidableEq, Repr

/-- The statements of `poll` and of `wait_for`: `wait_for` may stay blocked in
front of the mutex until its time is over, and then gives up like `poll`. -/
inductive Poll
  | tryLock
  | test
  | unlock (terminal : Bool)
  deriving DecidableEq, Repr

/-- Where a client thread stands in an operation on the future. -/
inductive Use
  | idle
  /-- inside `BaseSlot::wait` -/
  | waiting (op : Op) (pc : Wait)
  /-- `return slot->error` of `raft_future_wait` -/
  | readError (op : Op)
  | polling (op : Op) (pc : Poll)
  /-- the unlocked `is_terminal(state)` of `get_ptr` and `future_get` -/
  | test (op : Op)
  /-- reading the result; `fast` says that the unlocked test found a terminal state -/
  | value (op : Op) (fast : Bool)
  | done (op : Op) (fast : Bool) (res : Result)
  deriving DecidableEq, Repr

/-- The positions at which a client thread holds the slot's mutex. -/
def Use.holds : Use → Bool
  | .waiting _ .test | .waiting _ .observe | .waiting _ .unlock => true
  | .polling _ .test | .polling _ (.unlock _) => true
  | _ => false

/-- Where the creating thread stands. -/
inductive Create
  /-- before `allocate_one`; an error is the argument of `make_error_request` -/
  | allocate (err : Option RaftError)
  | enqueue
  /-- inside `queue.put` -/
  | sending
  | setError (err : RaftError)
  | setState (err : RaftError)
  deriving DecidableEq, Repr

/-- The statements of `CallSlot::dispose`. -/
inductive Dispose
  | load
  /-- `client_state = ClientState::Abandoned` -/
  | abandon
  | track
  /-- `orphan_cleanup(args)` -/
  | cleanup
  | deallocate
  /-- `stats->call_free.inc()` -/
  | count
  deriving DecidableEq, Repr

/-- Who is responsible for the call. -/
inductive Life
  | unborn
  | creating (pc : Create)
  /-- the client has the future -/
  | held
  /-- inside `dispose`, called by the client or by the collector -/
  | disposing (byGc : Bool) (pc : Dispose)
  /-- handed to the collector -/
  | orphaned
  /-- `track_orphan` threw `queue_closed` out of `dispose` -/
  | thrown
  /-- `dispose` has deallocated the slot and returned -/
  | gone
  deriving DecidableEq, Repr

/-- The Raft side's work on a call it has taken. -/
inductive Raft
  | idle
  | locked
  | replying (r : Reply)
  | replied
  | done
  deriving DecidableEq, Repr

def Raft.holds : Raft → Bool
  | .locked | .replying _ | .replied => true
  | .idle | .done => false

structure Call (τ : Type*) where
  addr : Addr
  tag : CallTag
  /-- the command buffer of an Apply, if it lies in the segment -/
  buf : Option ℕ
  life : Life
  raft : Raft
  uses : τ → Use
  active : Finset τ
  /-- what the call is completed with, from the moment the completion starts -/
  outcome : Option (RaftError × UInt64)
  /-- a terminal state has been stored -/
  completed : Bool
  /-- the value of `client_state` -/
  client : ClientState
  /-- the creating thread has failed the call -/
  rejected : Bool
  /-- `raft_future_wait` was called -/
  waitCalled : Bool
  /-- an unlocked test found the call without a result -/
  foundPending : Bool
  /-- an operation has told the client the final outcome -/
  revealed : Bool
  /-- the call went through `track_orphan` -/
  handed : Bool
  frees : ℕ
  cleanups : ℕ

variable {τ : Type*}

/-- A call number which has not been used. -/
def Call.unborn : Call τ where
  addr := (.invalid, 0)
  tag := .invalid
  buf := none
  life := .unborn
  raft := .idle
  uses := fun _ => .idle
  active := ∅
  outcome := none
  completed := false
  client := .issued
  rejected := false
  waitCalled := false
  foundPending := false
  revealed := false
  handed := false
  frees := 0
  cleanups := 0

/-- `raft_leader` and `raft_future_get_stats` assert that the returned handle is not null. -/
def Op.checksHandle : Op → Bool
  | .leader | .getStats _ => true
  | _ => false

/-- The operations which go through `future_get`. -/
def Op.isGet : Op → Bool
  | .leader | .getStats _ | .futureGet => true
  | _ => false

/-- What an operation does first, with the checks of its arguments. -/
def Op.first (tag : CallTag) : Op → Use
  | .wait => .waiting .wait .lock
  | .poll => .polling .poll .tryLock
  | .waitFor => .polling .waitFor .tryLock
  | .getFsmReply res =>
      if tag = .apply then .test (.getFsmReply res)
      else .done (.getFsmReply res) false (.refused .invalidOp)
  | .getStats res =>
      if tag = .stats then
        if res then .test (.getStats res)
        else .done (.getStats res) false (.refused .invalidAddress)
      else .done (.getStats res) false (.refused .invalidOp)
  | .futureGet => .test .futureGet
  | .leader => .test .leader

/-- What follows when `BaseSlot::wait` returns: `get_ptr` goes on with the
result, the others are inside `raft_future_wait`. -/
def Op.afterWait : Op → Use
  | .getFsmReply res => .value (.getFsmReply res) false
  | op => .readError op

/-- What an operation does with the error which `raft_future_wait` returns. -/
def Op.withError (op : Op) (err : RaftError) : Use :=
  if op.isGet then
    if err = .success then .value op false else .done op false (.got err none)
  else .done op false (.waited err)

/-- The end of `get_ptr`. -/
def getPtrResult (tag : CallTag) (res : Bool) (err : RaftError) (retval : UInt64) : Result :=
  if tag.hasRet then
    if res then
      if err = .success then .got err (some retval) else .got err none
    else .refused .invalidAddress
  else .refused .invalidOp

/-- The end of `future_get` with a zero error, and the caller's assertion. -/
def futureGetResult (tag : CallTag) (op : Op) (retval : UInt64) : Result :=
  if tag.hasRet then
    if op.checksHandle && retval = 0 then .assertFailed else .got .success (some retval)
  else .assertFailed

def Op.result (tag : CallTag) (op : Op) (err : RaftError) (retval : UInt64) : Result :=
  match op with
  | .getFsmReply res => getPtrResult tag res err retval
  | op => futureGetResult tag op retval

section Steps
variable [DecidableEq τ]

/-- The next statement of the operation which thread `t` is in. -/
def Use.step (tag : CallTag) (slot : BaseSlot (Actor τ)) (t : τ) :
    Use → Option (Use × BaseSlot (Actor τ))
  | .idle | .done _ _ _ => none
  | .waiting op pc =>
      (slot.wait (.client t) pc).map fun (slot', pc') =>
        (match pc' with
          | some pc' => .waiting op pc'
          | none => op.afterWait, slot')
  | .readError op => some (op.withError slot.error, slot)
  | .polling op .tryLock =>
      some (if slot.owned.isNone then
        (.polling op .test, { slot with owned := some (.client t) })
      else (.done op false (.polled false), slot))
  | .polling op .test => some (.polling op (.unlock (isTerminal slot.state)), slot)
  | .polling op (.unlock terminal) =>
      some (.done op false (.polled terminal), { slot with owned := none })
  | .test op =>
      some (if isTerminal slot.state then .value op true else .waiting op .lock, slot)
  | .value op fast => some (.done op fast (op.result tag slot.error slot.retval), slot)

/-- The operation has told its caller how the call ended. -/
def Use.reveals : Use → Bool
  | .done _ _ (.waited _) => true
  | .done _ _ (.polled terminal) => terminal
  | .done (.getFsmReply _) _ (.got _ _) | .done (.getStats _) _ (.got _ _) => true
  | _ => false

inductive CallAct (τ : Type*)
  /-- the creating thread stores the error, then the state -/
  | fail
  | start (t : τ) (op : Op)
  | use (t : τ)
  | leave (t : τ)
  /-- a wakeup of thread `t` without notification -/
  | wake (t : τ)
  | raftLock
  /-- the Raft side calls `reply(retval)` or `reply(err)` -/
  | raftReply (retval : Option UInt64) (err : RaftError)
  | raft (w : Option (Actor τ))
  | raftUnlock
  /-- `raft_future_dispose` is called -/
  | dispose
  /-- the load of `client_state`, and the store of `Abandoned` -/
  | disposeStep

/-- A thread moves on in its operation; the history follows. -/
def Call.setUse (call : Call τ) (t : τ) (old new : Use) : Call τ :=
  { call with
    uses := Function.update call.uses t new
    client := match old with
      | .waiting _ .observe => .observed
      | _ => call.client
    foundPending := match old, new with
      | .test _, .waiting _ _ => true
      | _, _ => call.foundPending
    revealed := call.revealed || new.reveals }

/-- The branch of `dispose`. -/
def Dispose.branch : ClientState → Dispose
  | .issued => .abandon
  | .observed => .deallocate
  | .abandoned => .cleanup

/-- One step on the slot of call `c`. -/
def Call.step (c : ℕ) (call : Call τ) (slot : BaseSlot (Actor τ)) :
    CallAct τ → Option (Call τ × BaseSlot (Actor τ))
  | .fail =>
      match call.life with
      | .creating (.setError err) =>
          some ({ call with life := .creating (.setState err) }, { slot with error := err })
      | .creating (.setState _) =>
          some ({ call with life := .held, completed := true }, { slot with state := .error })
      | _ => none
  | .start t op =>
      if call.life = .held ∧ call.uses t = .idle then
        some ({ call.setUse t .idle (op.first call.tag) with
          active := insert t call.active
          waitCalled := call.waitCalled || op = .wait }, slot)
      else none
  | .use t =>
      ((call.uses t).step call.tag slot t).map fun (use, slot') =>
        (call.setUse t (call.uses t) use, slot')
  | .leave t =>
      match call.uses t with
      | .done _ _ _ =>
          some ({ call with
            uses := Function.update call.uses t .idle
            active := call.active.erase t }, slot)
      | _ => none
  | .wake t =>
      if .client t ∈ slot.retCond.waiting then
        some (call, { slot with retCond := slot.retCond.wake (.client t) })
      else none
  | .raftLock =>
      if call.raft = .idle ∧ slot.owned.isNone then
        some ({ call with raft := .locked }, { slot with owned := some (.raft c) })
      else none
  | .raftReply retval err =>
      if call.raft = .locked then
        match retval with
        | some val =>
            some ({ call with
              raft := .replying (.retval val), outcome := some (.success, val) }, slot)
        | none =>
            some ({ call with raft := .replying (.error err), outcome := some (err, 0) }, slot)
      else none
  | .raft w =>
      match call.raft with
      | .replying r =>
          (slot.reply w r).map fun (slot', r') =>
            ({ call with
                raft := match r' with
                  | some r' => .replying r'
                  | none => .replied
                completed := match r with
                  | .state _ => true
                  | _ => call.completed }, slot')
      | _ => none
  | .raftUnlock =>
      if call.raft = .locked ∨ call.raft = .replied then
        some ({ call with raft := .done }, { slot with owned := none })
      else none
  | .dispose =>
      if call.life = .held ∧ call.active = ∅ then
        some ({ call with life := .disposing false .load }, slot)
      else none
  | .disposeStep =>
      match call.life with
      | .disposing byGc .load =>
          some ({ call with life := .disposing byGc (.branch slot.clientState) }, slot)
      | .disposing byGc .abandon =>
          some ({ call with life := .disposing byGc .track, client := .abandoned },
            { slot with clientState := .abandoned })
      | _ => none

end Steps

end Libraft.Pool
