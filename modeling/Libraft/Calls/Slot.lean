import Libraft.Foundation.CondVar
import Mathlib.Data.UInt
import Mathlib.Logic.Function.Basic

/-!
# Call slots

The enumerations of `raft_shm.h` and `raft_defs.h`, and `BaseSlot`: the part
of a call which the client, the Raft side and the background threads share.
Its operations are given statement by statement, so that other threads can
come in between.

## Implementation notes

Every operation is a small program. A step takes the slot and the position of
the program to the new slot and the next position; no position means that the
operation has returned. A blocked acquisition has no step. A failed assertion
has no step either, since it ends the process. The timing records of a slot
are written by some of these steps and read by none of them, so they are left
out; their steps remain, because they touch the slot.
-/

namespace Libraft.Calls

open Libraft.Foundation

inductive CallTag
  | invalid | apply | barrier | verifyLeader
  | getState | lastContact | lastIndex | getLeader
  | addPeer | removePeer | setPeers | shutdown | snapshot | stats
  | fsmApply | fsmSnapshot | fsmRestore
  deriving DecidableEq, Repr

/-- `has_ret` of the call with the given tag. -/
def CallTag.hasRet : CallTag → Bool
  | .apply | .barrier | .getState | .lastContact | .lastIndex | .getLeader | .stats => true
  | .fsmApply => true
  | _ => false

inductive CallState
  | pending | dispatched | success | error
  deriving DecidableEq, Repr

inductive ClientState
  | issued | observed | abandoned
  deriving DecidableEq, Repr

inductive RaftError
  | success | leader | notLeader | leadershipLost | shutdown | enqueueTimeout
  | knownPeer | unknownPeer | logNotFound | pipelineReplicationNotSupp
  | transportShutdown | pipelineShutdown | other | invalidOp | invalidAddress
  | resolve | inShutdown
  deriving DecidableEq, Repr

inductive RaftLogType
  | command | noop | addPeer | removePeer | barrier
  deriving DecidableEq, Repr

def isTerminal : CallState → Bool
  | .pending | .dispatched => false
  | .success | .error => true

/-- The state in which `reply(err)` leaves the slot. -/
def RaftError.finalState (err : RaftError) : CallState :=
  if err = .success then .success else .error

@[simp] theorem isTerminal_finalState (err : RaftError) : isTerminal err.finalState = true := by
  unfold RaftError.finalState
  split <;> rfl

/-- `BaseSlot`; `A` names the threads which can hold its mutex. -/
structure BaseSlot (A : Type*) where
  owned : Option A
  retCond : CondVar A
  tag : CallTag
  state : CallState
  clientState : ClientState
  retval : UInt64
  error : RaftError

variable {A : Type*}

/-- The constructor of `BaseSlot`. -/
def BaseSlot.new (tag : CallTag) : BaseSlot A where
  owned := none
  retCond := .empty
  tag := tag
  state := .pending
  clientState := .issued
  retval := 0
  error := .success

/-- The statements of the two overloads of `reply`. -/
inductive Reply
  /-- `retval = retval_` -/
  | retval (val : UInt64)
  /-- `error = err` -/
  | error (err : RaftError)
  /-- `assert(! is_terminal(state))` and the store to `state` -/
  | state (err : RaftError)
  /-- `ret_cond.notify_one()` -/
  | notify
  /-- `timings.record("reply sent")` -/
  | record
  deriving DecidableEq, Repr

/-- The statements of `wait`. -/
inductive Wait
  | lock
  /-- the predicate of `ret_cond.wait` -/
  | test
  | blocked
  /-- `client_state = ClientState::Observed` -/
  | observe
  /-- `timings.record("result received")` and the end of the lock's scope -/
  | unlock
  deriving DecidableEq, Repr

section Steps
variable [DecidableEq A]

/-- One statement of `reply`; `w` is the thread woken by `notify_one`. -/
def BaseSlot.reply (slot : BaseSlot A) (w : Option A) :
    Reply → Option (BaseSlot A × Option Reply)
  | .retval val => some ({ slot with retval := val }, some (.error .success))
  | .error err => some ({ slot with error := err }, some (.state err))
  | .state err =>
      if isTerminal slot.state then none
      else some ({ slot with state := err.finalState }, some .notify)
  | .notify =>
      (slot.retCond.notifyOne w).map fun c => ({ slot with retCond := c }, some .record)
  | .record => some (slot, none)

/-- One statement of `wait` by thread `a`. -/
def BaseSlot.wait (slot : BaseSlot A) (a : A) : Wait → Option (BaseSlot A × Option Wait)
  | .lock =>
      if slot.owned.isNone then some ({ slot with owned := some a }, some .test) else none
  | .test =>
      if isTerminal slot.state then some (slot, some .observe)
      else some ({ slot with owned := none, retCond := slot.retCond.wait a }, some .blocked)
  | .blocked =>
      if slot.owned.isNone ∧ a ∈ slot.retCond.notified then
        some ({ slot with owned := some a, retCond := slot.retCond.resume a }, some .test)
      else none
  | .observe => some ({ slot with clientState := .observed }, some .unlock)
  | .unlock => some ({ slot with owned := none }, none)

end Steps

section ReplySpec
variable {first r : Reply} {slot slot' : BaseSlot A}

/-- The reply which begins with `first` is on its way to the error `err`, and
its return value, if it has one, is in the slot. -/
def Reply.Stores (first : Reply) (slot : BaseSlot A) (err : RaftError) : Prop :=
  first = .error err ∨ (first = .retval slot.retval ∧ err = .success)

/-- The reply which began with `first` comes to its statement `r`. -/
def Reply.Underway (first : Reply) (slot : BaseSlot A) : Reply → Prop
  | .retval val => first = .retval val
  | .error err => first.Stores slot err
  | .state err => slot.error = err ∧ first.Stores slot err
  | .notify | .record => slot.state = slot.error.finalState ∧ first.Stores slot slot.error

/-- The reply which began with `first` has returned. -/
def Reply.Finished (first : Reply) (slot : BaseSlot A) : Prop :=
  slot.state = slot.error.finalState ∧ first.Stores slot slot.error

/-- The statements which come before the store to `state`. -/
def Reply.beforeStore : Reply → Bool
  | .retval _ | .error _ | .state _ => true
  | .notify | .record => false

variable [DecidableEq A] {w : Option A} {next : Option Reply}

/-- Each statement of a reply takes it to the next one. -/
theorem Reply.Underway.step (h : first.Underway slot r)
    (hr : slot.reply w r = some (slot', next)) :
    match next with
    | some r' => first.Underway slot' r'
    | none => first.Finished slot' := by
  cases r with
  | retval val =>
      cases hr
      exact .inr ⟨h, rfl⟩
  | error err =>
      cases hr
      exact ⟨rfl, h⟩
  | state err =>
      simp only [BaseSlot.reply] at hr
      split at hr <;> cases hr
      obtain ⟨rfl, hs⟩ := h
      exact ⟨rfl, hs⟩
  | notify =>
      obtain ⟨c, -, hc⟩ := Option.map_eq_some_iff.mp hr
      cases hc
      exact h
  | record =>
      cases hr
      exact h

/-- A reply lets nobody wait. -/
theorem BaseSlot.waiting_subset_of_reply (hr : slot.reply w r = some (slot', next)) :
    slot'.retCond.waiting ⊆ slot.retCond.waiting := by
  cases r with
  | retval val | error err | record =>
      cases hr
      exact subset_rfl
  | state err =>
      simp only [BaseSlot.reply] at hr
      split at hr <;> cases hr
      exact subset_rfl
  | notify =>
      obtain ⟨c, hn, hc⟩ := Option.map_eq_some_iff.mp hr
      cases hc
      exact CondVar.waiting_subset_of_notifyOne hn

/-- A reply leaves the mutex to its caller, and the tag as it is. -/
theorem BaseSlot.frame_of_reply (hr : slot.reply w r = some (slot', next)) :
    slot'.owned = slot.owned ∧ slot'.tag = slot.tag := by
  cases r with
  | retval val | error err | record =>
      cases hr
      exact ⟨rfl, rfl⟩
  | state err =>
      simp only [BaseSlot.reply] at hr
      split at hr <;> cases hr
      exact ⟨rfl, rfl⟩
  | notify =>
      obtain ⟨c, -, hc⟩ := Option.map_eq_some_iff.mp hr
      cases hc
      exact ⟨rfl, rfl⟩

theorem BaseSlot.tag_of_wait {a : A} {pc : Wait} {pc' : Option Wait}
    (hw : slot.wait a pc = some (slot', pc')) : slot'.tag = slot.tag := by
  cases pc with
  | lock | test | blocked =>
      simp only [BaseSlot.wait] at hw
      split at hw <;> cases hw <;> rfl
  | observe | unlock =>
      cases hw
      rfl

omit [DecidableEq A] in
/-- A finished reply leaves the slot in a terminal state. -/
theorem Reply.Finished.isTerminal {first : Reply} {slot : BaseSlot A} (h : first.Finished slot) :
    isTerminal slot.state = true := by
  rw [h.1, isTerminal_finalState]

end ReplySpec

end Libraft.Calls
