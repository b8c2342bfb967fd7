import Libraft.Foundation.Scheduled
import Libraft.Pool.CallSpec

/-!
# One slot and everybody who works on it

Any number of client threads run operations on the future, any number of
repliers call `reply` or `raft_fsm_snapshot_complete`, and `dispose` is called
in between. Nothing is assumed about how often and in which order this is done.

## Implementation notes

Every caller of `reply` holds `owned`: the FSM worker since it took the slot,
`raft_fsm_snapshot_complete` by itself. A replier is a thread which locks the
slot, makes one call of `reply` and unlocks it; a thread which replies twice is
two repliers. When the assertion of `reply` fails the process ends, and the
replier makes no further step; the slot stays in the shared segment as it is.
-/

namespace Libraft.Pool

open Libraft.Foundation Libraft.Calls

variable {τ : Type*}

/-- The ways to answer a slot. -/
inductive Answer
  | error (err : RaftError)
  | retval (val : UInt64)
  | snapshotComplete (success : Bool)
  deriving DecidableEq, Repr

/-- The first statement of the `reply` which the answer is made with. -/
def Answer.first : Answer → Reply
  | .error err => .error err
  | .retval val => .retval val
  | .snapshotComplete success => .error (if success then .success else .other)

/-- Where a replier stands. -/
inductive Replier
  | idle
  /-- before `lock(owned)` -/
  | lock (ans : Answer)
  /-- before the first statement of `reply` -/
  | call (ans : Answer)
  /-- behind the first statement of `reply` -/
  | replying (r : Reply)
  | unlock
  | done
  deriving DecidableEq, Repr

def Replier.holds : Replier → Bool
  | .call _ | .replying _ | .unlock => true
  | .idle | .lock _ | .done => false

/-- The statement of `reply` which comes next. -/
def Replier.statement : Replier → Option Reply
  | .call ans => some ans.first
  | .replying r => some r
  | _ => none

/-- Where a replier stands when `next` is what is left of `reply`. -/
def Replier.after : Option Reply → Replier
  | some r => .replying r
  | none => .unlock

structure Shared (τ : Type*) where
  slot : BaseSlot (Actor τ)
  uses : τ → Use
  repliers : ℕ → Replier
  disposal : Option Dispose
  deallocated : Bool

def Shared.initial (tag : CallTag) : Shared τ where
  slot := .new tag
  uses := fun _ => .idle
  repliers := fun _ => .idle
  disposal := none
  deallocated := false

inductive SharedAct (τ : Type*)
  | start (t : τ) (op : Op)
  | use (t : τ)
  | leave (t : τ)
  /-- a wakeup of thread `t` without notification -/
  | wake (t : τ)
  | answer (n : ℕ) (ans : Answer)
  /-- the next step of a replier; `w` is woken by `notify_one` -/
  | replier (n : ℕ) (w : Option (Actor τ))
  | dispose
  | disposeStep

section Step
variable [DecidableEq τ]

def Shared.replierStep (s : Shared τ) (n : ℕ) (w : Option (Actor τ)) : Option (Shared τ) :=
  match s.repliers n with
  | .idle | .done => none
  | .lock ans =>
      if s.slot.owned.isNone then
        some { s with slot := { s.slot with owned := some (.raft n) }
                      repliers := Function.update s.repliers n (.call ans) }
      else none
  | .call ans =>
      (s.slot.reply w ans.first).map fun (slot, r) =>
        { s with slot := slot
                 repliers := Function.update s.repliers n (.after r) }
  | .replying r =>
      (s.slot.reply w r).map fun (slot, r) =>
        { s with slot := slot
                 repliers := Function.update s.repliers n (.after r) }
  | .unlock =>
      some { s with slot := { s.slot with owned := none }
                    repliers := Function.update s.repliers n .done }

/-- The statements of `CallSlot::dispose`. -/
def Shared.disposeStep (s : Shared τ) : Option (Shared τ) :=
  match s.disposal with
  | some .load => some { s with disposal := some (.branch s.slot.clientState) }
  | some .abandon =>
      some { s with slot := { s.slot with clientState := .abandoned }
                    disposal := some .track }
  | some .track => some { s with disposal := none }
  | some .cleanup => some { s with disposal := some .deallocate }
  | some .deallocate => some { s with disposal := some .count, deallocated := true }
  | some .count | none => none

/-- No step touches a slot which has been deallocated. -/
def Shared.step (s : Shared τ) (a : SharedAct τ) : Option (Shared τ) :=
  if s.deallocated then none
  else match a with
  | .start t op =>
      match s.uses t with
      | .idle => some { s with uses := Function.update s.uses t (op.first s.slot.tag) }
      | _ => none
  | .use t =>
      ((s.uses t).step s.slot.tag s.slot t).map fun (use, slot) =>
        { s with slot := slot, uses := Function.update s.uses t use }
  | .leave t =>
      match s.uses t with
      | .done _ _ _ => some { s with uses := Function.update s.uses t .idle }
      | _ => none
  | .wake t =>
      if .client t ∈ s.slot.retCond.waiting then
        some { s with slot := { s.slot with retCond := s.slot.retCond.wake (.client t) } }
      else none
  | .answer n ans =>
      match s.repliers n with
      | .idle => some { s with repliers := Function.update s.repliers n (.lock ans) }
      | _ => none
  | .replier n w => s.replierStep n w
  | .dispose =>
      match s.disposal with
      | none => some { s with disposal := some .load }
      | some _ => none
  | .disposeStep => s.disposeStep

/-- One slot with everybody who works on it as a scheduled system. -/
def sharing (tag : CallTag) : Scheduled (Shared τ) (SharedAct τ) where
  init := .initial tag
  step := Shared.step

/-- The transitions of the system. -/
inductive SharedTrans (s : Shared τ) : SharedAct τ → Shared τ → Prop
  | start {t op} (h : s.uses t = .idle) :
      SharedTrans s (.start t op)
        { s with uses := Function.update s.uses t (op.first s.slot.tag) }
  | use {t use slot} (h : UseTrans s.slot.tag s.slot t (s.uses t) use slot) :
      SharedTrans s (.use t) { s with slot := slot, uses := Function.update s.uses t use }
  | leave {t op fast res} (h : s.uses t = .done op fast res) :
      SharedTrans s (.leave t) { s with uses := Function.update s.uses t .idle }
  | wake {t} (h : .client t ∈ s.slot.retCond.waiting) :
      SharedTrans s (.wake t)
        { s with slot := { s.slot with retCond := s.slot.retCond.wake (.client t) } }
  | answer {n ans} (h : s.repliers n = .idle) :
      SharedTrans s (.answer n ans)
        { s with repliers := Function.update s.repliers n (.lock ans) }
  | lock {n w ans} (h : s.repliers n = .lock ans) (ho : s.slot.owned = none) :
      SharedTrans s (.replier n w)
        { s with slot := { s.slot with owned := some (.raft n) }
                 repliers := Function.update s.repliers n (.call ans) }
  | statement {n w r slot next} (h : (s.repliers n).statement = some r)
      (hr : s.slot.reply w r = some (slot, next)) :
      SharedTrans s (.replier n w)
        { s with slot := slot
                 repliers := Function.update s.repliers n (.after next) }
  | unlock {n w} (h : s.repliers n = .unlock) :
      SharedTrans s (.replier n w)
        { s with slot := { s.slot with owned := none }
                 repliers := Function.update s.repliers n .done }
  | dispose {a} {disposal : Option Dispose} {deallocated : Bool} {client : ClientState}
      (h : a = .dispose ∨ a = .disposeStep) :
      SharedTrans s a
        { s with slot := { s.slot with clientState := client }
                 disposal := disposal, deallocated := deallocated }

variable {s s' : Shared τ}

theorem sharedTrans_of_replierStep {n : ℕ} {w : Option (Actor τ)}
    (h : s.replierStep n w = some s') : SharedTrans s (.replier n w) s' := by
  unfold Shared.replierStep at h
  split at h
  case h_1 | h_2 => cases h
  case h_3 ans hr =>
      split at h <;> rename_i ho <;> cases h
      exact .lock hr (Option.isNone_iff_eq_none.mp ho)
  case h_4 ans hr =>
      obtain ⟨⟨slot, next⟩, hs, rfl⟩ := Option.map_eq_some_iff.mp h
      exact .statement (by rw [hr, Replier.statement]) hs
  case h_5 r hr =>
      obtain ⟨⟨slot, next⟩, hs, rfl⟩ := Option.map_eq_some_iff.mp h
      exact .statement (by rw [hr, Replier.statement]) hs
  case h_6 hr => cases h; exact .unlock hr

/-- Everything one step can do. -/
theorem sharedTrans_of_step {a : SharedAct τ} (h : s.step a = some s') : SharedTrans s a s' := by
  unfold Shared.step at h
  split at h
  · cases h
  · cases a with
    | start t op =>
        simp only at h
        split at h <;> rename_i hu <;> cases h
        exact .start hu
    | use t =>
        obtain ⟨⟨use, slot⟩, hu, rfl⟩ := Option.map_eq_some_iff.mp h
        exact .use (useTrans_of_step hu)
    | leave t =>
        simp only at h
        split at h <;> rename_i hu <;> cases h
        exact .leave hu
    | wake t =>
        simp only at h
        split at h <;> rename_i hw <;> cases h
        exact .wake hw
    | answer n ans =>
        simp only at h
        split at h <;> rename_i hr <;> cases h
        exact .answer hr
    | replier n w => exact sharedTrans_of_replierStep h
    | dispose =>
        simp only at h
        split at h <;> cases h
        exact .dispose (.inl rfl)
    | disposeStep =>
        simp only [Shared.disposeStep] at h
        split at h <;> cases h
        all_goals exact .dispose (.inr rfl)

end Step

end Libraft.Pool
