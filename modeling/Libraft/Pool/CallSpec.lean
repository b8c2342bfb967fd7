import Libraft.Pool.Call

/-!
# What one step does to a call and its slot

`UseTrans` and `CallTrans` list the steps of `Call.step`. The invariants of a
single call come in three parts: how it is completed, what its users know, and
who is responsible for it. `Coh` says that the slot agrees with the history of
the call.
-/

namespace Libraft.Pool

open Libraft.Foundation Libraft.Calls

variable {τ : Type*} [DecidableEq τ]

/-- The statements of an operation on the future. -/
inductive UseTrans (tag : CallTag) (slot : BaseSlot (Actor τ)) (t : τ) :
    Use → Use → BaseSlot (Actor τ) → Prop
  | lock {op} (h : slot.owned = none) :
      UseTrans tag slot t (.waiting op .lock) (.waiting op .test)
        { slot with owned := some (.client t) }
  | ready {op} (h : isTerminal slot.state = true) :
      UseTrans tag slot t (.waiting op .test) (.waiting op .observe) slot
  | block {op} (h : isTerminal slot.state = false) :
      UseTrans tag slot t (.waiting op .test) (.waiting op .blocked)
        { slot with owned := none, retCond := slot.retCond.wait (.client t) }
  | resume {op} (h : slot.owned = none) (hn : .client t ∈ slot.retCond.notified) :
      UseTrans tag slot t (.waiting op .blocked) (.waiting op .test)
        { slot with owned := some (.client t), retCond := slot.retCond.resume (.client t) }
  | observe {op} :
      UseTrans tag slot t (.waiting op .observe) (.waiting op .unlock)
        { slot with clientState := .observed }
  | unlock {op} :
      UseTrans tag slot t (.waiting op .unlock) op.afterWait { slot with owned := none }
  | readError {op} : UseTrans tag slot t (.readError op) (op.withError slot.error) slot
  | tryLock {op} (h : slot.owned = none) :
      UseTrans tag slot t (.polling op .tryLock) (.polling op .test)
        { slot with owned := some (.client t) }
  | tryFail {op} (h : slot.owned ≠ none) :
      UseTrans tag slot t (.polling op .tryLock) (.done op false (.polled false)) slot
  | pollTest {op} :
      UseTrans tag slot t (.polling op .test) (.polling op (.unlock (isTerminal slot.state))) slot
  | pollUnlock {op b} :
      UseTrans tag slot t (.polling op (.unlock b)) (.done op false (.polled b))
        { slot with owned := none }
  | testFast {op} (h : isTerminal slot.state = true) :
      UseTrans tag slot t (.test op) (.value op true) slot
  | testSlow {op} (h : isTerminal slot.state = false) :
      UseTrans tag slot t (.test op) (.waiting op .lock) slot
  | value {op fast} :
      UseTrans tag slot t (.value op fast)
        (.done op fast (op.result tag slot.error slot.retval)) slot

theorem useTrans_of_step {tag : CallTag} {slot slot' : BaseSlot (Actor τ)} {t : τ}
    {use use' : Use} (h : use.step tag slot t = some (use', slot')) :
    UseTrans tag slot t use use' slot' := by
  cases use with
  | idle => cases h
  | done op fast res => cases h
  | waiting op pc =>
      obtain ⟨⟨slot₁, pc'⟩, hw, heq⟩ := Option.map_eq_some_iff.mp h
      cases pc with
      | lock =>
          simp only [BaseSlot.wait] at hw
          split at hw <;> rename_i ho <;> cases hw
          cases heq
          exact .lock (Option.isNone_iff_eq_none.mp ho)
      | test =>
          simp only [BaseSlot.wait] at hw
          split at hw <;> rename_i ht <;> cases hw <;> cases heq
          · exact .ready ht
          · exact .block (Bool.eq_false_iff.mpr ht)
      | blocked =>
          simp only [BaseSlot.wait] at hw
          split at hw <;> rename_i ho <;> cases hw
          cases heq
          exact .resume (Option.isNone_iff_eq_none.mp ho.1) ho.2
      | observe => cases hw; cases heq; exact .observe
      | unlock => cases hw; cases heq; exact .unlock
  | readError op => cases h; exact .readError
  | polling op pc =>
      cases pc with
      | tryLock =>
          simp only [Use.step] at h
          split at h <;> rename_i ho <;> cases h
          · exact .tryLock (Option.isNone_iff_eq_none.mp ho)
          · exact .tryFail fun hn => ho (Option.isNone_iff_eq_none.mpr hn)
      | test => cases h; exact .pollTest
      | unlock b => cases h; exact .pollUnlock
  | test op =>
      simp only [Use.step] at h
      split at h <;> rename_i ht <;> cases h
      · exact .testFast ht
      · exact .testSlow (Bool.eq_false_iff.mpr ht)
  | value op fast => cases h; exact .value

theorem holds_first (op : Op) (tag : CallTag) : (op.first tag).holds = false := by
  cases op with
  | getFsmReply res =>
      simp only [Op.first]
      split <;> rfl
  | getStats res =>
      simp only [Op.first]
      repeat' split
      all_goals rfl
  | _ => rfl

theorem holds_withError (op : Op) (err : RaftError) : (op.withError err).holds = false := by
  unfold Op.withError
  repeat' split
  all_goals rfl

/-- The operations on the future leave the outcome alone. -/
theorem UseTrans.frame {tag : CallTag} {slot slot' : BaseSlot (Actor τ)} {t : τ}
    {use use' : Use} (h : UseTrans tag slot t use use' slot') :
    slot'.state = slot.state ∧ slot'.error = slot.error ∧ slot'.retval = slot.retval := by
  cases h <;> exact ⟨rfl, rfl, rfl⟩

/-- An operation of a client thread takes the mutex and gives it back. -/
theorem UseTrans.lockStep {tag : CallTag} {slot slot' : BaseSlot (Actor τ)} {t : τ}
    {use use' : Use} (ht : UseTrans tag slot t use use' slot') :
    LockStep (.client t) slot.owned use.holds slot'.owned use'.holds := by
  cases ht with
  | lock ho | resume ho hn | tryLock ho => exact ho ▸ .acquire
  | block hterm | pollUnlock => exact .release
  | @unlock op => cases op <;> exact .release
  | readError =>
      rw [holds_withError]
      exact .keep
  | _ => exact .keep

/-- The steps on the slot of one call. -/
inductive CallTrans (c : ℕ) (call : Call τ) (slot : BaseSlot (Actor τ)) :
    CallAct τ → Call τ → BaseSlot (Actor τ) → Prop
  | failError {err} (h : call.life = .creating (.setError err)) :
      CallTrans c call slot .fail { call with life := .creating (.setState err) }
        { slot with error := err }
  | failState {err} (h : call.life = .creating (.setState err)) :
      CallTrans c call slot .fail { call with life := .held, completed := true }
        { slot with state := .error }
  | start {t op} (hl : call.life = .held) (hu : call.uses t = .idle) :
      CallTrans c call slot (.start t op)
        { call.setUse t .idle (op.first call.tag) with
          active := insert t call.active
          waitCalled := call.waitCalled || op = .wait } slot
  | use {t use slot'} (h : UseTrans call.tag slot t (call.uses t) use slot') :
      CallTrans c call slot (.use t) (call.setUse t (call.uses t) use) slot'
  | leave {t op fast res} (h : call.uses t = .done op fast res) :
      CallTrans c call slot (.leave t)
        { call with uses := Function.update call.uses t .idle
                    active := call.active.erase t } slot
  | wake {t} (h : .client t ∈ slot.retCond.waiting) :
      CallTrans c call slot (.wake t) call
        { slot with retCond := slot.retCond.wake (.client t) }
  | raftLock (h : call.raft = .idle) (ho : slot.owned = none) :
      CallTrans c call slot .raftLock { call with raft := .locked }
        { slot with owned := some (.raft c) }
  | replyValue {val err} (h : call.raft = .locked) :
      CallTrans c call slot (.raftReply (some val) err)
        { call with raft := .replying (.retval val), outcome := some (.success, val) } slot
  | replyError {err} (h : call.raft = .locked) :
      CallTrans c call slot (.raftReply none err)
        { call with raft := .replying (.error err), outcome := some (err, 0) } slot
  | storeRetval {w val} (h : call.raft = .replying (.retval val)) :
      CallTrans c call slot (.raft w) { call with raft := .replying (.error .success) }
        { slot with retval := val }
  | storeError {w err} (h : call.raft = .replying (.error err)) :
      CallTrans c call slot (.raft w) { call with raft := .replying (.state err) }
        { slot with error := err }
  | storeState {w err} (h : call.raft = .replying (.state err))
      (hs : isTerminal slot.state = false) :
      CallTrans c call slot (.raft w) { call with raft := .replying .notify, completed := true }
        { slot with state := err.finalState }
  | notify {w cond} (h : call.raft = .replying .notify)
      (hn : slot.retCond.notifyOne w = some cond) :
      CallTrans c call slot (.raft w) { call with raft := .replying .record }
        { slot with retCond := cond }
  | record {w} (h : call.raft = .replying .record) :
      CallTrans c call slot (.raft w) { call with raft := .replied } slot
  | raftUnlock (h : call.raft = .locked ∨ call.raft = .replied) :
      CallTrans c call slot .raftUnlock { call with raft := .done } { slot with owned := none }
  | dispose (hl : call.life = .held) (ha : call.active = ∅) :
      CallTrans c call slot .dispose { call with life := .disposing false .load } slot
  | load {byGc} (h : call.life = .disposing byGc .load) :
      CallTrans c call slot .disposeStep
        { call with life := .disposing byGc (.branch slot.clientState) } slot
  | abandon {byGc} (h : call.life = .disposing byGc .abandon) :
      CallTrans c call slot .disposeStep
        { call with life := .disposing byGc .track, client := .abandoned }
        { slot with clientState := .abandoned }

/-- Everything one step on a slot can do. -/
theorem callTrans_of_step {c : ℕ} {call call' : Call τ} {slot slot' : BaseSlot (Actor τ)}
    {a : CallAct τ} (h : call.step c slot a = some (call', slot')) :
    CallTrans c call slot a call' slot' := by
  cases a with
  | fail =>
      simp only [Call.step] at h
      split at h <;> rename_i hl <;> cases h
      · exact .failError hl
      · exact .failState hl
  | start t op =>
      simp only [Call.step] at h
      split at h <;> rename_i hc <;> cases h
      exact .start hc.1 hc.2
  | use t =>
      obtain ⟨⟨use, slot₁⟩, hu, heq⟩ := Option.map_eq_some_iff.mp h
      cases heq
      exact .use (useTrans_of_step hu)
  | leave t =>
      simp only [Call.step] at h
      split at h <;> rename_i hu <;> cases h
      exact .leave hu
  | wake t =>
      simp only [Call.step] at h
      split at h <;> rename_i hw <;> cases h
      exact .wake hw
  | raftLock =>
      simp only [Call.step] at h
      split at h <;> rename_i hc <;> cases h
      exact .raftLock hc.1 (Option.isNone_iff_eq_none.mp hc.2)
  | raftReply retval err =>
      simp only [Call.step] at h
      split at h <;> rename_i hc
      · cases retval with
        | some val => cases h; exact .replyValue hc
        | none => cases h; exact .replyError hc
      · cases h
  | raft w =>
      simp only [Call.step] at h
      split at h
      case h_1 r hr =>
          obtain ⟨⟨slot₁, r'⟩, hs, heq⟩ := Option.map_eq_some_iff.mp h
          cases r with
          | retval val => cases hs; cases heq; exact .storeRetval hr
          | error err => cases hs; cases heq; exact .storeError hr
          | state err =>
              simp only [BaseSlot.reply] at hs
              split at hs <;> rename_i ht <;> cases hs
              cases heq
              exact .storeState hr (Bool.eq_false_iff.mpr ht)
          | notify =>
              obtain ⟨cond, hn, hcond⟩ := Option.map_eq_some_iff.mp hs
              cases hcond
              cases heq
              exact .notify hr hn
          | record => cases hs; cases heq; exact .record hr
      case h_2 => cases h
  | raftUnlock =>
      simp only [Call.step] at h
      split at h <;> rename_i hc <;> cases h
      exact .raftUnlock hc
  | dispose =>
      simp only [Call.step] at h
      split at h <;> rename_i hc <;> cases h
      exact .dispose hc.1 hc.2
  | disposeStep =>
      simp only [Call.step] at h
      split at h <;> rename_i hl <;> cases h
      · exact .load hl
      · exact .abandon hl

end Libraft.Pool
