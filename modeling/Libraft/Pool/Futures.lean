import Libraft.Pool.Queries

/-!
# A future which only one thread knows

What the thread may rely on between the steps of everybody else: where it stands
in its operation, that the future is its own until it disposes of it, that an
outcome stays as it is, and that a future which was waited for goes from
`raft_future_dispose` straight to its end.
-/

namespace Libraft.Pool

open Libraft.Foundation Libraft.Calls

variable {τ ρ : Type*}

/-- The operations which fit a future with the given tag. -/
def suits (tag : CallTag) : Op → Bool
  | .wait => true
  | .getStats res => res && tag = .stats
  | .getFsmReply res => res && tag = .apply
  | .futureGet => tag.hasRet
  | .poll | .waitFor | .leader => false

/-- The positions in such an operation, and how it can end. -/
def works (op : Op) : Use → Bool
  | .idle | .polling _ _ => false
  | .waiting op' _ => op' = op
  | .readError op' => op' = op && op' ≠ .getFsmReply true
  | .test op' | .value op' _ => op' = op && op' ≠ .wait
  | .done op' _ (.waited _) => op' = op && op' = .wait
  | .done op' _ (.got _ _) => op' = op && op' ≠ .wait
  | .done op' _ .assertFailed => op' = op && op' = .getStats true
  | .done _ _ (.polled _) | .done _ _ (.refused _) => false

/-- A future on the way from `raft_future_dispose` to its end, without the collector. -/
def Life.ending : Life → Bool
  | .disposing false .load | .disposing false .deallocate | .disposing false .count => true
  | .gone => true
  | _ => false

theorem works_first {tag : CallTag} {op : Op} (h : suits tag op = true) :
    works op (op.first tag) = true := by
  cases op with
  | wait | futureGet => rfl
  | getFsmReply res | getStats res =>
      obtain ⟨rfl, rfl⟩ : res = true ∧ tag = _ := by simpa [suits] using h
      rfl
  | _ => cases h

section Uses
variable [DecidableEq τ] [DecidableEq ρ] {p p' : State τ ρ} {a : Act τ ρ} {c : ℕ} {t : τ}
variable {call : Call τ}

omit [DecidableEq ρ] in
theorem works_of_useTrans {tag : CallTag} {slot slot' : BaseSlot (Actor τ)}
    {op : Op} {use use' : Use} (h : UseTrans tag slot t use use' slot')
    (hs : suits tag op = true) (hw : works op use = true) : works op use' = true := by
  cases h with
  | lock _ | ready _ | block _ | resume _ _ | observe | testFast _ => exact hw
  | @testSlow op' _ => exact (Bool.and_eq_true _ _ ▸ hw).1
  | @unlock op' =>
      obtain rfl : op' = op := by simpa [works] using hw
      cases op' <;> simp_all [suits, works, Op.afterWait]
  | @readError op' =>
      obtain ⟨rfl, hne⟩ : op' = op ∧ op' ≠ .getFsmReply true := by simpa [works] using hw
      cases op' with
      | wait => rfl
      | getStats res | futureGet =>
          simp only [Op.withError, Op.isGet, if_true]
          split <;> simp_all [works, suits]
      | getFsmReply res => simp_all [suits]
      | _ => cases hs
  | @value op' fast =>
      obtain ⟨rfl, hne⟩ : op' = op ∧ op' ≠ .wait := by simpa [works] using hw
      cases op' with
      | getStats res =>
          obtain ⟨rfl, rfl⟩ : res = true ∧ tag = _ := by simpa [suits] using hs
          simp only [Op.result, futureGetResult, CallTag.hasRet, if_true]
          split <;> simp [works]
      | getFsmReply res =>
          obtain ⟨rfl, rfl⟩ : res = true ∧ tag = _ := by simpa [suits] using hs
          simp only [Op.result, getPtrResult, CallTag.hasRet, if_true]
          split <;> simp [works]
      | futureGet =>
          have hret : tag.hasRet = true := hs
          simp [Op.result, futureGetResult, hret, Op.checksHandle, works]
      | wait => exact absurd rfl hne
      | _ => cases hs
  | tryLock _ | tryFail _ | pollTest | pollUnlock => cases hw

/-- An operation goes on until its thread leaves it. -/
theorem works_of_trans {op : Op} (ht : Trans p a p') (hc : c < p.next) (ha : a.future ≠ some c)
    (hs : suits (p.calls c).tag op = true) (h : works op ((p.calls c).uses t) = true) :
    works op ((p'.calls c).uses t) = true := by
  cases ht.useChange c t with
  | keep _ hu _ => rw [hu]; exact h
  | idle ha' _ =>
      rcases ha' with rfl | rfl
      · exact absurd rfl ha
      · exact absurd hc (lt_irrefl _)
  | start ha' _ =>
      subst ha'
      exact absurd rfl ha
  | use _ hu _ => exact works_of_useTrans hu hs h

omit [DecidableEq ρ] in
/-- The client stays one which has called `raft_future_wait`. -/
theorem waited_of_change (ht : CallChange p a c call) (hl : (p.calls c).life = .held)
    (hw : (p.calls c).waitCalled = true) : call.waitCalled = true := by
  cases ht with
  | same h => rw [h, hw]
  | slot ha h =>
      cases h with
      | start hl' hu => simp [hw]
      | _ => exact hw
  | create hl' _ | track hl' | cleanup hl' | deallocate hl' _ | count hl' _ | collect hl' =>
      simp [hl] at hl'

/-- The outcome of a completed call does not change. -/
theorem Trans.outcome_kept (ht : Trans p a p') (hi : Inv p)
    (hd : (p.calls c).completed = true) :
    (p'.calls c).completed = true ∧ (p'.calls c).outcome = (p.calls c).outcome := by
  have hupd {d : ℕ} {call : Call τ} (h : p'.calls = Function.update p.calls d call)
      (hcall : (p.calls d).completed = true →
        call.completed = true ∧ call.outcome = (p.calls d).outcome) :
      (p'.calls c).completed = true ∧ (p'.calls c).outcome = (p.calls c).outcome := by
    rw [h]
    by_cases hcd : c = d
    · subst hcd
      simpa using hcall hd
    · simpa [hcd] using hd
  -- a call is not completed before the Raft side has locked it, unless its creator failed it
  have hidle {d : ℕ} (he : (p.calls d).life.early = true) (hr : (p.calls d).raft = .idle) :
      (p.calls d).completed = false :=
    ((hi.calls d).completion.quiet ((hi.calls d).completion.early he) (.inl hr)).2
  cases ht with
  | create he hb =>
      have hborn := hi.api.born p.next le_rfl
      have hr := hi.api.idle_of_unsent (c := p.next) (by simp [hborn, Life.unsent])
      exact hupd rfl (by simp [hidle (by simp [hborn, Life.early]) hr])
  | @allocate d n err hl hp =>
      have hr := hi.api.idle_of_unsent (c := d) (by simp [hl, Life.unsent])
      exact hupd rfl (by simp [hidle (by simp [hl, Life.early]) hr])
  | sentClosed hl hp =>
      have hr := hi.api.idle_of_not_accepted (hi.api.refused_not_accepted hl hp)
      exact hupd rfl (by simp [hidle (by simp [hl, Life.early]) hr])
  | @call d b call slot hcall hr =>
      refine hupd rfl fun hdone => ?_
      cases hcall with
      | replyValue hl | replyError hl =>
          have hquiet := (hi.calls d).completion.quiet (hi.coh_of_locked hl).1 (.inr hl)
          simp [hquiet.2] at hdone
      | failState _ | storeState _ _ => exact ⟨rfl, rfl⟩
      | _ => exact ⟨hdone, rfl⟩
  | enqueue _ _ | sentOk _ _ | track _ _ | trackClosed _ _ | cleanup _ | deallocate _ | count _
  | testDone _ _ => exact hupd rfl fun hdone => ⟨hdone, rfl⟩
  | release hg => simpa using hd
  | _ => exact ⟨hd, rfl⟩

/-- A disposed future which was observed goes straight to its end. -/
theorem ending_of_change (ht : CallChange p a c call) (hi : Inv p)
    (ho : (p.calls c).client = .observed) (hl : (p.calls c).life.ending = true) :
    call.client = .observed ∧ call.life.ending = true := by
  cases ht with
  | same h => rw [h]; exact ⟨ho, hl⟩
  | slot ha h =>
      have hne : (p.calls c).life ≠ .held := by
        intro he
        simp [he, Life.ending] at hl
      cases h with
      | failError hl' | failState hl' => simp [hl', Life.ending] at hl
      | @abandon byGc hl' => cases byGc <;> simp [hl', Life.ending] at hl
      | start hl' _ | dispose hl' _ => exact absurd hl' hne
      | use hu => exact absurd ((hi.calls c).usage.held_of_use hu) hne
      | @load byGc hl' =>
          have hcoh := (hi.coh c (by simp [hl', Life.live])).client
          cases byGc with
          | false => exact ⟨ho, by simp [hcoh, ho, Dispose.branch, Life.ending]⟩
          | true => simp [hl', Life.ending] at hl
      | _ => exact ⟨ho, hl⟩
  | @deallocate byGc hl' h =>
      cases byGc with
      | false => exact h ▸ ⟨ho, rfl⟩
      | true => simp [hl', Life.ending] at hl
  | count hl' h => exact h ▸ ⟨ho, rfl⟩
  | create hl' _ | collect hl' => simp [hl', Life.ending] at hl
  | @track byGc hl' | @cleanup byGc hl' => cases byGc <;> simp [hl', Life.ending] at hl

omit [DecidableEq τ] [DecidableEq ρ] in
/-- Such a future was deallocated once, and not by the collector. -/
theorem CallOk.freed_of_gone (h : CallOk call) (hl : call.life = .gone)
    (ho : call.client = .observed) : call.frees = 1 ∧ call.handed = false := by
  have hlife := h.lifecycle
  simp only [Lifecycle, hl, ho] at hlife
  obtain ⟨hfrees, -, ⟨-, hhand, -⟩ | ⟨hab, -⟩⟩ := hlife
  · exact ⟨hfrees, hhand⟩
  · cases hab

omit [DecidableEq ρ] in
theorem gone_of_change (ht : CallChange p a c call) (hl : (p.calls c).life = .gone) :
    call.life = .gone := by
  cases ht with
  | same h => rw [h, hl]
  | slot ha h =>
      cases h with
      | failError hl' | failState hl' | start hl' _ | dispose hl' _ | load hl' | abandon hl' =>
          simp [hl] at hl'
      | _ => exact hl
  | create hl' _ | track hl' | cleanup hl' | deallocate hl' _ | count hl' _ | collect hl' =>
      simp [hl] at hl'

omit [DecidableEq ρ] in
/-- A call which is being created comes into the hands of the client. -/
theorem sending_of_change (ht : CallChange p a c call)
    (h : (p.calls c).life = .held ∨ ∃ pc, (p.calls c).life = .creating pc)
    (ha : a ≠ .call c .dispose) : call.life = .held ∨ ∃ pc, call.life = .creating pc := by
  have hlife {life : Life} (hl : (p.calls c).life = life)
      (hne : life ≠ .held) (hnc : ∀ pc, life ≠ .creating pc) : False := by
    rcases h with hh | ⟨pc, hh⟩
    · exact hne (hl.symm.trans hh)
    · exact hnc pc (hl.symm.trans hh)
  cases ht with
  | same hs => exact hs ▸ h
  | create _ h' => exact h'
  | slot ha' hs =>
      cases hs with
      | failError _ => exact .inr ⟨_, rfl⟩
      | failState _ => exact .inl rfl
      | dispose hl' _ => exact absurd ha' ha
      | load hl' | abandon hl' => exact (hlife hl' (by simp) (by simp)).elim
      | _ => exact h
  | track hl' | cleanup hl' | deallocate hl' _ | count hl' _ | collect hl' =>
      exact (hlife hl' (by simp) (by simp)).elim

end Uses

end Libraft.Pool
