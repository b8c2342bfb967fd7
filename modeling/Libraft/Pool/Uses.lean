import Libraft.Pool.Invariant

/-!
# What the steps of the pool mean for one thread and one call

The pool has many transitions, of which few concern the operation that a
given thread makes on a given call, and few concern how the call began.
-/

namespace Libraft.Pool

open Libraft.Foundation Libraft.Calls

variable {τ ρ : Type*}

/-- A step which changes call `d` only: what held of call `c` still holds, if it holds of
the new call `d` as well. -/
theorem of_calls_update {s s' : State τ ρ} {P : Call τ → Prop} {c d : ℕ} {call : Call τ}
    (h : s'.calls = Function.update s.calls d call) (hself : c = d → P call)
    (hold : P (s.calls c)) : P (s'.calls c) := by
  rw [h]
  by_cases hcd : c = d
  · rw [hcd, Function.update_self]
    exact hself hcd
  · rwa [Function.update_of_ne hcd]

section Uses
variable [DecidableEq τ] [DecidableEq ρ] {s s' : State τ ρ} {a : Act τ ρ}

/-- What a step can do to the operation which thread `t` makes on call `c`. -/
inductive UseChange (s : State τ ρ) (c : ℕ) (t : τ) (a : Act τ ρ) (s' : State τ ρ) : Prop
  | keep (ha : a ≠ .call c (.use t)) (h : (s'.calls c).uses t = (s.calls c).uses t)
      (hc : (s.calls c).completed = true → (s'.calls c).completed = true)
  | idle (ha : a = .call c (.leave t) ∨ c = s.next) (h : (s'.calls c).uses t = .idle)
  | start {op} (ha : a = .call c (.start t op))
      (h : (s'.calls c).uses t = op.first (s.calls c).tag)
  | use {slot} (ha : a = .call c (.use t)) (h : UseTrans (s.calls c).tag (s.slot c) t
      ((s.calls c).uses t) ((s'.calls c).uses t) slot)
      (hc : (s'.calls c).completed = (s.calls c).completed)

omit [DecidableEq ρ] in
theorem useChange_of_call {c d : ℕ} {t : τ} {b : CallAct τ} {call : Call τ}
    {slot : BaseSlot (Actor τ)} (ht : CallTrans d (s.calls d) (s.slot d) b call slot) :
    UseChange s c t (.call d b) ((s.setSlot d slot).setCall d call) := by
  by_cases hcd : c = d
  · subst hcd
    cases ht with
    | @start u op hl hu =>
        by_cases htu : t = u
        · subst htu
          exact .start rfl (by simp [Call.setUse])
        · exact .keep (by simp) (by simp [Call.setUse, htu]) (by simp [Call.setUse])
    | @use u use slot' hu =>
        by_cases htu : t = u
        · subst htu
          exact .use rfl (by simpa [Call.setUse] using hu) (by simp [Call.setUse])
        · exact .keep (by simp [Ne.symm htu]) (by simp [Call.setUse, htu]) (by simp [Call.setUse])
    | @leave u op fast res hu =>
        by_cases htu : t = u
        · subst htu
          exact .idle (.inl rfl) (by simp)
        · exact .keep (by simp) (by simp [htu]) (by simp)
    | _ => exact .keep (by simp) (by simp) (by simp)
  · exact .keep (by simp [Ne.symm hcd]) (by simp [hcd]) (by simp [hcd])

theorem Trans.useChange (ht : Trans s a s') (c : ℕ) (t : τ) : UseChange s c t a s' := by
  have hkeep {d : ℕ} {call : Call τ} (h : s'.calls = Function.update s.calls d call)
      (hu : call.uses = (s.calls d).uses) (hc : call.completed = (s.calls d).completed)
      (ha : a ≠ .call c (.use t)) : UseChange s c t a s' := by
    by_cases hcd : c = d
    · subst hcd
      exact .keep ha (by simp [h, hu]) (by simp [h, hc])
    · exact .keep ha (by simp [h, hcd]) (by simp [h, hcd])
  cases ht with
  | create he hb =>
      by_cases hc : c = s.next
      · exact .idle (.inr hc) (by simp [hc, Call.create, Call.unborn])
      · exact .keep (by simp) (by simp [hc]) (by simp [hc])
  | @allocate d n err hl hp =>
      exact hkeep rfl (by cases err <;> rfl) (by cases err <;> rfl) (by simp)
  | enqueue hl hq | sentOk hl hp | sentClosed hl hp | track hl ho | trackClosed hl ho
  | cleanup hl | deallocate hl | count hl | testDone hg ht => exact hkeep rfl rfl rfl (by simp)
  | call ht hr => exact useChange_of_call ht
  | release hg => exact .keep (by simp) (by simp) (by simp)
  | _ => exact .keep (by simp) rfl id

omit [DecidableEq τ] in
/-- A thread which is inside an operation has a future. -/
theorem Inv.held_of_use (h : Inv s) {c : ℕ} {t : τ} (hu : (s.calls c).uses t ≠ .idle) :
    (s.calls c).life = .held := by
  have hactive : t ∈ (s.calls c).active := ((h.calls c).usage.active t).mpr hu
  by_contra hne
  rw [(h.calls c).usage.free hne] at hactive
  exact absurd hactive (Finset.notMem_empty t)

omit [DecidableEq τ] in
/-- The slot of such a call agrees with the call. -/
theorem Inv.coh_of_use (h : Inv s) {c : ℕ} {t : τ} (hu : (s.calls c).uses t ≠ .idle) :
    Coh (s.calls c) (s.slot c) :=
  h.coh c (by rw [h.held_of_use hu]; rfl)

/-- The calls which have been created keep their tags. -/
theorem Trans.tag_eq (ht : Trans s a s') {c : ℕ} (hc : c < s.next) :
    c < s'.next ∧ (s'.calls c).tag = (s.calls c).tag := by
  have hkeep {d : ℕ} {call : Call τ} (h : s'.calls = Function.update s.calls d call)
      (hd : call.tag = (s.calls d).tag) : (s'.calls c).tag = (s.calls c).tag :=
    of_calls_update (P := fun call => call.tag = (s.calls c).tag) h (fun hcd => hcd ▸ hd) rfl
  cases ht with
  | create he hb => exact ⟨Nat.lt_succ_of_lt hc, by simp [hc.ne]⟩
  | @allocate d n err hl hp => exact ⟨hc, hkeep rfl (by cases err <;> rfl)⟩
  | call ht hr => exact ⟨hc, hkeep rfl ht.fixed.2.1⟩
  | enqueue hl hq | sentOk hl hp | sentClosed hl hp | track hl ho | trackClosed hl ho
  | cleanup hl | deallocate hl | count hl | testDone hg ht => exact ⟨hc, hkeep rfl rfl⟩
  | release hg => simpa using hc
  | _ => exact ⟨hc, rfl⟩

/-- A call which is past its creation is not rejected any more. -/
theorem Trans.rejected_eq (ht : Trans s a s') (hborn : (s.calls s.next).life = .unborn) {c : ℕ}
    (hc : (s.calls c).life.early = false) :
    (s'.calls c).life.early = false ∧ (s'.calls c).rejected = (s.calls c).rejected := by
  have hkeep {d : ℕ} {call : Call τ} (h : s'.calls = Function.update s.calls d call)
      (hd : (s.calls d).life.early = false → call.life.early = false ∧
        call.rejected = (s.calls d).rejected) :
      (s'.calls c).life.early = false ∧ (s'.calls c).rejected = (s.calls c).rejected :=
    of_calls_update
      (P := fun call => call.life.early = false ∧ call.rejected = (s.calls c).rejected) h
      (by rintro rfl; exact hd hc) ⟨hc, rfl⟩
  cases ht with
  | create he hb => exact hkeep rfl (by simp [hborn, Life.early])
  | @call d b call slot hcall hr =>
      refine hkeep rfl fun hd => ?_
      cases hcall with
      | failError hl | failState hl | dispose hl ha | load hl | abandon hl => exact ⟨rfl, rfl⟩
      | _ => exact ⟨hd, rfl⟩
  | allocate hl hp | enqueue hl hq | sentOk hl hp | sentClosed hl hp =>
      exact hkeep rfl (by simp [hl, Life.early])
  | track hl ho | trackClosed hl ho | cleanup hl | deallocate hl | count hl | testDone hg ht =>
      exact hkeep rfl fun _ => ⟨rfl, rfl⟩
  | release hg => simpa using hc
  | _ => exact ⟨hc, rfl⟩

end Uses

section Changes
variable [DecidableEq τ] [DecidableEq ρ] {s s' : State τ ρ} {a : Act τ ρ}

/-- What a step can do to call `c`, which then is `call`. -/
inductive CallChange (s : State τ ρ) (a : Act τ ρ) (c : ℕ) (call : Call τ) : Prop
  | same (h : call = s.calls c)
  | slot {b slot} (ha : a = .call c b) (h : CallTrans c (s.calls c) (s.slot c) b call slot)
  | create {pc} (hl : (s.calls c).life = .creating pc)
      (h : call.life = .held ∨ ∃ pc', call.life = .creating pc')
  | track {byGc} (hl : (s.calls c).life = .disposing byGc .track)
  | cleanup {byGc} (hl : (s.calls c).life = .disposing byGc .cleanup)
  | deallocate {byGc} (hl : (s.calls c).life = .disposing byGc .deallocate)
      (h : call = { s.calls c with
        life := .disposing byGc .count, frees := (s.calls c).frees + 1 })
  | count {byGc} (hl : (s.calls c).life = .disposing byGc .count)
      (h : call = { s.calls c with life := .gone })
  | collect (hl : (s.calls c).life = .orphaned)

/-- Everything one step can do to a call which has been created. -/
theorem Trans.callChange (ht : Trans s a s') (hi : Inv s) {c : ℕ} (hc : c < s.next) :
    CallChange s a c (s'.calls c) := by
  have hupd {d : ℕ} {call : Call τ} (h : s'.calls = Function.update s.calls d call)
      (hd : d = c → CallChange s a c call) : CallChange s a c (s'.calls c) :=
    of_calls_update (P := CallChange s a c) h (fun hcd => hd hcd.symm) (.same rfl)
  cases ht with
  | create he hb => exact hupd rfl fun hd => absurd hd hc.ne'
  | @allocate d n err hl hp =>
      refine hupd rfl ?_
      rintro rfl
      cases err with
      | none => exact .create hl (.inr ⟨_, rfl⟩)
      | some err => exact .create hl (.inr ⟨_, rfl⟩)
  | enqueue hl hq | sentClosed hl hp =>
      refine hupd rfl ?_
      rintro rfl
      exact .create hl (.inr ⟨_, rfl⟩)
  | sentOk hl hp =>
      refine hupd rfl ?_
      rintro rfl
      exact .create hl (.inl rfl)
  | call ht hr =>
      refine hupd rfl ?_
      rintro rfl
      exact .slot rfl ht
  | track hl ho | trackClosed hl ho =>
      refine hupd rfl ?_
      rintro rfl
      exact .track hl
  | cleanup hl =>
      refine hupd rfl ?_
      rintro rfl
      exact .cleanup hl
  | deallocate hl =>
      refine hupd rfl ?_
      rintro rfl
      exact .deallocate hl rfl
  | count hl =>
      refine hupd rfl ?_
      rintro rfl
      exact .count hl rfl
  | @testDone d entry hg hterm =>
      refine hupd rfl ?_
      rintro rfl
      exact .collect (hi.gc.attempt d entry .test hg)
  | release hg => exact .same (by simp)
  | _ => exact .same rfl

end Changes

end Libraft.Pool
