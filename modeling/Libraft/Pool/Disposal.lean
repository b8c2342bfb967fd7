import Libraft.Pool.Results

/-!
# A dispose which throws

`dispose` of a call in `Issued` stores `Abandoned` and then hands the slot to
`track_orphan`, whose `put` throws when the queue of orphans is closed. The
future is still the caller's, and a second `raft_future_dispose` finds
`Abandoned`: it takes the branch which is meant for the collector.

## Implementation notes

`redisposing` is the pool with a client which calls `raft_future_dispose`
again after it has thrown.
-/

namespace Libraft.Pool

open Libraft.Foundation Libraft.Calls

variable {τ ρ : Type*}

inductive DisposeAct (τ ρ : Type*)
  | pool (a : Act τ ρ)
  /-- `raft_future_dispose` is called for a future for which it has thrown -/
  | again (c : ℕ)

/-- The steps of `raft_future_dispose` for call `c`, and `close` of the queue of orphans. -/
def DisposeAct.concerns (c : ℕ) : DisposeAct τ ρ → Bool
  | .pool (.call d .dispose) | .pool (.call d .disposeStep) => c = d
  | .pool (.dispose d) | .again d => c = d
  | .pool .closeOrphans => true
  | _ => false

/-- In the step `put` throws out of `dispose`. -/
def State.throws (s : State τ ρ) : DisposeAct τ ρ → Bool
  | .pool (.dispose c) =>
      match (s.calls c).life with
      | .disposing _ .track => s.orphansClosed
      | _ => false
  | _ => false

/-- What `raft_future_dispose` of call `c` may not have changed when it throws. -/
structure SameForDispose (c : ℕ) (s s' : State τ ρ) : Prop where
  clientState : (s'.slot c).clientState = (s.slot c).clientState
  orphans : s'.orphans = s.orphans
  callAlloc : s'.callAlloc = s.callAlloc
  callFree : s'.callFree = s.callFree
  bufferAlloc : s'.bufferAlloc = s.bufferAlloc
  bufferFree : s'.bufferFree = s.bufferFree

theorem SameForDispose.trans {c : ℕ} {s u v : State τ ρ} (h : SameForDispose c s u)
    (h' : SameForDispose c u v) : SameForDispose c s v where
  clientState := h'.clientState.trans h.clientState
  orphans := h'.orphans.trans h.orphans
  callAlloc := h'.callAlloc.trans h.callAlloc
  callFree := h'.callFree.trans h.callFree
  bufferAlloc := h'.bufferAlloc.trans h.bufferAlloc
  bufferFree := h'.bufferFree.trans h.bufferFree

theorem slot_setLife (s : State τ ρ) (c : ℕ) (life : Life) :
    (s.setLife c life).slot c = s.slot c := by
  simp [State.slot]

theorem slot_setCall (s : State τ ρ) {c : ℕ} {call : Call τ} (slot : BaseSlot (Actor τ))
    (h : call.addr = (s.calls c).addr) : ((s.setSlot c slot).setCall c call).slot c = slot := by
  simp [State.slot, h]

section Step
variable [DecidableEq τ] [DecidableEq ρ]

/-- The pool with clients which try again. -/
def redisposing : Scheduled (State τ ρ) (DisposeAct τ ρ) where
  init := initial
  step
    | s, .pool a => step s a
    | s, .again c =>
        if (s.calls c).life = .thrown then some (s.setLife c (.disposing false .load)) else none

/-- What the stage `life` of a dispose which began in the state `s` means for the state `u`. -/
def DisposePhase (c : ℕ) (s u : State τ ρ) : Life → Prop
  | .held | .thrown | .disposing false .load => SameForDispose c s u
  | .disposing false .abandon => SameForDispose c s u ∧ (s.slot c).clientState = .issued
  | .disposing false .track =>
      (s.slot c).clientState = .issued ∧ (u.slot c).clientState = .abandoned
  | .disposing false _ | .orphaned | .gone => True
  | _ => False

variable {c : ℕ} {s u u' : State τ ρ} {a : DisposeAct τ ρ}

omit [DecidableEq τ] [DecidableEq ρ] in
theorem DisposePhase.keep {life : Life} (h : DisposePhase c s u life)
    (hs : SameForDispose c u u') : DisposePhase c s u' life := by
  unfold DisposePhase at h ⊢
  split <;> simp only at h
  · exact h.trans hs
  · exact h.trans hs
  · exact h.trans hs
  · exact ⟨h.1.trans hs, h.2⟩
  · exact ⟨h.1, hs.clientState.trans h.2⟩
  all_goals trivial

omit [DecidableEq ρ] in
/-- The steps on the slot. -/
theorem DisposePhase.call {b : CallAct τ} {call : Call τ} {slot : BaseSlot (Actor τ)}
    (h : DisposePhase c s u (u.calls c).life) (ht : CallTrans c (u.calls c) (u.slot c) b call slot)
    (hb : b = .dispose ∨ b = .disposeStep) :
    DisposePhase c s ((u.setSlot c slot).setCall c call) call.life := by
  have hslot : ((u.setSlot c slot).setCall c call).slot c = slot := slot_setCall u slot ht.fixed.1
  cases ht with
  | dispose hl ha =>
      rw [hl] at h
      exact h.keep ⟨by rw [hslot], rfl, rfl, rfl, rfl, rfl⟩
  | @load byGc hl =>
      rw [hl] at h
      cases byGc with
      | true => exact h.elim
      | false =>
          cases hcl : (u.slot c).clientState with
          | issued =>
              rw [hcl] at hslot
              exact ⟨h.trans ⟨by rw [hslot], rfl, rfl, rfl, rfl, rfl⟩, h.1.symm.trans hcl⟩
          | observed | abandoned => trivial
  | @abandon byGc hl =>
      rw [hl] at h
      cases byGc with
      | true => exact h.elim
      | false => exact ⟨h.2, by rw [hslot]⟩
  | _ => simp at hb

/-- The steps of dispose outside the slot, as long as `put` does not throw. -/
theorem DisposePhase.dispose (h : DisposePhase c s u (u.calls c).life)
    (ht : Trans u (.dispose c) u') (hn : u.throws (.pool (.dispose c)) = false) :
    DisposePhase c s u' (u'.calls c).life := by
  cases ht with
  | track hl ho => simp [DisposePhase]
  | @trackClosed _ byGc hl ho => simp [State.throws, hl, ho] at hn
  | @cleanup _ byGc hl | @deallocate _ byGc hl | @count _ byGc hl =>
      rw [hl] at h
      cases byGc with
      | true => exact h.elim
      | false => simp [State.cleanup, State.deallocate, State.count, DisposePhase]

theorem DisposePhase.step (h : DisposePhase c s u (u.calls c).life)
    (ht : redisposing.step u a = some u') (ha : a.concerns c = true) (hn : u.throws a = false) :
    DisposePhase c s u' (u'.calls c).life := by
  cases a with
  | again d =>
      obtain rfl : c = d := by simpa [DisposeAct.concerns] using ha
      simp only [redisposing] at ht
      split at ht <;> rename_i hl <;> cases ht
      rw [hl] at h
      simp only [State.setLife_calls, Function.update_self]
      exact h.keep ⟨by rw [slot_setLife], rfl, rfl, rfl, rfl, rfl⟩
  | pool b =>
      have htr : Trans u b u' := trans_of_step ht
      cases b with
      | call d b =>
          have hb : c = d ∧ (b = .dispose ∨ b = .disposeStep) := by
            cases b <;> simp_all [DisposeAct.concerns]
          obtain ⟨rfl, hb⟩ := hb
          cases htr with
          | call hc hr => simpa using h.call hc hb
      | dispose d =>
          obtain rfl : c = d := by simpa [DisposeAct.concerns] using ha
          exact h.dispose htr hn
      | closeOrphans =>
          cases htr
          exact h.keep ⟨rfl, rfl, rfl, rfl, rfl, rfl⟩
      | _ => cases ha

/-- No `put` throws in the step. -/
def PutOpen (u : State τ ρ) (a : DisposeAct τ ρ) (_ : State τ ρ) : Prop := u.throws a = false

instance (u : State τ ρ) (a : DisposeAct τ ρ) (u' : State τ ρ) : Decidable (PutOpen u a u') :=
  inferInstanceAs (Decidable (_ = _))

/-- A `put` which throws leaves `Abandoned` behind. -/
theorem DisposePhase.throws (h : DisposePhase c s u (u.calls c).life)
    (ht : redisposing.step u a = some u') (ha : a.concerns c = true) (hn : u.throws a = true) :
    (u'.calls c).life = .thrown ∧ (s.slot c).clientState = .issued ∧
      (u'.slot c).clientState = .abandoned := by
  unfold State.throws at hn
  split at hn
  case h_1 d =>
      obtain rfl : c = d := by simpa [DisposeAct.concerns] using ha
      have htr : Trans u (.dispose c) u' := trans_of_step ht
      cases htr with
      | @trackClosed _ byGc hl ho =>
          rw [hl] at h
          cases byGc with
          | true => exact h.elim
          | false => exact ⟨by simp, h.1, by rw [slot_setLife]; exact h.2⟩
      | track hl ho => simp [hl, ho] at hn
      | cleanup hl | deallocate hl | count hl => simp [hl] at hn
  case h_2 => cases hn

theorem DisposePhase.along {sched : List (DisposeAct τ ρ)}
    (h : DisposePhase c s u (u.calls c).life) (hsched : ∀ a ∈ sched, a.concerns c = true)
    (hsame : ∀ v, redisposing.Visits u sched v → (v.calls c).life = .thrown →
      SameForDispose c s v) : redisposing.Along PutOpen u sched := by
  induction sched generalizing u with
  | nil => trivial
  | cons a rest ih =>
      cases hst : redisposing.step u a with
      | none => simp [Scheduled.Along, hst]
      | some u' =>
          simp only [Scheduled.Along, hst]
          have ha := hsched a List.mem_cons_self
          have hopen : u.throws a = false := by
            by_contra hn
            obtain ⟨hthrown, hissued, habandoned⟩ :=
              h.throws hst ha (Bool.eq_true_of_not_eq_false hn)
            have hvisit := Scheduled.visits_cons hst (Scheduled.visits_self u' rest)
            have hclient := (hsame u' hvisit hthrown).clientState
            rw [hissued, habandoned] at hclient
            cases hclient
          refine ⟨hopen, ih (h.step hst ha hopen) ?_ ?_⟩
          · exact fun b hb => hsched b (List.mem_cons_of_mem _ hb)
          · exact fun v hv => hsame v (Scheduled.visits_cons hst hv)

theorem DisposePhase.visits {sched : List (DisposeAct τ ρ)}
    (h : DisposePhase c s u (u.calls c).life) (hsched : ∀ a ∈ sched, a.concerns c = true)
    (halong : redisposing.Along PutOpen u sched) {v : State τ ρ}
    (hv : redisposing.Visits u sched v) : DisposePhase c s v (v.calls c).life :=
  (halong.and_mem hsched).visits_invariant (I := fun v => DisposePhase c s v (v.calls c).life)
    (fun _ _ _ hphase hst hg => hphase.step hst hg.1 hg.2) h hv

/-- As long as no `put` throws, no dispose has to be called again. -/
theorem not_thrown_of_trans {b : Act τ ρ} (ht : Trans u b u') (hn : u.throws (.pool b) = false)
    (h : ∀ c, (u.calls c).life ≠ .thrown) (c : ℕ) : (u'.calls c).life ≠ .thrown := by
  have hupd {d : ℕ} {call : Call τ} (hcalls : u'.calls = Function.update u.calls d call)
      (hd : call.life ≠ .thrown) : (u'.calls c).life ≠ .thrown := by
    rw [hcalls]
    by_cases hcd : c = d
    · subst hcd
      simpa using hd
    · simpa [hcd] using h c
  cases ht with
  | create he hb => exact hupd rfl nofun
  | @allocate d n err hl hp => exact hupd rfl (by cases err <;> nofun)
  | @call d b call slot hc hr =>
      refine hupd rfl ?_
      cases hc with
      | failError hl | failState hl | dispose hl ha | load hl | abandon hl => nofun
      | _ => exact h d
  | trackClosed hl ho => simp [State.throws, hl, ho] at hn
  | enqueue hl hq | sentOk hl hp | sentClosed hl hp | track hl ho | cleanup hl
  | deallocate hl | count hl | testDone hg ht => exact hupd rfl nofun
  | release hg => simpa using h c
  | _ => exact h c

theorem reachable_of_putOpen (h : redisposing.Reach PutOpen s) :
    system.Reachable s ∧ ∀ c, (s.calls c).life ≠ .thrown := by
  refine h.invariant (I := fun s => system.Reachable s ∧ ∀ c, (s.calls c).life ≠ .thrown)
    ⟨.init, nofun⟩ ?_
  rintro s a s' - ⟨hs, hlife⟩ ht hg
  cases a with
  | pool b => exact ⟨hs.next (a := b) ht, not_thrown_of_trans (trans_of_step ht) hg hlife⟩
  | again c =>
      simp only [redisposing] at ht
      split at ht <;> rename_i hl
      · exact absurd hl (hlife c)
      · cases ht

omit [DecidableEq τ] in
/-- The branches of `dispose` which destroy something are for calls with a result. -/
theorem Inv.terminal_of_destroying (h : Inv s) {byGc : Bool}
    (hl : (s.calls c).life = .disposing byGc .cleanup ∨
      (s.calls c).life = .disposing byGc .deallocate) :
    isTerminal (s.slot c).state = true := by
  have hlife := (h.calls c).lifecycle
  have hlive : (s.calls c).life.live = true := by
    rcases hl with hl | hl <;> rw [hl] <;> rfl
  rw [(h.coh c hlive).terminal]
  unfold Lifecycle at hlife
  cases byGc with
  | true =>
      rcases hl with hl | hl <;> rw [hl] at hlife
      · exact hlife.2.2.2.2
      · exact hlife.2.2.2.2
  | false =>
      rcases hl with hl | hl <;> rw [hl] at hlife
      · exact hlife.elim
      · exact ((h.calls c).usage.observed hlife.1).1

/-- A dispose which throws has changed nothing if, and only if, none throws: the client state
of the slot is changed before `put`. And as long as none throws, what a dispose deallocates or
frees belongs to a call which has its result. -/
theorem failing_dispose_iff :
    (∀ (s : State τ ρ) (c : ℕ) (sched : List (DisposeAct τ ρ)),
      (s.calls c).life = .held ∨ (s.calls c).life = .thrown →
      (∀ a ∈ sched, a.concerns c = true) →
      ((∀ u, redisposing.Visits s sched u → (u.calls c).life = .thrown → SameForDispose c s u) ↔
        redisposing.Along PutOpen s sched)) ∧
    ∀ s : State τ ρ, redisposing.Reach PutOpen s → ∀ c byGc,
      (s.calls c).life = .disposing byGc .cleanup ∨
        (s.calls c).life = .disposing byGc .deallocate →
      isTerminal (s.slot c).state = true := by
  constructor
  · intro s c sched hl hsched
    have hphase : DisposePhase c s s (s.calls c).life := by
      rcases hl with hl | hl <;> rw [hl]
      · exact ⟨rfl, rfl, rfl, rfl, rfl, rfl⟩
      · exact ⟨rfl, rfl, rfl, rfl, rfl, rfl⟩
    constructor
    · exact hphase.along hsched
    · intro halong u hu hthrown
      have hend := hphase.visits hsched halong hu
      rw [hthrown] at hend
      exact hend
  · intro s hs c byGc hl
    exact (inv_of_reachable (reachable_of_putOpen hs).1).terminal_of_destroying hl

end Step

/-- `raft_future_dispose` of call `c` up to the step in which `put` throws. -/
def throwRun (c : ℕ) : List (DisposeAct (Fin 2) (Fin 2)) :=
  [.pool (.call c .dispose), .pool (.call c .disposeStep), .pool .closeOrphans,
    .pool (.call c .disposeStep), .pool (.dispose c)]

/-- `raft_future_dispose` of call `c` once more, with the destruction of its slot. -/
def againRun (c : ℕ) : List (DisposeAct (Fin 2) (Fin 2)) :=
  [.again c, .pool (.call c .disposeStep), .pool (.dispose c), .pool (.dispose c)]

/-- The queue of orphans is closed while `raft_future_dispose` is on its way for an Apply which
the Raft side has taken: it throws and leaves `Abandoned` behind. Called again, it frees the
command buffer and deallocates the slot, whose mutex the Raft side holds. -/
theorem failing_dispose_destroys :
    ∃ s : State (Fin 2) (Fin 2), redisposing.Reachable s ∧
      ((s.calls 0).life = .held ∧ (s.slot 0).clientState = .issued ∧
        (s.calls 0).raft = .locked) ∧
      (redisposing.run s (throwRun 0)).any (fun u =>
        (u.calls 0).life = .thrown ∧ (u.slot 0).clientState = .abandoned) = true ∧
      (redisposing.run s (throwRun 0 ++ againRun 0)).any (fun u =>
        (u.calls 0).frees = 1 ∧ (u.frees 0).byLibrary = 1 ∧ (u.calls 0).raft = .locked ∧
        (u.slot 0).state = .pending) = true :=
  Scheduled.exists_reachable_of_run redisposing
    (([Act.allocBuffer] ++ sendRun 0 0 .apply (some 0) ++ takeRun 0).map .pool)
    (fun s => ((s.calls 0).life = .held ∧ (s.slot 0).clientState = .issued ∧
        (s.calls 0).raft = .locked) ∧
      (redisposing.run s (throwRun 0)).any (fun u =>
        (u.calls 0).life = .thrown ∧ (u.slot 0).clientState = .abandoned) = true ∧
      (redisposing.run s (throwRun 0 ++ againRun 0)).any (fun u =>
        (u.calls 0).frees = 1 ∧ (u.frees 0).byLibrary = 1 ∧ (u.calls 0).raft = .locked ∧
        (u.slot 0).state = .pending) = true)
    (by decide +kernel)

end Libraft.Pool
