import Libraft.Pool.Results

/-!
# The slot mutexes and the reuse of slots

As long as nobody unlocks a mutex which is not its own, the mutex of a slot is
held by exactly the threads inside its critical sections, and the Raft side
has left a slot before it is deallocated. `try_dispose_orphan` unlocks the
mutex after `dispose` has deallocated the slot, so this depends on who holds
the mutex of the node at that moment.
-/

namespace Libraft.Pool

open Libraft.Foundation Libraft.Calls

variable {τ ρ : Type*}

/-- The threads inside a critical section of call `c`; `gc` says whether the
collector is. -/
def Call.inside (c : ℕ) (call : Call τ) (gc : Bool) : Actor τ → Bool
  | .client t => (call.uses t).holds
  | .raft d => d = c && call.raft.holds
  | .gc => gc

section Inside
variable [DecidableEq τ] {c : ℕ} {call call' : Call τ} {gc : Bool}

theorem inside_update_client {t : τ} {use : Use}
    (hu : call'.uses = Function.update call.uses t use) (hr : call'.raft = call.raft) :
    call'.inside c gc = Function.update (call.inside c gc) (.client t) use.holds := by
  funext x
  cases x with
  | client u =>
      by_cases hut : u = t
      · simp [Call.inside, hu, hut]
      · simp [Call.inside, hu, hut]
  | raft d => simp [Call.inside, hr]
  | gc => simp [Call.inside]

theorem inside_update_raft (hu : call'.uses = call.uses) :
    call'.inside c gc = Function.update (call.inside c gc) (.raft c) call'.raft.holds := by
  funext x
  cases x with
  | client u => simp [Call.inside, hu]
  | raft d =>
      by_cases hd : d = c
      · simp [Call.inside, hd]
      · simp [Call.inside, hd]
  | gc => simp [Call.inside]

theorem inside_update_gc (b : Bool) :
    call.inside c b = Function.update (call.inside c gc) .gc b := by
  funext x
  cases x <;> simp [Call.inside]

variable {slot slot' : BaseSlot (Actor τ)} {a : CallAct τ}

/-- The users of a slot take its mutex and give it back. -/
theorem CallTrans.heldAt (ht : CallTrans c call slot a call' slot')
    (h : HeldAt id slot.owned (call.inside c gc)) :
    HeldAt id slot'.owned (call'.inside c gc) := by
  have hclient {t : τ} {use : Use} (hu : call'.uses = Function.update call.uses t use)
      (hr : call'.raft = call.raft)
      (hs : LockStep (.client t) slot.owned (call.uses t).holds slot'.owned use.holds) :
      HeldAt id slot'.owned (call'.inside c gc) := by
    rw [inside_update_client hu hr]
    exact h.step hs
  have hraft {raft : Raft} (hr : call.raft = raft) (hu : call'.uses = call.uses)
      (hs : LockStep (.raft c) slot.owned raft.holds slot'.owned call'.raft.holds) :
      HeldAt id slot'.owned (call'.inside c gc) := by
    rw [inside_update_raft hu]
    refine h.step ?_
    simpa [Call.inside, hr] using hs
  cases ht with
  | start hl hu =>
      refine hclient rfl rfl ?_
      rw [hu, holds_first]
      exact .keep
  | use hu => exact hclient rfl rfl hu.lockStep
  | leave hu =>
      refine hclient rfl rfl ?_
      rw [hu]
      exact .keep
  | raftLock hr ho => exact hraft hr rfl (ho ▸ .acquire)
  | replyValue hr | replyError hr => exact hraft hr rfl .keep
  | storeRetval hr | storeError hr | storeState hr hs | notify hr hn | record hr =>
      exact hraft hr rfl .keep
  | raftUnlock hr =>
      rcases hr with hr | hr
      · exact hraft hr rfl .release
      · exact hraft hr rfl .release
  | _ => exact h

end Inside

/-- The positions in `try_dispose_orphan` at which the collector holds the mutex
of the orphan. Behind a successful `dispose` there is no orphan any more. -/
def Attempt.holds : Attempt → Bool
  | .tryLock => false
  | .test | .dispose => true
  | .release locked disposed => locked && !disposed

def State.gcInside (s : State τ ρ) (c : ℕ) : Bool :=
  match s.gc with
  | .attempt d _ pc => d = c && pc.holds
  | _ => false

theorem gcInside_of_attempt {s : State τ ρ} {c : ℕ} {entry : Option ℕ} {pc : Attempt}
    (hg : s.gc = .attempt c entry pc) (d : ℕ) : s.gcInside d = (c = d && pc.holds) := by
  rw [State.gcInside, hg]

/-- The Raft side has left the slot before the client or the collector can
deallocate it. -/
def Settled (call : Call τ) : Prop :=
  call.raft.holds = true →
    call.client ≠ .observed ∧ (∀ pc, call.life ≠ .disposing true pc) ∧ call.life ≠ .gone

/-- Mutual exclusion on the slots. -/
structure Excl (s : State τ ρ) : Prop where
  held : ∀ c, (s.calls c).life.live = true →
    HeldAt id (s.slot c).owned ((s.calls c).inside c (s.gcInside c))
  settled : ∀ c, Settled (s.calls c)

/-- The call whose mutex the step unlocks behind a successful `dispose`, at the
end of the scope of `slot_lock`. -/
def State.lateRelease (s : State τ ρ) : Act τ ρ → Option ℕ
  | .gcStep =>
      match s.gc with
      | .attempt c _ (.release true true) => some c
      | _ => none
  | _ => none

theorem attempt_of_lateRelease {s : State τ ρ} {a : Act τ ρ} {c : ℕ}
    (h : s.lateRelease a = some c) :
    a = .gcStep ∧ ∃ entry, s.gc = .attempt c entry (.release true true) := by
  unfold State.lateRelease at h
  split at h
  · split at h
    · rename_i entry hg
      cases h
      exact ⟨rfl, entry, hg⟩
    · cases h
  · cases h

/-- At such a step no thread other than the collector holds the mutex of the node. -/
def HarmlessRelease (s : State τ ρ) (a : Act τ ρ) (_ : State τ ρ) : Prop :=
  ∀ c ∈ s.lateRelease a, ∀ x ∈ (s.slot c).owned, x = .gc

instance [DecidableEq τ] (s : State τ ρ) (a : Act τ ρ) (s' : State τ ρ) :
    Decidable (HarmlessRelease s a s') :=
  inferInstanceAs (Decidable (∀ c ∈ s.lateRelease a, ∀ x ∈ (s.slot c).owned, x = .gc))

theorem excl_initial : Excl (initial : State τ ρ) where
  held := by simp [initial, Call.unborn, Life.live]
  settled := by simp [initial, Call.unborn, Settled, Raft.holds]

section Facts
variable [DecidableEq ρ] {s : State τ ρ}

/-- The Raft side works on live slots only. -/
theorem Excl.live_of_holds (h : Excl s) (hi : Inv s) {c : ℕ}
    (hr : (s.calls c).raft.holds = true) : (s.calls c).life.live = true := by
  obtain ⟨hobs, hgc, hgone⟩ := h.settled c hr
  have hraft : (s.calls c).raft ≠ .idle := by
    intro hidle
    simp [hidle, Raft.holds] at hr
  have hsent := hi.api.sent_of_taken (hi.api.taken c hraft)
  have hlife := (hi.calls c).lifecycle
  by_contra hd
  unfold Lifecycle at hlife
  split at hlife <;> simp_all [Life.live, Life.unsent]
  split at hd <;> simp_all

/-- The Raft side starts on live slots only. -/
theorem Inv.live_of_taken (hi : Inv s) {c : ℕ} (hc : c ∈ s.taken)
    (hr : (s.calls c).raft = .idle) : (s.calls c).life.live = true := by
  by_contra hd
  have hcomp := hi.completed_of_dead (by simpa using hd) (hi.api.sent_of_taken hc)
  have hquiet := (hi.calls c).completion.quiet (hi.api.not_rejected_of_taken hc) (.inl hr)
  simp [hquiet.2] at hcomp

omit [DecidableEq ρ] in
/-- While the collector is inside, the Raft side is not. -/
theorem Excl.raft_out_of_gc (h : Excl s) {c : ℕ} (hl : (s.calls c).life.live = true)
    (hg : s.gcInside c = true) : (s.calls c).raft.holds = false := by
  by_contra hr
  have hu : (Actor.raft c : Actor τ) = .gc :=
    (h.held c hl).unique (by simpa [Call.inside] using hr) hg
  cases hu

omit [DecidableEq ρ] in
/-- While a client thread is inside, the Raft side is not. -/
theorem Excl.raft_out_of_client (h : Excl s) {c : ℕ} (hl : (s.calls c).life.live = true) {t : τ}
    (hu : ((s.calls c).uses t).holds = true) : (s.calls c).raft.holds = false := by
  by_contra hr
  have hu : (Actor.raft c : Actor τ) = .client t :=
    (h.held c hl).unique (by simpa [Call.inside] using hr) hu
  cases hu

end Facts

section Settled
variable [DecidableEq τ] [DecidableEq ρ] {s s' : State τ ρ} {a : Act τ ρ}

omit [DecidableEq τ] in
/-- A step which is none of the Raft side's. -/
theorem Settled.keep {call call' : Call τ} (h : Settled call) (hr : call'.raft = call.raft)
    (hc : call'.client = call.client)
    (hl : ∀ pc, call'.life = .disposing true pc → ∃ pc, call.life = .disposing true pc)
    (hg : call'.life ≠ .gone) : Settled call' := by
  intro hraft
  rw [hr] at hraft
  obtain ⟨hobs, hgc, -⟩ := h hraft
  refine ⟨hc ▸ hobs, fun pc hpc => ?_, hg⟩
  obtain ⟨pc', hpc'⟩ := hl pc hpc
  exact hgc pc' hpc'

theorem Settled.step (h : Excl s) (hi : Inv s) {c : ℕ} {a : CallAct τ} {call : Call τ}
    {slot : BaseSlot (Actor τ)} (ht : CallTrans c (s.calls c) (s.slot c) a call slot)
    (hr : a = .raftLock → c ∈ s.taken) : Settled call := by
  have hsettled := h.settled c
  have hholds {raft : Raft} (he : (s.calls c).raft = raft) (hh : raft.holds = true) :
      (s.calls c).client ≠ .observed ∧ (∀ pc, (s.calls c).life ≠ .disposing true pc) ∧
        (s.calls c).life ≠ .gone := hsettled (he ▸ hh)
  cases ht with
  | failError hl | failState hl => exact hsettled.keep rfl rfl (by simp) (by simp)
  | start hl hu =>
      exact hsettled.keep rfl rfl (by simp [Call.setUse, hl]) (by simp [Call.setUse, hl])
  | @use t use slot' hut =>
      have hl := (hi.calls c).usage.held_of_use hut
      intro hraft
      obtain ⟨hobs, hgc, hgone⟩ := hsettled hraft
      refine ⟨?_, hgc, hgone⟩
      generalize hold : (s.calls c).uses t = old
      simp only [Call.setUse]
      split
      · -- the thread which stores to `client_state` has the mutex
        have hout := h.raft_out_of_client (c := c) (t := t) (by simp [hl, Life.live])
          (by simp [hold, Use.holds])
        exact absurd hraft (by simp [Call.setUse, hout])
      · exact hobs
  | leave hu => exact hsettled
  | wake hw => exact hsettled
  | raftLock hidle ho =>
      intro _
      have htaken := hr rfl
      have hcomp := ((hi.calls c).completion.quiet (hi.api.not_rejected_of_taken htaken)
        (.inl hidle)).2
      have hlife := (hi.calls c).lifecycle
      refine ⟨fun hobs => ?_, fun pc hpc => ?_, fun hgone => ?_⟩
      · simp [((hi.calls c).usage.observed hobs).1] at hcomp
      · cases pc <;> simp_all [Lifecycle]
      · simp_all [Lifecycle]
  | replyValue hraft | replyError hraft => exact fun _ => hholds hraft rfl
  | storeRetval hraft | storeError hraft | storeState hraft hs | notify hraft hn | record hraft =>
      exact fun _ => hholds hraft rfl
  | raftUnlock hraft => simp [Settled, Raft.holds]
  | dispose hl ha => exact hsettled.keep rfl rfl (by simp) (by simp)
  | load hl => exact hsettled.keep rfl rfl (by simp [hl]) (by simp)
  | @abandon byGc hl =>
      intro hraft
      obtain ⟨-, hgc, -⟩ := hsettled hraft
      refine ⟨by simp, fun pc hpc => ?_, by simp⟩
      cases hpc
      exact hgc _ hl

theorem Excl.settled_step (h : Excl s) (hi : Inv s) (ht : Trans s a s') :
    ∀ c, Settled (s'.calls c) := by
  have hupd {c : ℕ} {call : Call τ} (hc : Settled call) (d : ℕ) :
      Settled (Function.update s.calls c call d) := by
    by_cases hd : d = c
    · subst hd
      simpa using hc
    · simpa [hd] using h.settled d
  cases ht with
  | create he hb => exact hupd (by simp [Settled, Call.create, Call.unborn, Raft.holds])
  | @allocate c n err hl hp =>
      refine hupd ((h.settled c).keep ?_ ?_ ?_ ?_) <;> cases err <;> simp [Call.allocated]
  | enqueue hl hq => exact hupd ((h.settled _).keep rfl rfl (by simp) (by simp))
  | sentOk hl hp => exact hupd ((h.settled _).keep rfl rfl (by simp) (by simp))
  | sentClosed hl hp =>
      exact hupd ((h.settled _).keep rfl rfl (by simp [Call.refused]) (by simp [Call.refused]))
  | call ht hr => exact hupd (.step h hi ht hr)
  | track hl ho | trackClosed hl ho =>
      exact hupd ((h.settled _).keep rfl rfl (by simp) (by simp))
  | cleanup hl | deallocate hl =>
      exact hupd ((h.settled _).keep rfl rfl (by simp [hl]) (by simp))
  | @count c byGc hl =>
      refine hupd fun hr => ?_
      obtain ⟨hobs, hgc, -⟩ := h.settled c hr
      have hlife := (hi.calls c).lifecycle
      cases byGc with
      | true => exact absurd hl (hgc _)
      | false =>
          simp only [Lifecycle, hl] at hlife
          exact absurd hlife.1 hobs
  | @testDone c entry hg hterm =>
      have hl : (s.calls c).life = .orphaned := hi.gc.attempt c entry .test hg
      refine hupd fun hr => ?_
      have hout := h.raft_out_of_gc (c := c) (by simp [hl, Life.live])
        (by simp [State.gcInside, hg, Attempt.holds])
      rw [hout] at hr
      cases hr
  | release hg =>
      rw [released_eq]
      exact h.settled
  | _ => exact h.settled

end Settled

section Held
variable {s s' : State τ ρ}

/-- A step which leaves the nodes and the threads inside alone. -/
theorem Excl.held_keep (h : Excl s) (hmem : s'.mem = s.mem)
    (hcalls : ∀ c, (s'.calls c).life.live = true → (s.calls c).life.live = true ∧
      (s'.calls c).addr = (s.calls c).addr ∧ (s'.calls c).uses = (s.calls c).uses ∧
      (s'.calls c).raft = (s.calls c).raft ∧ s'.gcInside c = s.gcInside c) :
    ∀ c, (s'.calls c).life.live = true →
      HeldAt id (s'.slot c).owned ((s'.calls c).inside c (s'.gcInside c)) := by
  intro c hc
  obtain ⟨hl, haddr, huses, hraft, hgc⟩ := hcalls c hc
  have hin : (s'.calls c).inside c (s'.gcInside c) = (s.calls c).inside c (s.gcInside c) := by
    funext x
    cases x <;> simp [Call.inside, huses, hraft, hgc]
  rw [hin, State.slot, hmem, haddr]
  exact h.held c hl

/-- The same when one call has moved on. -/
theorem Excl.held_setCall (h : Excl s) {c : ℕ} {call : Call τ}
    (hcalls : s'.calls = Function.update s.calls c call) (hmem : s'.mem = s.mem)
    (hgc : s'.gc = s.gc)
    (hc : call.life.live = true → (s.calls c).life.live = true ∧ call.addr = (s.calls c).addr ∧
      call.uses = (s.calls c).uses ∧ call.raft = (s.calls c).raft) :
    ∀ d, (s'.calls d).life.live = true →
      HeldAt id (s'.slot d).owned ((s'.calls d).inside d (s'.gcInside d)) := by
  have hg (d : ℕ) : s'.gcInside d = s.gcInside d := by rw [State.gcInside, hgc, State.gcInside]
  refine h.held_keep hmem fun d hd => ?_
  by_cases hdc : d = c
  · subst hdc
    simp only [hcalls, Function.update_self] at hd ⊢
    obtain ⟨hl, haddr, huses, hraft⟩ := hc hd
    exact ⟨hl, haddr, huses, hraft, hg d⟩
  · rw [hcalls, Function.update_of_ne hdc] at hd ⊢
    exact ⟨hd, rfl, rfl, rfl, hg d⟩

/-- The collector moves on without touching a mutex. -/
theorem Excl.held_gc (h : Excl s) (hmem : s'.mem = s.mem) (hcalls : s'.calls = s.calls)
    (hgc : ∀ c, (s.calls c).life.live = true → s'.gcInside c = s.gcInside c) :
    ∀ c, (s'.calls c).life.live = true →
      HeldAt id (s'.slot c).owned ((s'.calls c).inside c (s'.gcInside c)) := by
  refine h.held_keep hmem fun c hc => ?_
  rw [hcalls] at hc ⊢
  exact ⟨hc, rfl, rfl, rfl, hgc c hc⟩

variable [DecidableEq τ] [DecidableEq ρ] {a : Act τ ρ}

/-- The collector locks or unlocks the mutex of the orphan it works on. -/
theorem Excl.held_lock (h : Excl s) (hi : Inv s) {c : ℕ}
    (hl : (s.calls c).life.live = true) {slot : BaseSlot (Actor τ)} (hcalls : s'.calls = s.calls)
    (hmem : s'.mem = Function.update s.mem (s.calls c).addr slot)
    (hgc : ∀ d, d ≠ c → s'.gcInside d = s.gcInside d)
    (hs : LockStep .gc (s.slot c).owned (s.gcInside c) slot.owned (s'.gcInside c)) :
    ∀ d, (s'.calls d).life.live = true →
      HeldAt id (s'.slot d).owned ((s'.calls d).inside d (s'.gcInside d)) := by
  intro d hd
  simp only [State.slot, hcalls, hmem] at hd ⊢
  by_cases hdc : d = c
  · subst hdc
    rw [Function.update_self, inside_update_gc (s'.gcInside d)]
    exact (h.held d hl).step hs
  · have hne : (s.calls d).addr ≠ (s.calls c).addr := fun he => hdc (hi.addr_inj hd hl he)
    rw [Function.update_of_ne hne, hgc d hdc]
    exact h.held d hd

/-- Only a wakeup without notification comes to the node of a dead call. -/
theorem Excl.live_of_call (h : Excl s) (hi : Inv s) {c : ℕ} {a : CallAct τ} {call : Call τ}
    {slot : BaseSlot (Actor τ)} (ht : CallTrans c (s.calls c) (s.slot c) a call slot)
    (hr : a = .raftLock → c ∈ s.taken) :
    (s.calls c).life.live = true ∨ ∃ t, a = .wake t := by
  have hholds {raft : Raft} (he : (s.calls c).raft = raft) (hh : raft.holds = true) :
      (s.calls c).life.live = true ∨ ∃ t, a = .wake t :=
    .inl (h.live_of_holds hi (he ▸ hh))
  cases ht with
  | failError hl | failState hl => exact .inl (by simp [hl, Life.live])
  | start hl hu => exact .inl (by simp [hl, Life.live])
  | @use t use slot' hut =>
      have hl := (hi.calls c).usage.held_of_use hut
      exact .inl (by simp [hl, Life.live])
  | @leave t op fast res hu =>
      have hl := (hi.calls c).usage.held_of_ne_idle (t := t) (by simp [hu])
      exact .inl (by simp [hl, Life.live])
  | wake hw => exact .inr ⟨_, rfl⟩
  | raftLock hidle ho => exact .inl (hi.live_of_taken (hr rfl) hidle)
  | replyValue hraft | replyError hraft => exact hholds hraft rfl
  | storeRetval hraft | storeError hraft | storeState hraft hs | notify hraft hn | record hraft =>
      exact hholds hraft rfl
  | raftUnlock hraft =>
      rcases hraft with hraft | hraft
      · exact hholds hraft rfl
      · exact hholds hraft rfl
  | dispose hl ha => exact .inl (by simp [hl, Life.live])
  | load hl | abandon hl => exact .inl (by simp [hl, Life.live])

theorem Excl.held_call (h : Excl s) (hi : Inv s) {c : ℕ} {a : CallAct τ} {call : Call τ}
    {slot : BaseSlot (Actor τ)} (ht : CallTrans c (s.calls c) (s.slot c) a call slot)
    (hr : a = .raftLock → c ∈ s.taken) (hcalls : s'.calls = Function.update s.calls c call)
    (hmem : s'.mem = Function.update s.mem (s.calls c).addr slot) (hgc : s'.gc = s.gc) :
    ∀ d, (s'.calls d).life.live = true →
      HeldAt id (s'.slot d).owned ((s'.calls d).inside d (s'.gcInside d)) := by
  intro d hd
  have hg : s'.gcInside d = s.gcInside d := by rw [State.gcInside, hgc, State.gcInside]
  rw [hg]
  simp only [State.slot, hcalls, hmem] at hd ⊢
  by_cases hdc : d = c
  · subst hdc
    simp only [Function.update_self] at hd ⊢
    rw [ht.fixed.1, Function.update_self]
    rw [ht.fixed.2.2.2] at hd
    exact ht.heldAt (h.held d hd)
  · rw [Function.update_of_ne hdc] at hd ⊢
    by_cases hp : (s.calls d).addr = (s.calls c).addr
    · rcases h.live_of_call hi ht hr with hlive | ⟨t, rfl⟩
      · exact absurd (hi.addr_inj hd hlive hp) hdc
      · cases ht
        have hheld := h.held d hd
        rw [State.slot, hp] at hheld
        rw [hp, Function.update_self]
        exact hheld
    · rw [Function.update_of_ne hp]
      exact h.held d hd

/-- The end of `try_dispose_orphan`. -/
theorem Excl.held_release (h : Excl s) (hi : Inv s) {c : ℕ} {entry : Option ℕ}
    {locked disposed : Bool} (hg : s.gc = .attempt c entry (.release locked disposed))
    (hharm : disposed = true → ∀ x, (s.slot c).owned = some x → x = .gc)
    (hcalls : s'.calls = s.calls) (hmem : s'.mem = (s.unlocked c locked).mem)
    (hgc : ∀ d, s'.gcInside d = false) :
    ∀ d, (s'.calls d).life.live = true →
      HeldAt id (s'.slot d).owned ((s'.calls d).inside d (s'.gcInside d)) := by
  have hfit := hi.gc.attempt c entry _ hg
  have hin := gcInside_of_attempt hg
  cases disposed with
  | false =>
      have hl : (s.calls c).life = .orphaned := hfit.2 rfl
      cases locked with
      | false => exact h.held_gc hmem hcalls fun d _ => by simp [hgc, hin, Attempt.holds]
      | true =>
          refine h.held_lock hi (c := c) (by simp [hl, Life.live]) hcalls hmem (fun d hd => ?_) ?_
          · simp [hgc, hin, Ne.symm hd]
          · simpa [hgc, hin, Attempt.holds] using LockStep.release
  | true =>
      -- the slot of `c` is gone, and another call may have its node
      have hgc' (d : ℕ) : s'.gcInside d = s.gcInside d := by simp [hgc, hin, Attempt.holds]
      intro d hd
      rw [hcalls] at hd ⊢
      rw [hgc', State.slot, hcalls, hmem, unlocked_mem, (hfit.1 rfl).1]
      have hheld := h.held d hd
      by_cases hp : (s.calls d).addr = (s.calls c).addr
      · have hslot : s.slot c = s.slot d := by rw [State.slot, State.slot, hp]
        have hnone : (s.slot d).owned = none := by
          cases ho : (s.slot d).owned with
          | none => rfl
          | some x =>
              have hx : x = .gc := hharm rfl x (by rw [hslot, ho])
              have hcrit := (hheld x).mp ho
              rw [hx] at hcrit
              simp [Call.inside, ← hgc', hgc] at hcrit
        rw [hp, Function.update_self]
        rw [hnone] at hheld
        exact hheld
      · rw [Function.update_of_ne hp]
        exact hheld

omit [DecidableEq τ] in
/-- The slot which `alloc_request_` constructs is free. -/
theorem Excl.held_allocate (h : Excl s) (hi : Inv s) {c : ℕ} {p : Addr} {err : Option RaftError}
    (hl : (s.calls c).life = .creating (.allocate err)) (hp : s.pool p = none)
    (hcalls : s'.calls = Function.update s.calls c ((s.calls c).allocated p err))
    (hmem : s'.mem = Function.update s.mem p (.new (s.calls c).tag)) (hgc : s'.gc = s.gc) :
    ∀ d, (s'.calls d).life.live = true →
      HeldAt id (s'.slot d).owned ((s'.calls d).inside d (s'.gcInside d)) := by
  intro d hd
  have hg : s'.gcInside d = s.gcInside d := by rw [State.gcInside, hgc, State.gcInside]
  rw [hg]
  simp only [State.slot, hcalls, hmem] at hd ⊢
  by_cases hdc : d = c
  · subst hdc
    have hout : s.gcInside d = false := by
      have hno := hi.gc.not_attempted_of_undisposed (c := d) (by simp [hl, Life.undisposed])
      unfold State.gcInside
      split
      · rename_i d' entry pc hatt
        have hne : d' ≠ d := by
          rintro rfl
          exact hno ⟨entry, pc, hatt⟩
        simp [hne]
      · rfl
    have hidle := hi.api.idle_of_unsent (c := d) (by simp [hl, Life.unsent])
    have huses := (hi.calls d).usage.idle_of_ne_held (by simp [hl])
    have haddr : ((s.calls d).allocated p err).addr = p := by cases err <;> rfl
    rw [Function.update_self, haddr, Function.update_self]
    intro x
    cases x <;> cases err <;>
      simp [BaseSlot.new, Call.allocated, Call.inside, huses, hidle, hout, Use.holds, Raft.holds]
  · rw [Function.update_of_ne hdc] at hd ⊢
    have hne : (s.calls d).addr ≠ p := by
      intro he
      have hsome := (hi.pool p d).mpr ⟨hd, he⟩
      simp [hp] at hsome
    rw [Function.update_of_ne hne]
    exact h.held d hd

theorem Excl.held_step (h : Excl s) (hi : Inv s) (ht : Trans s a s')
    (hharm : HarmlessRelease s a s') :
    ∀ c, (s'.calls c).life.live = true →
      HeldAt id (s'.slot c).owned ((s'.calls c).inside c (s'.gcInside c)) := by
  cases ht with
  | create he hb => exact h.held_setCall rfl rfl rfl (by simp [Call.create, Life.live])
  | allocate hl hp => exact h.held_allocate hi hl hp rfl rfl rfl
  | enqueue hl hq =>
      exact h.held_setCall rfl rfl rfl fun _ => ⟨by simp [hl, Life.live], rfl, rfl, rfl⟩
  | sentOk hl hp | sentClosed hl hp =>
      exact h.held_setCall rfl rfl rfl fun _ => ⟨by simp [hl, Life.live], rfl, rfl, rfl⟩
  | call ht hr => exact h.held_call hi ht hr rfl rfl rfl
  | track hl ho | trackClosed hl ho =>
      exact h.held_setCall rfl rfl rfl fun _ => ⟨by simp [hl, Life.live], rfl, rfl, rfl⟩
  | cleanup hl =>
      exact h.held_setCall rfl rfl rfl fun _ => ⟨by simp [hl, Life.live], rfl, rfl, rfl⟩
  | deallocate hl | count hl => exact h.held_setCall rfl rfl rfl (by simp [Life.live])
  | gcTake hg ho hc =>
      exact h.held_gc rfl rfl fun c _ => by simp [State.gcInside, hg, Attempt.holds]
  | gcTimeout hg hb | gcStop hg hb =>
      exact h.held_gc rfl rfl fun c _ => by simp [State.gcInside, hg]
  | @tryLock c entry hg ho =>
      have hl : (s.calls c).life = .orphaned := hi.gc.attempt c entry .tryLock hg
      refine h.held_lock hi (by simp [hl, Life.live]) rfl rfl (fun d hd => ?_) ?_
      · simp [State.gcInside, hg, Ne.symm hd]
      · simpa [State.gcInside, hg, ho, Attempt.holds] using LockStep.acquire
  | tryFail hg ho => exact h.held_gc rfl rfl fun c _ => by simp [State.gcInside, hg, Attempt.holds]
  | @testDone c entry hg hterm =>
      have hl : (s.calls c).life = .orphaned := hi.gc.attempt c entry .test hg
      refine h.held_keep rfl fun d hd => ?_
      by_cases hdc : d = c
      · subst hdc
        simp [hl, Life.live, State.gcInside, hg, Attempt.holds]
      · simpa [hdc, State.gcInside, hg, Ne.symm hdc] using hd
  | testPending hg hterm =>
      exact h.held_gc rfl rfl fun c _ => by simp [State.gcInside, hg, Attempt.holds]
  | @disposed c entry hg hl =>
      refine h.held_gc rfl rfl fun d hd => ?_
      have hne : c ≠ d := by
        rintro rfl
        simp [hl, Life.live] at hd
      simp [State.gcInside, hg, hne]
  | @release c entry locked disposed hg =>
      refine h.held_release hi hg ?_ (by simp) (by simp) fun d => ?_
      · rintro rfl
        obtain ⟨rfl, -⟩ := (hi.gc.attempt c entry _ hg).1 rfl
        exact hharm c (by simp [State.lateRelease, hg])
      · cases entry <;> cases disposed <;> rfl
  | scan hg hb => exact h.held_gc rfl rfl fun c _ => by simp [State.gcInside, hg, Attempt.holds]
  | scanEnd hg hb => exact h.held_gc rfl rfl fun c _ => by simp [State.gcInside, hg]
  | check hg hn =>
      refine h.held_gc rfl rfl fun c _ => ?_
      rcases hn with rfl | rfl <;> simp [State.gcInside, hg]
  | _ => exact h.held

theorem Excl.trans (h : Excl s) (hi : Inv s) (ht : Trans s a s')
    (hharm : HarmlessRelease s a s') : Excl s' :=
  ⟨h.held_step hi ht hharm, h.settled_step hi ht⟩

theorem excl_of_reach
    (h : (system : Scheduled (State τ ρ) (Act τ ρ)).Reach HarmlessRelease s) : Excl s :=
  h.invariant excl_initial fun _ _ _ hr he ht hg =>
    he.trans (inv_of_reachable hr.reachable) (trans_of_step ht) hg

end Held

end Libraft.Pool
