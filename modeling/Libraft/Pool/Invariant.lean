import Libraft.Pool.Sending
import Libraft.Pool.Collector

/-!
# The invariants of the pool

Every node holds the slot of at most one live call, every live call agrees with
its slot, a call is in the API queue at most once and only if its creator did
not fail it, and the collector's lists name each orphan once. None of this
depends on the slot mutexes doing their work.
-/

namespace Libraft.Pool

open Libraft.Foundation Libraft.Calls
open Libraft.Queue

variable {τ ρ : Type*}

section CallSteps
variable {call call' : Call τ}

/-- A step of creation or disposal which leaves completion and usage alone. -/
theorem CallOk.advance (h : CallOk call) (hlife : Lifecycle call') (hheld : call.life ≠ .held)
    (hfail : call'.life.failing = false)
    (hearly : call'.life.early = true → call.life.early = true)
    (hfix : call'.raft = call.raft ∧ call'.outcome = call.outcome ∧
      call'.completed = call.completed ∧ call'.rejected = call.rejected ∧
      call'.active = call.active ∧ call'.uses = call.uses ∧ call'.tag = call.tag ∧
      call'.entered = call.entered ∧ call'.client = call.client) : CallOk call' := by
  obtain ⟨hraft, hout, hcomp, hrej, hact, huses, htag, hent, hclient⟩ := hfix
  refine ⟨h.completion.keep hraft hout hcomp hrej (by simp [hfail]) hearly, ?_, hlife⟩
  refine h.usage.keep hact huses htag (fun _ => ?_) hent hclient (by rw [hcomp]; exact id)
    fun _ => hout
  rw [hact]
  exact h.usage.free hheld

theorem callOk_create (tag : CallTag) (buf : Option ℕ) (err : Option RaftError) :
    CallOk (Call.create tag buf err : Call τ) where
  completion := ⟨by simp [Call.create, Call.unborn], by simp [Call.create, Call.unborn],
    by simp [Call.create, Call.unborn], by simp [Call.create, Call.unborn],
    by simp [Call.create, Life.failing], by simp [Call.create, Call.unborn]⟩
  usage := ⟨by simp [Call.create, Call.unborn], by simp [Call.create, Call.unborn],
    fun _ => trivial, by simp [Call.create, Call.unborn, Call.entered],
    by simp [Call.create, Call.unborn]⟩
  lifecycle := by simp [Lifecycle, Call.create, Call.unborn]

/-- The creating thread fails a call which it has not given away. -/
theorem CallOk.fail (h : CallOk call) (hearly : call.life.early = true)
    (hidle : call.raft = .idle) {err : RaftError}
    (hl : call'.life = .creating (.setError err)) (hrej : call'.rejected = true)
    (hout : call'.outcome = some (err, 0))
    (hfix : call'.raft = call.raft ∧ call'.completed = call.completed ∧
      call'.active = call.active ∧ call'.uses = call.uses ∧ call'.tag = call.tag ∧
      call'.entered = call.entered ∧ call'.client = call.client ∧
      call'.handed = call.handed ∧ call'.frees = call.frees ∧
      call'.cleanups = call.cleanups) : CallOk call' := by
  obtain ⟨hraft, hcomp, hact, huses, htag, hent, hclient, hhand, hfree, hclean⟩ := hfix
  have hne : call.life ≠ .held := by
    intro hh
    simp [hh, Life.early] at hearly
  have hnc : call.completed = false :=
    (h.completion.quiet (h.completion.early hearly) (.inl hidle)).2
  refine ⟨⟨?_, by simp [hrej], ?_, by simp [hcomp, hnc], ?_, by simp [hl, Life.early]⟩, ?_, ?_⟩
  · simp [hraft, hidle, hout]
  · simp [hraft, hidle]
  · exact fun _ => ⟨hrej, by rw [hcomp, hnc]⟩
  · refine h.usage.keep hact huses htag (fun _ => ?_) hent hclient (by rw [hcomp]; exact id)
      (by simp [hnc])
    rw [hact]
    exact h.usage.free hne
  · have hlife := h.lifecycle
    unfold Lifecycle at hlife ⊢
    rw [hl, hclient, hhand, hfree, hclean]
    split at hlife <;> simp_all [Life.early]

end CallSteps

/-- The pool, its calls, the API queue and the collector. -/
structure Inv [DecidableEq ρ] (s : State τ ρ) : Prop where
  calls : ∀ c, CallOk (s.calls c)
  pool : ∀ p c, s.pool p = some c ↔ (s.calls c).life.live = true ∧ (s.calls c).addr = p
  coh : ∀ c, (s.calls c).life.live = true → Coh (s.calls c) (s.slot c)
  api : ApiOk s
  gc : GcOk s

theorem inv_initial [DecidableEq ρ] : Inv (initial : State τ ρ) where
  calls := fun _ => callOk_unborn
  pool := by simp [initial, Call.unborn, Life.live]
  coh := by simp [initial, Call.unborn, Life.live]
  api := apiOk_initial
  gc := gcOk_initial

section Facts
variable [DecidableEq ρ] {s : State τ ρ}

/-- Two live calls have different nodes. -/
theorem Inv.addr_inj (h : Inv s) {c d : ℕ} (hc : (s.calls c).life.live = true)
    (hd : (s.calls d).life.live = true) (he : (s.calls c).addr = (s.calls d).addr) : c = d := by
  have h₁ := (h.pool _ c).mpr ⟨hc, rfl⟩
  have h₂ := (h.pool _ d).mpr ⟨hd, he.symm⟩
  exact Option.some.inj (h₁.symm.trans h₂)

/-- A call which was sent is completed before its slot is deallocated. -/
theorem Inv.completed_of_dead (h : Inv s) {c : ℕ} (hc : (s.calls c).life.live = false)
    (hs : (s.calls c).life.unsent = false) : (s.calls c).completed = true := by
  apply (h.calls c).completed_of_frees
  have hlife := (h.calls c).lifecycle
  unfold Lifecycle at hlife
  split at hlife <;> simp_all [Life.live, Life.unsent]
  split at hc <;> simp_all

end Facts

section Calls
variable [DecidableEq τ] [DecidableEq ρ] {s s' : State τ ρ} {a : Act τ ρ}

theorem Inv.calls_step (h : Inv s) (ht : Trans s a s') : ∀ c, CallOk (s'.calls c) := by
  have hupd {c : ℕ} {call : Call τ} (hc : CallOk call) (d : ℕ) :
      CallOk (Function.update s.calls c call d) := by
    by_cases hd : d = c
    · subst hd
      simpa using hc
    · simpa [hd] using h.calls d
  cases ht with
  | create he hb => exact hupd (callOk_create _ _ _)
  | @allocate c n err hl hp =>
      refine hupd ?_
      cases err with
      | none =>
          refine (h.calls c).advance ?_ (by simp [hl]) rfl (by simp [hl, Life.early])
            ⟨rfl, rfl, rfl, rfl, rfl, rfl, rfl, rfl, rfl⟩
          simpa [Lifecycle, hl, Call.allocated] using (h.calls c).lifecycle
      | some err =>
          exact (h.calls c).fail (by simp [hl, Life.early])
            (h.api.idle_of_unsent (by simp [hl, Life.unsent])) rfl rfl rfl
            ⟨rfl, rfl, rfl, rfl, rfl, rfl, rfl, rfl, rfl, rfl⟩
  | @enqueue c q hl hq =>
      refine hupd ((h.calls c).advance ?_ (by simp [hl]) rfl (by simp [hl, Life.early])
        ⟨rfl, rfl, rfl, rfl, rfl, rfl, rfl, rfl, rfl⟩)
      simpa [Lifecycle, hl] using (h.calls c).lifecycle
  | @sentOk c val hl hp =>
      refine hupd ((h.calls c).advance ?_ (by simp [hl]) rfl (by simp [Life.early])
        ⟨rfl, rfl, rfl, rfl, rfl, rfl, rfl, rfl, rfl⟩)
      have hlife : (s.calls c).client = .issued ∧ (s.calls c).handed = false ∧
          (s.calls c).frees = 0 ∧ (s.calls c).cleanups = 0 := by
        simpa [Lifecycle, hl] using (h.calls c).lifecycle
      simp [Lifecycle, hlife]
  | @sentClosed c val hl hp =>
      have hidle := h.api.idle_of_not_accepted (h.api.refused_not_accepted hl hp)
      exact hupd ((h.calls c).fail (by simp [hl, Life.early]) hidle rfl rfl rfl
        ⟨rfl, rfl, rfl, rfl, rfl, rfl, rfl, rfl, rfl, rfl⟩)
  | @call c a call slot ht hr =>
      exact hupd ((h.calls c).step (h.coh c) ht fun ha => h.api.not_rejected_of_taken (hr ha))
  | @track c byGc hl ho | @trackClosed c byGc hl ho =>
      refine hupd ((h.calls c).advance ?_ (by simp [hl]) rfl (by simp [Life.early])
        ⟨rfl, rfl, rfl, rfl, rfl, rfl, rfl, rfl, rfl⟩)
      have hlife := (h.calls c).lifecycle
      cases byGc <;> simp_all [Lifecycle]
  | @cleanup c byGc hl | @deallocate c byGc hl =>
      refine hupd ((h.calls c).advance ?_ (by simp [hl]) rfl (by simp [Life.early])
        ⟨rfl, rfl, rfl, rfl, rfl, rfl, rfl, rfl, rfl⟩)
      have hlife := (h.calls c).lifecycle
      cases byGc <;> simp_all [Lifecycle]
  | @count c byGc hl =>
      refine hupd ((h.calls c).advance ?_ (by simp [hl]) rfl (by simp [Life.early])
        ⟨rfl, rfl, rfl, rfl, rfl, rfl, rfl, rfl, rfl⟩)
      have hlife := (h.calls c).lifecycle
      have hcomp : (s.calls c).completed = true := by
        apply (h.calls c).completed_of_frees
        cases byGc <;> simp_all [Lifecycle]
      cases byGc <;> simp_all [Lifecycle]
  | @testDone c entry hg hterm =>
      have hl : (s.calls c).life = .orphaned := h.gc.attempt c entry .test hg
      have hcomp : (s.calls c).completed = true := by
        rw [← (h.coh c (by simp [hl, Life.live])).terminal, hterm]
      refine hupd ((h.calls c).advance ?_ (by simp [hl]) rfl (by simp [Life.early])
        ⟨rfl, rfl, rfl, rfl, rfl, rfl, rfl, rfl, rfl⟩)
      have hlife := (h.calls c).lifecycle
      simp_all [Lifecycle]
  | @release c entry locked disposed hg =>
      simpa using h.calls
  | _ => exact h.calls

end Calls

section Nodes
variable [DecidableEq ρ] {s s' : State τ ρ}

/-- A step which neither allocates nor deallocates. -/
theorem Inv.pool_keep (h : Inv s) (hp : s'.pool = s.pool)
    (hc : ∀ c, (s'.calls c).life.live = (s.calls c).life.live ∧
      ((s.calls c).life.live = true → (s'.calls c).addr = (s.calls c).addr)) :
    ∀ p c, s'.pool p = some c ↔ (s'.calls c).life.live = true ∧ (s'.calls c).addr = p := by
  intro p c
  rw [hp, h.pool, (hc c).1]
  constructor
  · rintro ⟨hl, ha⟩
    exact ⟨hl, ((hc c).2 hl).trans ha⟩
  · rintro ⟨hl, ha⟩
    exact ⟨hl, ((hc c).2 hl).symm.trans ha⟩

theorem Inv.pool_allocate (h : Inv s) {c : ℕ} {p : Addr} {call : Call τ}
    (hdead : (s.calls c).life.live = false) (hp : s.pool p = none)
    (hlive : call.life.live = true) (haddr : call.addr = p) :
    ∀ p' d, Function.update s.pool p (some c) p' = some d ↔
      (Function.update s.calls c call d).life.live = true ∧
        (Function.update s.calls c call d).addr = p' := by
  intro p' d
  by_cases hd : d = c
  · subst hd
    simp only [Function.update_self, hlive, haddr, true_and]
    by_cases hpe : p' = p
    · simp [hpe]
    · have hno : s.pool p' ≠ some d := by
        intro he
        simp [((h.pool p' d).mp he).1] at hdead
      simp [Function.update_of_ne hpe, hno, Ne.symm hpe]
  · rw [Function.update_of_ne hd, ← h.pool]
    by_cases hpe : p' = p
    · subst hpe
      simp [hp, Ne.symm hd]
    · rw [Function.update_of_ne hpe]

theorem Inv.pool_deallocate (h : Inv s) {c : ℕ} {call : Call τ}
    (hlive : (s.calls c).life.live = true) (hdead : call.life.live = false) :
    ∀ p d, Function.update s.pool (s.calls c).addr none p = some d ↔
      (Function.update s.calls c call d).life.live = true ∧
        (Function.update s.calls c call d).addr = p := by
  intro p d
  by_cases hd : d = c
  · subst hd
    simp only [Function.update_self, hdead, Bool.false_eq_true, false_and, iff_false]
    by_cases hpe : p = (s.calls d).addr
    · simp [hpe]
    · rw [Function.update_of_ne hpe, h.pool]
      exact fun ⟨_, he⟩ => hpe he.symm
  · rw [Function.update_of_ne hd]
    by_cases hpe : p = (s.calls c).addr
    · subst hpe
      simp only [Function.update_self, reduceCtorEq, false_iff]
      rintro ⟨hl, he⟩
      exact hd (h.addr_inj hl hlive he)
    · rw [Function.update_of_ne hpe, h.pool]

/-- Touching the mutex or the condition variable of a node. -/
theorem Inv.coh_soft (h : Inv s) {p : Addr} {slot : BaseSlot (Actor τ)}
    (hcalls : s'.calls = s.calls) (hmem : s'.mem = Function.update s.mem p slot)
    (hs : Soft (s.mem p) slot) :
    ∀ c, (s'.calls c).life.live = true → Coh (s'.calls c) (s'.slot c) := by
  intro c hc
  simp only [State.slot, hcalls, hmem] at hc ⊢
  have hcoh := h.coh c hc
  by_cases hp : (s.calls c).addr = p
  · subst hp
    rw [Function.update_self]
    exact hcoh.soft hs
  · rw [Function.update_of_ne hp]
    exact hcoh

/-- A step of one call which does not touch its node. -/
theorem Inv.coh_setCall (h : Inv s) {c : ℕ} {call : Call τ}
    (hcalls : s'.calls = Function.update s.calls c call) (hmem : s'.mem = s.mem)
    (hcoh : call.life.live = true → call.addr = (s.calls c).addr ∧ Coh call (s.slot c)) :
    ∀ d, (s'.calls d).life.live = true → Coh (s'.calls d) (s'.slot d) := by
  intro d hd
  simp only [State.slot, hcalls, hmem] at hd ⊢
  by_cases hdc : d = c
  · subst hdc
    simp only [Function.update_self] at hd ⊢
    obtain ⟨ha, hco⟩ := hcoh hd
    rw [ha]
    exact hco
  · rw [Function.update_of_ne hdc] at hd ⊢
    exact h.coh d hd

/-- A step of creation or disposal which stores no part of an outcome. -/
theorem Inv.coh_setLife (h : Inv s) {c : ℕ} {call : Call τ} {life : Life}
    (hcalls : s'.calls = Function.update s.calls c call) (hmem : s'.mem = s.mem)
    (hl : (s.calls c).life = life) (hlive : life.live = true) (hf : life.failing = false)
    (hf' : call.life.failing = false)
    (hfix : call.addr = (s.calls c).addr ∧ call.tag = (s.calls c).tag ∧
      call.client = (s.calls c).client ∧ call.completed = (s.calls c).completed ∧
      call.outcome = (s.calls c).outcome ∧ call.raft = (s.calls c).raft) :
    ∀ d, (s'.calls d).life.live = true → Coh (s'.calls d) (s'.slot d) := by
  obtain ⟨haddr, htag, hclient, hcomp, hout, hraft⟩ := hfix
  refine h.coh_setCall hcalls hmem fun _ => ⟨haddr, ?_⟩
  refine (h.coh c (hl ▸ hlive)).keep ⟨rfl, rfl, rfl, rfl, rfl⟩ htag hclient hcomp hout ?_
  rw [storing_of_not_failing hf', hraft, storing_of_not_failing (hl ▸ hf)]

/-- The slot which `alloc_request_` constructs. -/
theorem Inv.coh_allocated (h : Inv s) {c : ℕ} {err : Option RaftError}
    (hl : (s.calls c).life = .creating (.allocate err)) (p : Addr) :
    Coh ((s.calls c).allocated p err) (.new (s.calls c).tag) := by
  have hidle := h.api.idle_of_unsent (c := c) (by simp [hl, Life.unsent])
  obtain ⟨hout, hcomp⟩ := (h.calls c).completion.quiet
    ((h.calls c).completion.early (by simp [hl, Life.early])) (.inl hidle)
  have hclient : (s.calls c).client = .issued := by
    have hlife := (h.calls c).lifecycle
    simp only [Lifecycle, hl] at hlife
    exact hlife.1
  cases err with
  | none =>
      refine ⟨rfl, hclient.symm, hcomp.symm, ?_⟩
      simp [Call.allocated, Call.storing, Raft.storing, hidle, Stored, hout, BaseSlot.new]
  | some err => exact ⟨rfl, hclient.symm, hcomp.symm, rfl⟩

theorem Inv.coh_allocate (h : Inv s) {c : ℕ} {p : Addr} {call : Call τ}
    {slot : BaseSlot (Actor τ)} (hcalls : s'.calls = Function.update s.calls c call)
    (hmem : s'.mem = Function.update s.mem p slot) (hp : s.pool p = none)
    (haddr : call.addr = p) (hcoh : Coh call slot) :
    ∀ d, (s'.calls d).life.live = true → Coh (s'.calls d) (s'.slot d) := by
  intro d hd
  simp only [State.slot, hcalls, hmem] at hd ⊢
  by_cases hdc : d = c
  · subst hdc
    simpa only [Function.update_self, haddr] using hcoh
  · rw [Function.update_of_ne hdc] at hd ⊢
    have hne : (s.calls d).addr ≠ p := by
      intro he
      have hsome := (h.pool p d).mpr ⟨hd, he⟩
      simp [hp] at hsome
    rw [Function.update_of_ne hne]
    exact h.coh d hd

/-- `send_request` finds the queue closed. -/
theorem Inv.coh_refused (h : Inv s) {c : ℕ} (hl : (s.calls c).life = .creating .sending)
    (hidle : (s.calls c).raft = .idle) : Coh (s.calls c).refused (s.slot c) := by
  have hcoh := h.coh c (by simp [hl, Life.live])
  have hout := (h.calls c).completion.quiet
    ((h.calls c).completion.early (by simp [hl, Life.early])) (.inl hidle)
  have hzero : (s.slot c).retval = 0 := by
    simpa [Call.storing, hl, Raft.storing, hidle, Stored, hout.1] using hcoh.stored
  refine ⟨hcoh.tag, hcoh.client, hcoh.terminal, ?_⟩
  simp [Call.refused, Call.storing, Stored, hzero]

variable [DecidableEq τ] {a : Act τ ρ}

theorem Inv.pool_step (h : Inv s) (ht : Trans s a s') :
    ∀ p c, s'.pool p = some c ↔ (s'.calls c).life.live = true ∧ (s'.calls c).addr = p := by
  have hupd {c : ℕ} {call : Call τ} (hl : call.life.live = (s.calls c).life.live)
      (ha : (s.calls c).life.live = true → call.addr = (s.calls c).addr) (d : ℕ) :
      (Function.update s.calls c call d).life.live = (s.calls d).life.live ∧
        ((s.calls d).life.live = true →
          (Function.update s.calls c call d).addr = (s.calls d).addr) := by
    by_cases hd : d = c
    · subst hd
      simpa using ⟨hl, ha⟩
    · simp [hd]
  cases ht with
  | create he hb =>
      have hborn := h.api.born s.next le_rfl
      exact h.pool_keep rfl (hupd (by simp [hborn, Call.create, Life.live])
        (by simp [hborn, Life.live]))
  | @allocate c n err hl hp =>
      exact h.pool_allocate (by simp [hl, Life.live]) hp (by cases err <;> rfl)
        (by cases err <;> rfl)
  | enqueue hl hq => exact h.pool_keep rfl (hupd (by simp [hl, Life.live]) fun _ => rfl)
  | sentOk hl hp => exact h.pool_keep rfl (hupd (by simp [hl, Life.live]) fun _ => rfl)
  | sentClosed hl hp =>
      exact h.pool_keep rfl (hupd (by simp [hl, Life.live, Call.refused]) fun _ => rfl)
  | call ht hr => exact h.pool_keep rfl (hupd ht.fixed.2.2.2 fun _ => ht.fixed.1)
  | track hl ho => exact h.pool_keep rfl (hupd (by simp [hl, Life.live]) fun _ => rfl)
  | trackClosed hl ho => exact h.pool_keep rfl (hupd (by simp [hl, Life.live]) fun _ => rfl)
  | cleanup hl => exact h.pool_keep rfl (hupd (by simp [hl, Life.live]) fun _ => rfl)
  | deallocate hl => exact h.pool_deallocate (by simp [hl, Life.live]) rfl
  | count hl => exact h.pool_keep rfl (hupd (by simp [hl, Life.live]) fun _ => rfl)
  | @testDone c entry hg hterm =>
      have hl : (s.calls c).life = .orphaned := h.gc.attempt c entry .test hg
      exact h.pool_keep rfl (hupd (by simp [hl, Life.live]) fun _ => rfl)
  | @release c entry locked disposed hg =>
      simpa using h.pool
  | _ => exact h.pool

/-- A step on the slot of call `c` reaches the node, whoever's slot it is now. -/
theorem Inv.coh_call (h : Inv s) {c : ℕ} {a : CallAct τ} {call : Call τ}
    {slot : BaseSlot (Actor τ)} (ht : CallTrans c (s.calls c) (s.slot c) a call slot) :
    ∀ d, (((s.setSlot c slot).setCall c call).calls d).life.live = true →
      Coh (((s.setSlot c slot).setCall c call).calls d)
        (((s.setSlot c slot).setCall c call).slot d) := by
  intro d hd
  simp only [State.slot, State.setCall_calls, State.setCall_mem, State.setSlot_mem] at hd ⊢
  by_cases hdc : d = c
  · subst hdc
    simp only [Function.update_self] at hd ⊢
    rw [ht.fixed.1, Function.update_self]
    rw [ht.fixed.2.2.2] at hd
    exact (h.coh d hd).step (h.calls d).completion ht
  · simp only [Function.update_of_ne hdc, State.setSlot_calls] at hd ⊢
    by_cases hp : (s.calls d).addr = (s.calls c).addr
    · -- the node of `c` holds the slot of `d` now, so `c` itself has no slot any more
      have hdead : (s.calls c).life.live = false := by
        by_contra hl
        exact hdc (h.addr_inj hd (by simpa using hl) hp)
      have hsoft := ht.soft_of_dead (h.calls c) hdead fun hr =>
        h.completed_of_dead hdead (h.api.sent_of_taken (h.api.taken c hr))
      rw [hp, Function.update_self]
      refine Coh.soft ?_ hsoft
      rw [State.slot, ← hp]
      exact h.coh d hd
    · rw [Function.update_of_ne hp]
      exact h.coh d hd

theorem Inv.coh_step (h : Inv s) (ht : Trans s a s') :
    ∀ c, (s'.calls c).life.live = true → Coh (s'.calls c) (s'.slot c) := by
  cases ht with
  | create he hb => exact h.coh_setCall rfl rfl (by simp [Call.create, Life.live])
  | @allocate c n err hl hp =>
      exact h.coh_allocate rfl rfl hp (by cases err <;> rfl) (h.coh_allocated hl _)
  | enqueue hl hq =>
      exact h.coh_setLife rfl rfl hl rfl rfl rfl ⟨rfl, rfl, rfl, rfl, rfl, rfl⟩
  | sentOk hl hp =>
      exact h.coh_setLife rfl rfl hl rfl rfl rfl ⟨rfl, rfl, rfl, rfl, rfl, rfl⟩
  | @sentClosed c val hl hp =>
      have hidle := h.api.idle_of_not_accepted (h.api.refused_not_accepted hl hp)
      exact h.coh_setCall rfl rfl fun _ => ⟨rfl, h.coh_refused hl hidle⟩
  | call ht hr => exact h.coh_call ht
  | track hl ho | trackClosed hl ho | cleanup hl =>
      exact h.coh_setLife rfl rfl hl rfl rfl rfl ⟨rfl, rfl, rfl, rfl, rfl, rfl⟩
  | deallocate hl | count hl => exact h.coh_setCall rfl rfl (by simp [Life.live])
  | tryLock hg ho => exact h.coh_soft rfl rfl ⟨rfl, rfl, rfl, rfl, rfl⟩
  | @testDone c entry hg hterm =>
      have hl : (s.calls c).life = .orphaned := h.gc.attempt c entry .test hg
      exact h.coh_setLife rfl rfl hl rfl rfl rfl ⟨rfl, rfl, rfl, rfl, rfl, rfl⟩
  | @release c entry locked disposed hg =>
      exact h.coh_soft (by simp) ((attempted_mem _ _ _ _).trans (unlocked_mem s c locked))
        ⟨rfl, rfl, rfl, rfl, rfl⟩
  | _ => exact h.coh

end Nodes

section Run
variable [DecidableEq τ] [DecidableEq ρ] {s s' : State τ ρ} {a : Act τ ρ}

/-- Every step keeps the invariant. -/
theorem Inv.trans (h : Inv s) (ht : Trans s a s') : Inv s' where
  calls := h.calls_step ht
  pool := h.pool_step ht
  coh := h.coh_step ht
  api := h.api.trans ht (fun c hl => (h.coh c (by simp [hl, Life.live])).tag)
    (fun c hl => (h.calls c).completion.early (by simp [hl, Life.early]))
    (fun c entry hg => h.gc.attempt c entry .test hg)
  gc := h.gc.trans ht (h.api.born s.next le_rfl) fun c => (h.calls c).lifecycle

theorem inv_of_reachable (h : (system : Scheduled (State τ ρ) (Act τ ρ)).Reachable s) : Inv s :=
  h.invariant inv_initial fun _ _ _ _ hi ht _ => hi.trans (trans_of_step ht)

end Run

end Libraft.Pool
