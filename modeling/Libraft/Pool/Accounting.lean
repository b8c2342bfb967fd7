import Libraft.Pool.Results
import Mathlib.Data.Finset.Card

/-!
# The accounts of the pool

Every slot which was allocated is deallocated once, by the client or by the
collector, and until then exactly one of them is responsible for it. Every
command buffer is freed once, provided the client keeps to the rules by which
it can know whether the buffer is its own to free. That both queues of orphans
are empty does not mean that the collector is done: it may hold the last one.

## Implementation notes

The counters `call_alloc` and `call_free` are 64 bits wide and wrap around.
Their difference is compared with the number of live slots as a 64-bit number.
-/

namespace Libraft.Pool

open Libraft.Foundation Libraft.Calls

variable {τ ρ : Type*}

/-- The calls which `dispose` has deallocated and counted. -/
def State.gone (s : State τ ρ) : Finset ℕ :=
  (Finset.range s.next).filter fun c => (s.calls c).life = .gone

/-- The calls whose slot the allocator has handed out and not got back. -/
def State.liveSlots (s : State τ ρ) : Finset ℕ :=
  (Finset.range s.next).filter fun c => s.pool (s.calls c).addr = some c

/-- The counters agree with the calls. -/
structure Counters (s : State τ ρ) : Prop where
  used : ∀ c < s.next, (s.calls c).life ≠ .unborn
  alloc : s.callAlloc = UInt64.ofNat s.next
  free : s.callFree = UInt64.ofNat s.gone.card

theorem counters_initial : Counters (initial : State τ ρ) where
  used := by simp [initial]
  alloc := rfl
  free := rfl

section Counters
variable {s s' : State τ ρ}

/-- A step which counts nothing. -/
theorem Counters.keep (h : Counters s) (hnext : s'.next = s.next)
    (halloc : s'.callAlloc = s.callAlloc) (hfree : s'.callFree = s.callFree)
    (hs : ∀ c, ((s'.calls c).life = .gone ↔ (s.calls c).life = .gone) ∧
      ((s'.calls c).life = .unborn → (s.calls c).life = .unborn)) : Counters s' where
  used := by
    rw [hnext]
    exact fun c hc hu => h.used c hc ((hs c).2 hu)
  alloc := by rw [halloc, hnext, h.alloc]
  free := by
    have hgone : s'.gone = s.gone := by
      simp only [State.gone, hnext, fun c => propext (hs c).1]
    rw [hfree, hgone, h.free]

theorem Counters.setCall (h : Counters s) {c : ℕ} {call : Call τ} {life : Life}
    (hcalls : s'.calls = Function.update s.calls c call) (hnext : s'.next = s.next)
    (halloc : s'.callAlloc = s.callAlloc) (hfree : s'.callFree = s.callFree)
    (hl : (s.calls c).life = life) (hg : call.life = .gone ↔ life = .gone)
    (hu : call.life = .unborn → life = .unborn) : Counters s' := by
  refine h.keep hnext halloc hfree fun d => ?_
  by_cases hd : d = c
  · subst hd
    simpa [hcalls, hl] using ⟨hg, hu⟩
  · simp [hcalls, hd]

theorem Counters.create (h : Counters s) {call : Call τ} (hl : call.life ≠ .gone)
    (hu : call.life ≠ .unborn) (hcalls : s'.calls = Function.update s.calls s.next call)
    (hnext : s'.next = s.next + 1) (halloc : s'.callAlloc = s.callAlloc + 1)
    (hfree : s'.callFree = s.callFree) : Counters s' where
  used := by
    intro c hc
    by_cases hcn : c = s.next
    · simpa [hcalls, hcn] using hu
    · simpa [hcalls, hcn] using h.used c (by omega)
  alloc := by rw [halloc, hnext, h.alloc, UInt64.ofNat_add]; rfl
  free := by
    have hgone : s'.gone = s.gone := by
      ext c
      simp only [State.gone, Finset.mem_filter, Finset.mem_range, hnext, hcalls]
      by_cases hcn : c = s.next
      · simp [hcn, hl]
      · simp only [Function.update_of_ne hcn]
        exact and_congr_left fun _ => by omega
    rw [hfree, hgone, h.free]

theorem Counters.count (h : Counters s) {c : ℕ} {call : Call τ} (hc : c < s.next)
    (hng : (s.calls c).life ≠ .gone) (hl : call.life = .gone)
    (hcalls : s'.calls = Function.update s.calls c call) (hnext : s'.next = s.next)
    (halloc : s'.callAlloc = s.callAlloc) (hfree : s'.callFree = s.callFree + 1) :
    Counters s' where
  used := by
    intro d hd
    by_cases hdc : d = c
    · simp [hcalls, hdc, hl]
    · simpa [hcalls, hdc] using h.used d (hnext ▸ hd)
  alloc := by rw [halloc, hnext, h.alloc]
  free := by
    have hgone : s'.gone = insert c s.gone := by
      ext d
      simp only [State.gone, Finset.mem_filter, Finset.mem_range, Finset.mem_insert, hnext, hcalls]
      by_cases hdc : d = c
      · simp [hdc, hl, hc]
      · simp [hdc]
    have hnew : c ∉ s.gone := by simp [State.gone, hng]
    rw [hfree, hgone, Finset.card_insert_of_notMem hnew, h.free, UInt64.ofNat_add]
    rfl

variable [DecidableEq τ] [DecidableEq ρ] {a : Act τ ρ}

/-- No step on a slot ends or begins the life of a call. -/
theorem CallTrans.life_ends {c : ℕ} {call call' : Call τ} {slot slot' : BaseSlot (Actor τ)}
    {a : CallAct τ} (ht : CallTrans c call slot a call' slot') :
    (call'.life = .gone ↔ call.life = .gone) ∧ (call'.life = .unborn → call.life = .unborn) := by
  cases ht with
  | failError hl | failState hl => simp [hl]
  | dispose hl ha => simp [hl]
  | load hl | abandon hl => simp [hl]
  | _ => exact ⟨.rfl, id⟩

theorem Counters.trans (h : Counters s) (hi : Inv s) (ht : Trans s a s') : Counters s' := by
  cases ht with
  | create he hb =>
      exact h.create (by simp [Call.create]) (by simp [Call.create]) rfl rfl rfl rfl
  | @allocate c n err hl hp =>
      exact h.setCall rfl rfl rfl rfl hl (by cases err <;> simp [Call.allocated])
        (by cases err <;> simp [Call.allocated])
  | enqueue hl hq => exact h.setCall rfl rfl rfl rfl hl (by simp) (by simp)
  | sentOk hl hp => exact h.setCall rfl rfl rfl rfl hl (by simp) (by simp)
  | sentClosed hl hp =>
      exact h.setCall rfl rfl rfl rfl hl (by simp [Call.refused]) (by simp [Call.refused])
  | call ht hr => exact h.setCall rfl rfl rfl rfl rfl ht.life_ends.1 ht.life_ends.2
  | track hl ho | trackClosed hl ho =>
      exact h.setCall rfl rfl rfl rfl hl (by simp) (by simp)
  | cleanup hl | deallocate hl => exact h.setCall rfl rfl rfl rfl hl (by simp) (by simp)
  | @count c byGc hl =>
      have hc : c < s.next := by
        by_contra hn
        simp [hi.api.born c (not_lt.mp hn)] at hl
      exact h.count hc (by simp [hl]) rfl rfl rfl rfl rfl
  | @testDone c entry hg hterm =>
      have hl : (s.calls c).life = .orphaned := hi.gc.attempt c entry .test hg
      exact h.setCall rfl rfl rfl rfl hl (by simp) (by simp)
  | release hg =>
      rw [released_eq]
      exact h.keep rfl rfl rfl fun c => ⟨.rfl, id⟩
  | _ => exact h.keep rfl rfl rfl fun c => ⟨.rfl, id⟩

end Counters

/-- The operations which read a result of the call. -/
def Op.fetches : Op → Bool
  | .getFsmReply _ | .futureGet | .leader => true
  | .wait | .poll | .waitFor | .getStats _ => false

/-- The rules of the client: the queue of orphans stays open, each Apply has a
buffer of its own, its result is fetched only after `raft_future_wait`, and a
command buffer is freed by the client only after `raft_future_wait`, and once. -/
def Disciplined (s : State τ ρ) (a : Act τ ρ) (_ : State τ ρ) : Prop :=
  match a with
  | .create tag buf _ => tag = .apply →
      ∃ b, buf = some b ∧ b < s.buffers ∧ s.frees b = ⟨0, 0⟩ ∧ ∀ c, (s.calls c).buf ≠ some b
  | .call c (.start _ op) =>
      (s.calls c).tag = .apply → op.fetches = true → (s.calls c).waitCalled = true
  | .freeBuffer b => b < s.buffers ∧ (s.frees b).byClient = 0 ∧
      ∀ c, (s.calls c).buf = some b → (s.calls c).waitCalled = true
  | .closeOrphans => False
  | _ => True

/-- The actions which the rules leave to the client and to everyone else. -/
def Act.unrestricted : Act τ ρ → Bool
  | .create _ _ _ | .call _ (.start _ _) | .freeBuffer _ | .closeOrphans => false
  | _ => true

theorem along_disciplined_of_unrestricted [DecidableEq τ] [DecidableEq ρ] {sched : List (Act τ ρ)}
    (h : sched.all Act.unrestricted = true) (s : State τ ρ) :
    system.Along Disciplined s sched := by
  refine Scheduled.along_of_forall (fun a ha s s' => ?_) s
  have hfree := List.all_eq_true.mp h a ha
  unfold Disciplined
  split <;> first | cases hfree | trivial

/-- The result of an Apply is looked at only after `raft_future_wait`. -/
structure Fetched (call : Call τ) : Prop where
  pending : call.tag = .apply → call.foundPending = true → call.waitCalled = true
  test : call.tag = .apply → ∀ t op, call.uses t = .test op → call.waitCalled = true

/-- The buffers, their owners and their frees. -/
structure Buffers (s : State τ ρ) : Prop where
  orphansOpen : s.orphansClosed = false
  thrown : ∀ c, (s.calls c).life ≠ .thrown
  fresh : ∀ c, s.next ≤ c → (s.calls c).buf = none
  apply : ∀ c b, (s.calls c).buf = some b → (s.calls c).tag = .apply
  owner : ∀ c d b, (s.calls c).buf = some b → (s.calls d).buf = some b → c = d
  byLibrary : ∀ c b, (s.calls c).buf = some b → (s.frees b).byLibrary = (s.calls c).cleanups
  unused : ∀ b, (∀ c, (s.calls c).buf ≠ some b) → (s.frees b).byLibrary = 0
  once : ∀ b, (s.frees b).byClient ≤ 1
  waited : ∀ c b, (s.calls c).buf = some b → (s.frees b).byClient ≠ 0 →
    (s.calls c).waitCalled = true
  fetched : ∀ c, Fetched (s.calls c)

theorem buffers_initial : Buffers (initial : State τ ρ) where
  orphansOpen := rfl
  thrown := by simp [initial, Call.unborn]
  fresh := by simp [initial, Call.unborn]
  apply := by simp [initial, Call.unborn]
  owner := by simp [initial, Call.unborn]
  byLibrary := by simp [initial, Call.unborn]
  unused := by simp [initial]
  once := by simp [initial]
  waited := by simp [initial]
  fetched := fun _ => ⟨by simp [initial, Call.unborn], by simp [initial, Call.unborn]⟩

section Buffers
variable {s s' : State τ ρ}

/-- A step which frees no buffer. -/
theorem Buffers.keep (h : Buffers s) (ho : s'.orphansClosed = s.orphansClosed)
    (hnext : s'.next = s.next) (hfrees : s'.frees = s.frees)
    (hs : ∀ c, (s'.calls c).buf = (s.calls c).buf ∧ (s'.calls c).tag = (s.calls c).tag ∧
      (s'.calls c).cleanups = (s.calls c).cleanups ∧
      ((s.calls c).waitCalled = true → (s'.calls c).waitCalled = true) ∧
      (s'.calls c).life ≠ .thrown ∧ Fetched (s'.calls c)) : Buffers s' where
  orphansOpen := by rw [ho, h.orphansOpen]
  thrown := fun c => (hs c).2.2.2.2.1
  fresh := by
    intro c hc
    rw [(hs c).1, h.fresh c (hnext ▸ hc)]
  apply := by
    intro c b hb
    rw [(hs c).2.1]
    exact h.apply c b ((hs c).1 ▸ hb)
  owner := by
    intro c d b hc hd
    exact h.owner c d b ((hs c).1 ▸ hc) ((hs d).1 ▸ hd)
  byLibrary := by
    intro c b hb
    rw [hfrees, (hs c).2.2.1]
    exact h.byLibrary c b ((hs c).1 ▸ hb)
  unused := by
    intro b hb
    rw [hfrees]
    exact h.unused b fun c hc => hb c ((hs c).1.trans hc)
  once := by rw [hfrees]; exact h.once
  waited := by
    intro c b hb hne
    exact (hs c).2.2.2.1 (h.waited c b ((hs c).1 ▸ hb) (hfrees ▸ hne))
  fetched := fun c => (hs c).2.2.2.2.2

theorem Buffers.setCall (h : Buffers s) {c : ℕ} {call : Call τ}
    (hcalls : s'.calls = Function.update s.calls c call)
    (ho : s'.orphansClosed = s.orphansClosed) (hnext : s'.next = s.next)
    (hfrees : s'.frees = s.frees)
    (hfix : call.buf = (s.calls c).buf ∧ call.tag = (s.calls c).tag ∧
      call.cleanups = (s.calls c).cleanups)
    (hw : (s.calls c).waitCalled = true → call.waitCalled = true)
    (hl : call.life ≠ .thrown) (hf : Fetched call) : Buffers s' := by
  refine h.keep ho hnext hfrees fun d => ?_
  by_cases hd : d = c
  · subst hd
    simpa [hcalls] using ⟨hfix.1, hfix.2.1, hfix.2.2, hw, hl, hf⟩
  · simpa [hcalls, hd] using ⟨h.thrown d, h.fetched d⟩

/-- A step of creation or disposal. -/
theorem Buffers.setLife (h : Buffers s) {c : ℕ} {call : Call τ}
    (hcalls : s'.calls = Function.update s.calls c call)
    (ho : s'.orphansClosed = s.orphansClosed) (hnext : s'.next = s.next)
    (hfrees : s'.frees = s.frees)
    (hfix : call.buf = (s.calls c).buf ∧ call.tag = (s.calls c).tag ∧
      call.cleanups = (s.calls c).cleanups ∧ call.waitCalled = (s.calls c).waitCalled ∧
      call.foundPending = (s.calls c).foundPending ∧ call.uses = (s.calls c).uses)
    (hl : call.life ≠ .thrown) : Buffers s' := by
  obtain ⟨hbuf, htag, hclean, hwait, hpend, huses⟩ := hfix
  refine h.setCall hcalls ho hnext hfrees ⟨hbuf, htag, hclean⟩ (by rw [hwait]; exact id) hl ⟨?_, ?_⟩
  · rw [htag, hpend, hwait]
    exact (h.fetched c).pending
  · rw [htag, huses, hwait]
    exact (h.fetched c).test

theorem Buffers.create (h : Buffers s) {tag : CallTag} {buf : Option ℕ} {err : Option RaftError}
    (hb : tag ≠ .apply → buf = none)
    (hd : tag = .apply →
      ∃ b, buf = some b ∧ b < s.buffers ∧ s.frees b = ⟨0, 0⟩ ∧ ∀ c, (s.calls c).buf ≠ some b)
    (hcalls : s'.calls = Function.update s.calls s.next (.create tag buf err))
    (ho : s'.orphansClosed = s.orphansClosed) (hnext : s'.next = s.next + 1)
    (hfrees : s'.frees = s.frees) : Buffers s' := by
  have hself : s'.calls s.next = .create tag buf err := by rw [hcalls, Function.update_self]
  have hother {c : ℕ} (hc : c ≠ s.next) : s'.calls c = s.calls c := by
    rw [hcalls, Function.update_of_ne hc]
  have hnew {b : ℕ} (hbuf : (s'.calls s.next).buf = some b) :
      tag = .apply ∧ s.frees b = ⟨0, 0⟩ ∧ ∀ c, (s.calls c).buf ≠ some b := by
    rw [hself] at hbuf
    have htag : tag = .apply := by
      by_contra hne
      rw [hb hne] at hbuf
      cases hbuf
    obtain ⟨b', rfl, -, hz, hno⟩ := hd htag
    cases hbuf
    exact ⟨htag, hz, hno⟩
  refine ⟨ho ▸ h.orphansOpen, fun c => ?_, fun c hc => ?_, fun c b hc => ?_, fun c d b hc hd' => ?_,
    fun c b hc => ?_, fun b hno => ?_, hfrees ▸ h.once, fun c b hc hne => ?_, fun c => ?_⟩
  · by_cases hcn : c = s.next
    · simp [hcn, hself, Call.create]
    · rw [hother hcn]
      exact h.thrown c
  · rw [hother (by omega)]
    exact h.fresh c (by omega)
  · by_cases hcn : c = s.next
    · subst hcn
      rw [hself]
      exact (hnew hc).1
    · rw [hother hcn] at hc ⊢
      exact h.apply c b hc
  · by_cases hcn : c = s.next <;> by_cases hdn : d = s.next
    · rw [hcn, hdn]
    · subst hcn
      exact absurd (hother hdn ▸ hd') ((hnew hc).2.2 d)
    · subst hdn
      exact absurd (hother hcn ▸ hc) ((hnew hd').2.2 c)
    · exact h.owner c d b (hother hcn ▸ hc) (hother hdn ▸ hd')
  · rw [hfrees]
    by_cases hcn : c = s.next
    · subst hcn
      rw [(hnew hc).2.1, hself]
      rfl
    · rw [hother hcn] at hc ⊢
      exact h.byLibrary c b hc
  · rw [hfrees]
    refine h.unused b fun c hc => ?_
    have hcn : c ≠ s.next := by
      rintro rfl
      simp [h.fresh s.next le_rfl] at hc
    exact hno c (hother hcn ▸ hc)
  · by_cases hcn : c = s.next
    · subst hcn
      simp [hfrees, (hnew hc).2.1] at hne
    · rw [hother hcn] at hc ⊢
      exact h.waited c b hc (hfrees ▸ hne)
  · by_cases hcn : c = s.next
    · subst hcn
      rw [hself]
      exact ⟨by simp [Call.create, Call.unborn], by simp [Call.create, Call.unborn]⟩
    · rw [hother hcn]
      exact h.fetched c

/-- What `orphan_cleanup` does to a buffer. -/
theorem cleanup_frees (s : State τ ρ) (c : ℕ) (byGc : Bool) (b : ℕ) :
    (s.cleanup c byGc).frees b =
      if (s.calls c).buf = some b then
        { s.frees b with byLibrary := (s.frees b).byLibrary + 1 }
      else s.frees b := by
  cases hc : (s.calls c).buf with
  | none => simp [State.cleanup, hc]
  | some b' =>
      by_cases hb : b = b'
      · subst hb
        simp [State.cleanup, hc]
      · simp [State.cleanup, hc, hb, Ne.symm hb]

/-- `orphan_cleanup` gives the buffer of an Apply back. -/
theorem Buffers.cleanup (h : Buffers s) (c : ℕ) (byGc : Bool) : Buffers (s.cleanup c byGc) := by
  have hbuf (d : ℕ) : ((s.cleanup c byGc).calls d).buf = (s.calls d).buf := by
    by_cases hd : d = c
    · subst hd
      simp [State.cleanup]
    · simp [State.cleanup, hd]
  have hrest (d : ℕ) : ((s.cleanup c byGc).calls d).tag = (s.calls d).tag ∧
      ((s.cleanup c byGc).calls d).waitCalled = (s.calls d).waitCalled ∧
      ((s.cleanup c byGc).calls d).life ≠ .thrown ∧ Fetched ((s.cleanup c byGc).calls d) := by
    by_cases hd : d = c
    · subst hd
      simpa [State.cleanup] using ⟨(h.fetched d).pending, (h.fetched d).test⟩
    · simpa [State.cleanup, hd] using ⟨h.thrown d, h.fetched d⟩
  have hclient (b : ℕ) : ((s.cleanup c byGc).frees b).byClient = (s.frees b).byClient := by
    rw [cleanup_frees]
    split <;> rfl
  refine ⟨h.orphansOpen, fun d => (hrest d).2.2.1, fun d hd => ?_, fun d b hd => ?_,
    fun d e b hd he => ?_, fun d b hd => ?_, fun b hno => ?_, fun b => ?_, fun d b hd hne => ?_,
    fun d => (hrest d).2.2.2⟩
  · rw [hbuf]
    exact h.fresh d hd
  · rw [(hrest d).1]
    exact h.apply d b (hbuf d ▸ hd)
  · exact h.owner d e b (hbuf d ▸ hd) (hbuf e ▸ he)
  · rw [hbuf] at hd
    have hold := h.byLibrary d b hd
    rw [cleanup_frees]
    by_cases hdc : d = c
    · subst hdc
      simp [State.cleanup, hd, hold]
    · rw [if_neg fun hc => hdc (h.owner d c b hd hc), hold]
      simp [State.cleanup, hdc]
  · have hno' : ∀ d, (s.calls d).buf ≠ some b := fun d => hbuf d ▸ hno d
    rw [cleanup_frees, if_neg (hno' c)]
    exact h.unused b hno'
  · rw [hclient]
    exact h.once b
  · rw [(hrest d).2.1]
    exact h.waited d b (hbuf d ▸ hd) (hclient b ▸ hne)

/-- The client frees a buffer. -/
theorem Buffers.freeBuffer (h : Buffers s) {b : ℕ} (hz : (s.frees b).byClient = 0)
    (hw : ∀ c, (s.calls c).buf = some b → (s.calls c).waitCalled = true)
    (hcalls : s'.calls = s.calls) (ho : s'.orphansClosed = s.orphansClosed)
    (hnext : s'.next = s.next)
    (hfrees : s'.frees = Function.update s.frees b
      { s.frees b with byClient := (s.frees b).byClient + 1 }) : Buffers s' := by
  have hlib (b' : ℕ) : (s'.frees b').byLibrary = (s.frees b').byLibrary := by
    by_cases hb : b' = b
    · subst hb
      simp [hfrees]
    · simp [hfrees, hb]
  refine ⟨ho ▸ h.orphansOpen, hcalls ▸ h.thrown, ?_, hcalls ▸ h.apply, hcalls ▸ h.owner,
    fun c b' hc => ?_, fun b' hno => ?_, fun b' => ?_, fun c b' hc hne => ?_, hcalls ▸ h.fetched⟩
  · rw [hcalls, hnext]
    exact h.fresh
  · rw [hcalls] at hc ⊢
    rw [hlib]
    exact h.byLibrary c b' hc
  · rw [hlib]
    exact h.unused b' (hcalls ▸ hno)
  · by_cases hb : b' = b
    · subst hb
      simp [hfrees, hz]
    · simpa [hfrees, hb] using h.once b'
  · rw [hcalls] at hc ⊢
    by_cases hb : b' = b
    · subst hb
      exact hw c hc
    · exact h.waited c b' hc (by simpa [hfrees, hb] using hne)

variable [DecidableEq τ] [DecidableEq ρ] {a : Act τ ρ}

omit [DecidableEq τ] in
/-- Only a fetch begins with the unlocked test. -/
theorem fetches_of_first {op op' : Op} {tag : CallTag} (htag : tag = .apply)
    (h : op.first tag = .test op') : op.fetches = true := by
  subst htag
  cases op <;> simp_all [Op.first, Op.fetches]

/-- No operation comes back to the unlocked test. -/
theorem UseTrans.ne_test {tag : CallTag} {slot slot' : BaseSlot (Actor τ)} {t : τ}
    {use use' : Use} (h : UseTrans tag slot t use use' slot') (op : Op) : use' ≠ .test op := by
  cases h with
  | @unlock op' => cases op' <;> simp [Op.afterWait]
  | readError =>
      unfold Op.withError
      repeat' split
      all_goals simp
  | _ => simp

theorem Fetched.step {c : ℕ} {call call' : Call τ} {slot slot' : BaseSlot (Actor τ)}
    {a : CallAct τ} (h : Fetched call) (ht : CallTrans c call slot a call' slot')
    (hd : ∀ t op, a = .start t op → call.tag = .apply → op.fetches = true →
      call.waitCalled = true) : Fetched call' := by
  cases ht with
  | @start t op hl hu =>
      refine ⟨fun htag hp => ?_, fun htag u op' hu' => ?_⟩
      · simp [h.pending htag hp]
      · by_cases hut : u = t
        · subst hut
          have hfirst : op.first call.tag = .test op' := by simpa [Call.setUse] using hu'
          simp [hd u op rfl htag (fetches_of_first htag hfirst)]
        · simp [h.test htag u op' (by simpa [Call.setUse, hut] using hu')]
  | @use t use slot' hut =>
      refine ⟨fun htag hp => ?_, fun htag u op' hu' => ?_⟩
      · generalize hold : call.uses t = old at hut hp
        change call.waitCalled = true
        simp only [Call.setUse] at hp
        split at hp
        · exact h.test htag t _ hold
        · exact h.pending htag hp
      · by_cases hut' : u = t
        · subst hut'
          exact absurd (by simpa [Call.setUse] using hu') (hut.ne_test op')
        · exact h.test htag u op' (by simpa [Call.setUse, hut'] using hu')
  | @leave t op fast res hu =>
      refine ⟨h.pending, fun htag u op' hu' => ?_⟩
      by_cases hut : u = t
      · subst hut
        simp at hu'
      · exact h.test htag u op' (by simpa [hut] using hu')
  | wake hw => exact h
  | _ => exact ⟨h.pending, h.test⟩

/-- What no step on a slot changes for the accounts. -/
theorem CallTrans.accounts {c : ℕ} {call call' : Call τ} {slot slot' : BaseSlot (Actor τ)}
    {a : CallAct τ} (ht : CallTrans c call slot a call' slot') :
    call'.cleanups = call.cleanups ∧ (call.waitCalled = true → call'.waitCalled = true) ∧
      (call'.life = .thrown → call.life = .thrown) := by
  cases ht with
  | failError hl | failState hl => simp [hl]
  | start hl hu => simp +contextual [Call.setUse]
  | dispose hl ha => simp [hl]
  | load hl | abandon hl => simp [hl]
  | _ => exact ⟨rfl, id, id⟩

theorem Buffers.trans (h : Buffers s) (ht : Trans s a s') (hd : Disciplined s a s') :
    Buffers s' := by
  cases ht with
  | create he hb => exact h.create hb hd rfl rfl rfl rfl
  | @allocate c n err hl hp =>
      exact h.setLife rfl rfl rfl rfl (by cases err <;> exact ⟨rfl, rfl, rfl, rfl, rfl, rfl⟩)
        (by cases err <;> simp [Call.allocated])
  | enqueue hl hq => exact h.setLife rfl rfl rfl rfl ⟨rfl, rfl, rfl, rfl, rfl, rfl⟩ (by simp)
  | sentOk hl hp => exact h.setLife rfl rfl rfl rfl ⟨rfl, rfl, rfl, rfl, rfl, rfl⟩ (by simp)
  | sentClosed hl hp =>
      exact h.setLife rfl rfl rfl rfl ⟨rfl, rfl, rfl, rfl, rfl, rfl⟩ (by simp [Call.refused])
  | @call c a call slot ht hr =>
      obtain ⟨hclean, hwait, hth⟩ := ht.accounts
      obtain ⟨-, htag, hbuf, -⟩ := ht.fixed
      refine h.setCall rfl rfl rfl rfl ⟨hbuf, htag, hclean⟩ hwait (mt hth (h.thrown c))
        ((h.fetched c).step ht ?_)
      rintro t op rfl
      exact hd
  | track hl ho => exact h.setLife rfl rfl rfl rfl ⟨rfl, rfl, rfl, rfl, rfl, rfl⟩ (by simp)
  | trackClosed hl ho => simp [h.orphansOpen] at ho
  | cleanup hl => exact h.cleanup _ _
  | deallocate hl | count hl =>
      exact h.setLife rfl rfl rfl rfl ⟨rfl, rfl, rfl, rfl, rfl, rfl⟩ (by simp)
  | testDone hg hterm =>
      exact h.setLife rfl rfl rfl rfl ⟨rfl, rfl, rfl, rfl, rfl, rfl⟩ (by simp)
  | release hg =>
      rw [released_eq]
      exact h.keep rfl rfl rfl fun c => ⟨rfl, rfl, rfl, id, h.thrown c, h.fetched c⟩
  | closeOrphans => exact hd.elim
  | freeBuffer => exact h.freeBuffer hd.2.1 hd.2.2 rfl rfl rfl rfl
  | _ => exact h.keep rfl rfl rfl fun c => ⟨rfl, rfl, rfl, id, h.thrown c, h.fetched c⟩

end Buffers

/-- Where a live slot can be. -/
inductive Place
  | future
  | orphans
  | hand
  | backlog
  deriving DecidableEq, Repr

def State.At (s : State τ ρ) (c : ℕ) : Place → Prop
  | .future => (s.calls c).life.undisposed = true
  | .orphans => c ∈ s.orphans
  | .hand => c ∈ s.hand
  | .backlog => c ∈ s.backlog

/-- Nobody is inside `alloc_request_`, and nobody is between the two statements
with which `dispose` ends. -/
def State.BetweenOperations (s : State τ ρ) : Prop :=
  ∀ c < s.next, (∀ err, (s.calls c).life ≠ .creating (.allocate err)) ∧
    ∀ byGc, (s.calls c).life ≠ .disposing byGc .count

/-- Nothing is left to be done outside the collector's loop. -/
structure State.Settled (s : State τ ρ) : Prop where
  terminal : ∀ c ∈ s.liveSlots, isTerminal (s.slot c).state = true
  disposed : ∀ c < s.next, (s.calls c).life.disposed = true
  orphans : s.orphans = []
  backlog : s.backlog = []
  waited : ∀ c < s.next, (s.calls c).waitCalled = true →
    ∀ b ∈ (s.calls c).buf, (s.frees b).byClient = 1

instance (s : State τ ρ) : Decidable s.Settled :=
  decidable_of_iff
    ((∀ c ∈ s.liveSlots, isTerminal (s.slot c).state = true) ∧
      (∀ c < s.next, (s.calls c).life.disposed = true) ∧ s.orphans = [] ∧ s.backlog = [] ∧
      ∀ c < s.next, (s.calls c).waitCalled = true →
        ∀ b ∈ (s.calls c).buf, (s.frees b).byClient = 1)
    ⟨fun ⟨ht, hd, ho, hb, hw⟩ => ⟨ht, hd, ho, hb, hw⟩,
      fun ⟨ht, hd, ho, hb, hw⟩ => ⟨ht, hd, ho, hb, hw⟩⟩

/-- Nothing is left to be done, and the collector holds no orphan. -/
structure State.Quiescent (s : State τ ρ) : Prop extends s.Settled where
  hand : s.hand = []

instance (s : State τ ρ) : Decidable s.Quiescent :=
  decidable_of_iff (s.Settled ∧ s.hand = [])
    ⟨fun ⟨hs, hh⟩ => ⟨hs, hh⟩, fun ⟨hs, hh⟩ => ⟨hs, hh⟩⟩

section Results
variable [DecidableEq ρ] {s : State τ ρ}

theorem Inv.mem_liveSlots (h : Inv s) {c : ℕ} :
    c ∈ s.liveSlots ↔ c < s.next ∧ (s.calls c).life.live = true := by
  simp [State.liveSlots, h.pool]

/-- The counters tell the number of live slots. -/
theorem Counters.liveSlots_card (h : Counters s) (hi : Inv s) (hb : s.BetweenOperations) :
    s.callAlloc - s.callFree = UInt64.ofNat s.liveSlots.card := by
  have hlive : s.liveSlots = (Finset.range s.next).filter fun c => ¬ (s.calls c).life = .gone := by
    ext c
    rw [hi.mem_liveSlots, Finset.mem_filter, Finset.mem_range]
    refine and_congr_right fun hc => ?_
    have hu := h.used c hc
    obtain ⟨hal, hco⟩ := hb c hc
    unfold Life.live
    split <;> simp_all
  have hsum : s.gone.card + s.liveSlots.card = s.next := by
    rw [hlive, State.gone, Finset.card_filter_add_card_filter_not, Finset.card_range]
  have hle : s.gone.card ≤ s.next := by omega
  rw [h.alloc, h.free, ← UInt64.ofNat_sub hle]
  congr 1
  omega

/-- Somebody is responsible for every live slot, and nobody else is. -/
theorem Inv.place (h : Inv s) (hth : ∀ c, (s.calls c).life ≠ .thrown) {c : ℕ}
    (hc : (s.calls c).life.live = true) : ∃! place, s.At c place := by
  by_cases hu : (s.calls c).life.undisposed = true
  · have hno : c ∉ s.listed := fun hl => by
      simp [h.gc.disposed_of_listed hl] at hu
    simp only [State.listed, List.mem_append, not_or] at hno
    refine ⟨.future, hu, fun place hp => ?_⟩
    cases place with
    | future => rfl
    | orphans => exact absurd hp hno.1.1
    | hand => exact absurd hp hno.1.2
    | backlog => exact absurd hp hno.2
  · have hl : c ∈ s.listed := by
      rw [h.gc.mem]
      have hth := hth c
      cases hlife : (s.calls c).life with
      | orphaned => exact .inl rfl
      | disposing byGc pc =>
          cases byGc with
          | false => simp [hlife, Life.undisposed] at hu
          | true =>
              obtain ⟨entry, hg⟩ := h.gc.disposing c pc hlife
              exact .inr ⟨entry, .dispose, hg⟩
      | _ => simp_all [Life.live, Life.undisposed]
    have hnd := h.gc.nodup
    simp only [State.listed, List.nodup_append, List.mem_append] at hl hnd
    obtain ⟨⟨-, -, hoh⟩, -, hb⟩ := hnd
    rcases hl with (ho | hh) | hbl
    · refine ⟨.orphans, ho, fun place hp => ?_⟩
      cases place with
      | future => exact absurd hp hu
      | orphans => rfl
      | hand => exact absurd rfl (hoh c ho c hp)
      | backlog => exact absurd rfl (hb c (.inl ho) c hp)
    · refine ⟨.hand, hh, fun place hp => ?_⟩
      cases place with
      | future => exact absurd hp hu
      | orphans => exact absurd rfl (hoh c hp c hh)
      | hand => rfl
      | backlog => exact absurd rfl (hb c (.inr hh) c hp)
    · refine ⟨.backlog, hbl, fun place hp => ?_⟩
      cases place with
      | future => exact absurd hp hu
      | orphans => exact absurd rfl (hb c (.inl hp) c hbl)
      | hand => exact absurd rfl (hb c (.inr hp) c hbl)
      | backlog => rfl

/-- The library frees the buffer of a call only if nobody has waited for it. -/
theorem CallOk.cleanups_cases {call : Call τ} (h : CallOk call) :
    call.cleanups = 0 ∨ (call.cleanups = 1 ∧ call.entered = false) := by
  have hent (hl : call.life ≠ .held) (hc : call.client = .abandoned) : call.entered = false := by
    by_contra he
    have hobs := h.usage.observed_of_entered (h.usage.free hl) (by simpa using he)
    simp [hc] at hobs
  have hlife := h.lifecycle
  cases hl : call.life with
  | gone =>
      simp only [Lifecycle, hl] at hlife
      obtain ⟨-, -, ⟨-, -, hz⟩ | ⟨hab, -, hone⟩⟩ := hlife
      · exact .inl hz
      · exact .inr ⟨hone, hent (by simp [hl]) hab⟩
  | disposing byGc pc =>
      cases byGc <;> cases pc <;> simp only [Lifecycle, hl] at hlife
      case true.deallocate | true.count =>
          exact .inr ⟨hlife.2.2.2.1, hent (by simp [hl]) hlife.1⟩
      case true.load | true.cleanup => exact .inl hlife.2.2.2.1
      all_goals exact .inl hlife.2.2.2
  | unborn | creating pc | held | orphaned | thrown =>
      simp only [Lifecycle, hl] at hlife
      exact .inl hlife.2.2.2

/-- No buffer is freed twice. -/
theorem Buffers.frees_le_one (h : Buffers s) (hi : Inv s) (b : ℕ) :
    (s.frees b).byClient + (s.frees b).byLibrary ≤ 1 := by
  have honce := h.once b
  by_cases howned : ∃ c, (s.calls c).buf = some b
  · obtain ⟨c, hc⟩ := howned
    rw [h.byLibrary c b hc]
    rcases (hi.calls c).cleanups_cases with hz | ⟨ho, hent⟩
    · omega
    · have hzero : (s.frees b).byClient = 0 := by
        by_contra hne
        simp [Call.entered, h.waited c b hc hne] at hent
      omega
  · have hz := h.unused b (not_exists.mp howned)
    omega

/-- Every call is gone when nothing is left to be done. -/
theorem Inv.gone_of_quiescent (h : Inv s) (hth : ∀ c, (s.calls c).life ≠ .thrown)
    (hq : s.Quiescent) {c : ℕ} (hc : c < s.next) : (s.calls c).life = .gone := by
  have hempty : s.listed = [] := by simp [State.listed, hq.orphans, hq.hand, hq.backlog]
  have hno : ¬ ((s.calls c).life = .orphaned ∨ s.Attempted c) := by
    rw [← h.gc.mem, hempty]
    exact List.not_mem_nil
  have hdis := hq.disposed c hc
  cases hl : (s.calls c).life with
  | gone => rfl
  | orphaned => exact absurd (.inl hl) hno
  | thrown => exact absurd hl (hth c)
  | disposing byGc pc =>
      cases byGc with
      | false => simp [hl, Life.disposed] at hdis
      | true =>
          obtain ⟨entry, hg⟩ := h.gc.disposing c pc hl
          exact absurd (.inr ⟨entry, .dispose, hg⟩) hno
  | unborn | creating pc | held => simp [hl, Life.disposed] at hdis

omit [DecidableEq ρ] in
theorem Counters.balanced (h : Counters s) (hgone : ∀ c < s.next, (s.calls c).life = .gone) :
    s.callAlloc = s.callFree := by
  have hall : s.gone = Finset.range s.next :=
    Finset.filter_true_of_mem fun c hc => hgone c (Finset.mem_range.mp hc)
  rw [h.alloc, h.free, hall, Finset.card_range]

/-- A command buffer is freed once when its call is gone. -/
theorem Buffers.freed_once (h : Buffers s) (hi : Inv s) {c b : ℕ}
    (hb : (s.calls c).buf = some b) (hg : (s.calls c).life = .gone)
    (hw : (s.calls c).waitCalled = true → (s.frees b).byClient = 1) :
    (s.frees b).byClient + (s.frees b).byLibrary = 1 := by
  have hlib := h.byLibrary c b hb
  have hle := h.frees_le_one hi b
  have hlife := (hi.calls c).lifecycle
  simp only [Lifecycle, hg] at hlife
  obtain ⟨-, -, ⟨hobs, -, hz⟩ | ⟨-, -, hone⟩⟩ := hlife
  · have hent := ((hi.calls c).usage.observed hobs).2
    rw [Call.entered, Bool.or_eq_true] at hent
    have hwait : (s.calls c).waitCalled = true :=
      hent.elim id ((h.fetched c).pending (h.apply c b hb))
    have hclient := hw hwait
    omega
  · omega

variable [DecidableEq τ]

theorem counters_of_reachable (h : (system : Scheduled (State τ ρ) (Act τ ρ)).Reachable s) :
    Counters s :=
  h.invariant counters_initial fun _ _ _ hr hc ht _ =>
    hc.trans (inv_of_reachable hr) (trans_of_step ht)

theorem buffers_of_reach (h : (system : Scheduled (State τ ρ) (Act τ ρ)).Reach Disciplined s) :
    Buffers s :=
  h.invariant buffers_initial fun _ _ _ _ hb ht hd => hb.trans (trans_of_step ht) hd

/-- The first call may be an Apply with the first buffer. -/
theorem along_disciplined_apply :
    system.Along Disciplined (initial : State (Fin 2) (Fin 2))
      [.allocBuffer, .create .apply (some 0) none] :=
  ⟨trivial, fun _ => ⟨0, rfl, Nat.one_pos, rfl, by simp [initial, Call.unborn]⟩, trivial⟩

/-- No slot leaks, and every slot and every command buffer is freed once. -/
theorem no_leak_exactly_once_freeing
    (h : (system : Scheduled (State τ ρ) (Act τ ρ)).Reach Disciplined s) :
    (s.BetweenOperations → s.callAlloc - s.callFree = UInt64.ofNat s.liveSlots.card) ∧
    (∀ c ∈ s.liveSlots, ∃! place, s.At c place) ∧
    (∀ b, (s.frees b).byClient + (s.frees b).byLibrary ≤ 1) ∧
    (s.Quiescent → s.callAlloc = s.callFree ∧
      ∀ c b, (s.calls c).buf = some b → (s.frees b).byClient + (s.frees b).byLibrary = 1) := by
  have hi := inv_of_reachable h.reachable
  have hc := counters_of_reachable h.reachable
  have hb := buffers_of_reach h
  refine ⟨hc.liveSlots_card hi, fun c hl => hi.place hb.thrown (hi.mem_liveSlots.mp hl).2,
    hb.frees_le_one hi, fun hq => ⟨hc.balanced fun c => hi.gone_of_quiescent hb.thrown hq, ?_⟩⟩
  intro c b hbuf
  have hlt : c < s.next := by
    by_contra hn
    simp [hb.fresh c (not_lt.mp hn)] at hbuf
  exact hb.freed_once hi hbuf (hi.gone_of_quiescent hb.thrown hq hlt)
    fun hw => hq.waited c hlt hw b hbuf

/-- An Apply is abandoned, answered and collected: nothing is left, and the
library has freed the command buffer. -/
theorem no_leak_exactly_once_freeing_abandoned :
    ∃ s : State (Fin 2) (Fin 2), s.Quiescent ∧ (s.calls 0).buf = some 0 ∧
      s.callAlloc = s.callFree ∧ (s.frees 0).byClient + (s.frees 0).byLibrary = 1 := by
  have hinit : (system : Scheduled (State (Fin 2) (Fin 2)) _).Reach Disciplined initial := .init
  obtain ⟨s, hs, hq, hb⟩ := (hinit.extend along_disciplined_apply rfl).exists_of_run
    ((sendRun 0 0 .apply (some 0)).tail ++ abandonRun 0 ++ takeRun 0 ++ replyRun 0 7 ++
      collectRun 0 ++ [Act.gcStep, .gcCheck false])
    (along_disciplined_of_unrestricted (by decide) _)
    (fun s => s.Quiescent ∧ (s.calls 0).buf = some 0) (by decide +kernel)
  obtain ⟨hbal, hfreed⟩ := (no_leak_exactly_once_freeing hs).2.2.2 hq
  exact ⟨s, hq, hb, hbal, hfreed 0 0 hb⟩

/-- The collector has taken the last orphan out of the queue and has not looked
at it yet: the two queues are empty, and neither the slot nor the buffer is
freed. -/
theorem slot_unfreed_in_hand :
    ∃ s : State (Fin 2) (Fin 2),
      (system : Scheduled (State (Fin 2) (Fin 2)) _).Reach Disciplined s ∧ s.Settled ∧
      s.hand = [0] ∧ s.callAlloc = 1 ∧ s.callFree = 0 ∧ (s.calls 0).buf = some 0 ∧
      (s.frees 0).byClient + (s.frees 0).byLibrary = 0 := by
  have hinit : (system : Scheduled (State (Fin 2) (Fin 2)) _).Reach Disciplined initial := .init
  exact (hinit.extend along_disciplined_apply rfl).exists_of_run
    ((sendRun 0 0 .apply (some 0)).tail ++ abandonRun 0 ++ takeRun 0 ++ replyRun 0 7 ++ [.gcTake])
    (along_disciplined_of_unrestricted (by decide) _)
    (fun s => s.Settled ∧ s.hand = [0] ∧ s.callAlloc = 1 ∧ s.callFree = 0 ∧
      (s.calls 0).buf = some 0 ∧ (s.frees 0).byClient + (s.frees 0).byLibrary = 0)
    (by decide +kernel)

end Results

end Libraft.Pool
