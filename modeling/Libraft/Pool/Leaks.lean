import Libraft.Pool.Accounting
import Mathlib.Algebra.BigOperators.Group.Finset.Piecewise

/-!
# Results which nobody fetches

The answer to `raft_stats` is a buffer, which the caller of
`raft_future_get_stats` has to free. `orphan_cleanup` is chosen by the type of
the arguments, and the one for `NoArgs` does nothing. So when such a call is
abandoned, nobody frees its result.

## Implementation notes

The Raft side is not part of the repository. It is assumed to answer with the
handle of a live buffer which is no command buffer; which buffer that was is
recorded beside the state, together with the calls whose result was asked for.
`handle` says where the allocator has put each buffer, and it may use an
address again.
-/

namespace Libraft.Pool

open Libraft.Foundation Libraft.Calls

variable {τ ρ : Type*}

/-- How often a buffer was freed. -/
def Frees.total (f : Frees) : ℕ := f.byClient + f.byLibrary

theorem Frees.total_eq_zero_iff {f : Frees} : f.total = 0 ↔ f = ⟨0, 0⟩ := by
  cases f
  simp [Frees.total]

/-- The live buffer with the given handle. -/
def State.bufferAt (s : State τ ρ) (handle : ℕ → UInt64) (val : UInt64) : Option ℕ :=
  (List.range s.buffers).find? fun b => handle b = val ∧ s.frees b = ⟨0, 0⟩

/-- The buffers which have not been freed. -/
def State.unfreed (s : State τ ρ) : Finset ℕ :=
  (Finset.range s.buffers).filter fun b => s.frees b = ⟨0, 0⟩

/-- The operations which hand out the result of a call. -/
def Op.returnsResult : Op → Bool
  | .getFsmReply _ | .getStats _ | .futureGet | .leader => true
  | .wait | .poll | .waitFor => false

/-- What is recorded about results: the buffer named by the answer to a
`raft_stats`, and the calls whose result was asked for. -/
structure Results where
  buffer : ℕ → Option ℕ
  fetched : ℕ → Bool

/-- The buffer is the result of call `c`, and nobody has asked for it. -/
def Results.Unclaimed (η : Results) (c b : ℕ) : Prop :=
  η.buffer c = some b ∧ η.fetched c = false

instance (η : Results) (c b : ℕ) : Decidable (η.Unclaimed c b) :=
  inferInstanceAs (Decidable (_ ∧ _))

def Results.record (handle : ℕ → UInt64) (s : State τ ρ) (a : Act τ ρ) (η : Results) : Results :=
  match a with
  | .call c (.raftReply (some val) _) =>
      if (s.calls c).tag = .stats then
        { η with buffer := Function.update η.buffer c (s.bufferAt handle val) }
      else η
  | .call c (.start _ op) =>
      if op.returnsResult then { η with fetched := Function.update η.fetched c true } else η
  | _ => η

/-- The Raft side answers a `raft_stats` with a live buffer which is no command
buffer; command buffers have been allocated; and a buffer which nobody has asked
for is neither freed by the client nor used for a command. -/
def Honest (handle : ℕ → UInt64) (p : State τ ρ × Results) (a : Act τ ρ)
    (_ : State τ ρ × Results) : Prop :=
  match a with
  | .call c (.raftReply (some val) _) => (p.1.calls c).tag = .stats →
      ∃ b < p.1.buffers, p.1.bufferAt handle val = some b ∧
        ∀ d < p.1.next, (p.1.calls d).buf ≠ some b
  | .create _ (some b) _ | .freeBuffer b =>
      b < p.1.buffers ∧ ∀ d < p.1.next, ¬ p.2.Unclaimed d b
  | _ => True

instance (handle : ℕ → UInt64) (p : State τ ρ × Results) (a : Act τ ρ)
    (q : State τ ρ × Results) : Decidable (Honest handle p a q) := by
  unfold Honest
  split <;> infer_instance

/-- The pool with a record of the results. -/
def withResults [DecidableEq τ] [DecidableEq ρ] (handle : ℕ → UInt64) :
    Scheduled (State τ ρ × Results) (Act τ ρ) :=
  system.withHistory ⟨fun _ => none, fun _ => false⟩ (Results.record handle)

/-- The counters count, and nobody touches a result which was not asked for. -/
structure Ledger (s : State τ ρ) (η : Results) : Prop where
  fresh : ∀ c, s.next ≤ c →
    (s.calls c).buf = none ∧ (s.calls c).tag = .invalid ∧ η.buffer c = none
  command : ∀ c b, (s.calls c).buf = some b → b < s.buffers
  unallocated : ∀ b, s.buffers ≤ b → s.frees b = ⟨0, 0⟩
  alloc : s.bufferAlloc = UInt64.ofNat s.buffers
  free : s.bufferFree = UInt64.ofNat (∑ b ∈ Finset.range s.buffers, (s.frees b).total)
  unclaimed : ∀ c b, η.Unclaimed c b → b ∈ s.unfreed ∧ ∀ d, (s.calls d).buf ≠ some b

theorem ledger_initial :
    Ledger (initial : State τ ρ) ⟨fun _ => none, fun _ => false⟩ where
  fresh := by simp [initial, Call.unborn]
  command := by simp [initial, Call.unborn]
  unallocated := by simp [initial]
  alloc := rfl
  free := by simp [initial]
  unclaimed := by simp [Results.Unclaimed]

section Books
variable {s s' : State τ ρ} {η η' : Results}

/-- One more free of an allocated buffer. -/
theorem sum_total_update {f : ℕ → Frees} {n b : ℕ} (hb : b < n) {x : Frees}
    (hx : x.total = (f b).total + 1) :
    ∑ i ∈ Finset.range n, (Function.update f b x i).total =
      (∑ i ∈ Finset.range n, (f i).total) + 1 := by
  have hmem : b ∈ Finset.range n := Finset.mem_range.mpr hb
  rw [← Finset.add_sum_erase _ _ hmem, ← Finset.add_sum_erase _ (fun i => (f i).total) hmem,
    Function.update_self, hx]
  have hrest : ∑ i ∈ (Finset.range n).erase b, (Function.update f b x i).total =
      ∑ i ∈ (Finset.range n).erase b, (f i).total := by
    refine Finset.sum_congr rfl fun i hi => ?_
    rw [Function.update_of_ne (Finset.ne_of_mem_erase hi)]
  omega

/-- What is in the books does not change. -/
structure SameBooks (s s' : State τ ρ) : Prop where
  call : ∀ c, (s'.calls c).buf = (s.calls c).buf ∧ (s'.calls c).tag = (s.calls c).tag
  next : s'.next = s.next
  frees : s'.frees = s.frees
  buffers : s'.buffers = s.buffers
  bufferAlloc : s'.bufferAlloc = s.bufferAlloc
  bufferFree : s'.bufferFree = s.bufferFree

/-- A call keeps its kind and its buffer for ever. -/
theorem fixed_update {c : ℕ} {call : Call τ} (hcalls : s'.calls = Function.update s.calls c call)
    (hfix : call.buf = (s.calls c).buf ∧ call.tag = (s.calls c).tag) (d : ℕ) :
    (s'.calls d).buf = (s.calls d).buf ∧ (s'.calls d).tag = (s.calls d).tag := by
  rw [hcalls]
  by_cases hd : d = c
  · subst hd
    simpa using hfix
  · rw [Function.update_of_ne hd]
    exact ⟨rfl, rfl⟩

theorem Ledger.keep (h : Ledger s η) (hs : SameBooks s s')
    (hfresh : ∀ c, s.next ≤ c → η'.buffer c = none)
    (hη : ∀ c b, η'.Unclaimed c b → b ∈ s.unfreed ∧ ∀ d, (s.calls d).buf ≠ some b) :
    Ledger s' η' where
  fresh := by
    intro c hc
    rw [hs.next] at hc
    rw [(hs.call c).1, (hs.call c).2]
    exact ⟨(h.fresh c hc).1, (h.fresh c hc).2.1, hfresh c hc⟩
  command := by
    intro c b hb
    rw [(hs.call c).1] at hb
    rw [hs.buffers]
    exact h.command c b hb
  unallocated := by
    rw [hs.buffers, hs.frees]
    exact h.unallocated
  alloc := by rw [hs.bufferAlloc, hs.buffers, h.alloc]
  free := by rw [hs.bufferFree, hs.buffers, hs.frees, h.free]
  unclaimed := by
    intro c b hb
    obtain ⟨hfree, hbuf⟩ := hη c b hb
    refine ⟨by rwa [State.unfreed, hs.buffers, hs.frees], fun d => ?_⟩
    rw [(hs.call d).1]
    exact hbuf d

theorem Ledger.same (h : Ledger s η) (hs : SameBooks s s') : Ledger s' η :=
  h.keep hs (fun c hc => (h.fresh c hc).2.2) h.unclaimed

theorem Ledger.setCall (h : Ledger s η) {c : ℕ} {call : Call τ}
    (hcalls : s'.calls = Function.update s.calls c call)
    (hfix : call.buf = (s.calls c).buf ∧ call.tag = (s.calls c).tag) (hnext : s'.next = s.next)
    (hf : s'.frees = s.frees) (hb : s'.buffers = s.buffers)
    (ha : s'.bufferAlloc = s.bufferAlloc) (hfree : s'.bufferFree = s.bufferFree) :
    Ledger s' η :=
  h.same ⟨fixed_update hcalls hfix, hnext, hf, hb, ha, hfree⟩

/-- Everyone is a call which exists. -/
theorem Ledger.lt_next_of_unclaimed (h : Ledger s η) {c b : ℕ} (hu : η.Unclaimed c b) :
    c < s.next := by
  by_contra hn
  simp [Results.Unclaimed, (h.fresh c (not_lt.mp hn)).2.2] at hu

/-- A buffer which is nobody's unclaimed result is freed. -/
theorem Ledger.freed (h : Ledger s η) {b : ℕ} {x : Frees} (hb : b < s.buffers)
    (hun : ∀ c, ¬ η.Unclaimed c b) (hx : x.total = (s.frees b).total + 1)
    (hcall : ∀ c, (s'.calls c).buf = (s.calls c).buf ∧ (s'.calls c).tag = (s.calls c).tag)
    (hnext : s'.next = s.next) (hbuffers : s'.buffers = s.buffers)
    (hf : s'.frees = Function.update s.frees b x) (ha : s'.bufferAlloc = s.bufferAlloc)
    (hfree : s'.bufferFree = s.bufferFree + 1) : Ledger s' η where
  fresh := by
    intro c hc
    rw [(hcall c).1, (hcall c).2]
    exact h.fresh c (hnext ▸ hc)
  command := by
    intro c b' hc
    rw [(hcall c).1] at hc
    rw [hbuffers]
    exact h.command c b' hc
  unallocated := by
    intro b' hb'
    rw [hbuffers] at hb'
    rw [hf, Function.update_of_ne (by omega)]
    exact h.unallocated b' hb'
  alloc := by rw [ha, hbuffers, h.alloc]
  free := by
    rw [hfree, hbuffers, hf, sum_total_update hb hx, h.free, UInt64.ofNat_add]
    rfl
  unclaimed := by
    intro c b' hb'
    obtain ⟨hmem, hno⟩ := h.unclaimed c b' hb'
    refine ⟨?_, fun d => (hcall d).1 ▸ hno d⟩
    have hne : b' ≠ b := by
      rintro rfl
      exact hun c hb'
    simpa [State.unfreed, hbuffers, hf, hne] using hmem

theorem Ledger.allocBuffer (h : Ledger s η) :
    Ledger { s with buffers := s.buffers + 1, bufferAlloc := s.bufferAlloc + 1 } η where
  fresh := h.fresh
  command := fun c b hb => Nat.lt_succ_of_lt (h.command c b hb)
  unallocated := fun b hb => h.unallocated b (Nat.le_of_succ_le hb)
  alloc := by
    change s.bufferAlloc + 1 = _
    rw [h.alloc, UInt64.ofNat_add]
    rfl
  free := by
    change s.bufferFree = UInt64.ofNat (∑ b ∈ Finset.range (s.buffers + 1), (s.frees b).total)
    rw [Finset.sum_range_succ, h.unallocated _ le_rfl, h.free]
    rfl
  unclaimed := by
    intro c b hb
    obtain ⟨hmem, hno⟩ := h.unclaimed c b hb
    refine ⟨?_, hno⟩
    simp only [State.unfreed, Finset.mem_filter, Finset.mem_range] at hmem ⊢
    exact ⟨by omega, hmem.2⟩

theorem Ledger.create (h : Ledger s η) {tag : CallTag} {buf : Option ℕ} {err : Option RaftError}
    (hb : ∀ b, buf = some b → b < s.buffers ∧ ∀ c, ¬ η.Unclaimed c b)
    (hcalls : s'.calls = Function.update s.calls s.next (.create tag buf err))
    (hnext : s'.next = s.next + 1) (hf : s'.frees = s.frees) (hbuffers : s'.buffers = s.buffers)
    (ha : s'.bufferAlloc = s.bufferAlloc) (hfree : s'.bufferFree = s.bufferFree) :
    Ledger s' η := by
  have hbuf {c b : ℕ} (hc : (s'.calls c).buf = some b) :
      (c = s.next ∧ buf = some b) ∨ (s.calls c).buf = some b := by
    rw [hcalls] at hc
    by_cases hcn : c = s.next
    · subst hcn
      rw [Function.update_self] at hc
      exact .inl ⟨rfl, hc⟩
    · rw [Function.update_of_ne hcn] at hc
      exact .inr hc
  refine ⟨fun c hc => ?_, fun c b hc => ?_, ?_, ?_, ?_, fun c b hun => ?_⟩
  · rw [hcalls, Function.update_of_ne (by omega)]
    exact h.fresh c (by omega)
  · rw [hbuffers]
    rcases hbuf hc with ⟨-, hnew⟩ | hold
    · exact (hb b hnew).1
    · exact h.command c b hold
  · rw [hbuffers, hf]
    exact h.unallocated
  · rw [ha, hbuffers, h.alloc]
  · rw [hfree, hbuffers, hf, h.free]
  · obtain ⟨hmem, hno⟩ := h.unclaimed c b hun
    refine ⟨by rwa [State.unfreed, hbuffers, hf], fun d hd => ?_⟩
    rcases hbuf hd with ⟨-, hnew⟩ | hold
    · exact (hb b hnew).2 c hun
    · exact hno d hold

/-- `orphan_cleanup` frees a command buffer, which is nobody's result, or nothing. -/
theorem Ledger.cleanup (h : Ledger s η) (c : ℕ) (byGc : Bool) : Ledger (s.cleanup c byGc) η := by
  have hcalls : (s.cleanup c byGc).calls = Function.update s.calls c { s.calls c with
      life := .disposing byGc .deallocate, cleanups := (s.calls c).cleanups + 1 } := rfl
  have hcall := fixed_update hcalls ⟨rfl, rfl⟩
  cases hc : (s.calls c).buf with
  | none =>
      refine h.same ⟨hcall, rfl, ?_, rfl, rfl, ?_⟩
      · simp [State.cleanup, hc]
      · simp [State.cleanup, hc]
  | some b =>
      have hf : (s.cleanup c byGc).frees = Function.update s.frees b
          { s.frees b with byLibrary := (s.frees b).byLibrary + 1 } := by
        simp [State.cleanup, hc]
      refine h.freed (h.command c b hc) (fun d hun => (h.unclaimed d b hun).2 c hc) ?_ hcall rfl
        rfl hf rfl ?_
      · simp only [Frees.total]
        omega
      · simp [State.cleanup, hc]

/-- A handle leads to a buffer which is not yet freed. -/
theorem mem_unfreed_of_bufferAt {handle : ℕ → UInt64} {val : UInt64} {b : ℕ}
    (h : s.bufferAt handle val = some b) : b ∈ s.unfreed := by
  have hmem := List.mem_of_find?_eq_some h
  have hfound := List.find?_some h
  simp only [decide_eq_true_eq] at hfound
  simpa [State.unfreed, hfound.2] using hmem

/-- A reply to a `raft_stats` names its result, and nothing else does. -/
theorem record_buffer (handle : ℕ → UInt64) (c d : ℕ) (a : CallAct τ) :
    (η.record handle s (.call c a)).buffer d = η.buffer d ∨
      (d = c ∧ (s.calls c).tag = .stats ∧ ∃ val err, a = .raftReply (some val) err ∧
        (η.record handle s (.call c a)).buffer d = s.bufferAt handle val) := by
  cases a with
  | raftReply retval err =>
      cases retval with
      | none => exact .inl rfl
      | some val =>
          simp only [Results.record]
          split <;> rename_i htag
          · by_cases hd : d = c
            · subst hd
              exact .inr ⟨rfl, htag, val, err, rfl, Function.update_self ..⟩
            · exact .inl (Function.update_of_ne hd ..)
          · exact .inl rfl
  | start t op =>
      simp only [Results.record]
      split <;> exact .inl rfl
  | _ => exact .inl rfl

/-- Who has asked for a result has done so. -/
theorem fetched_of_record {handle : ℕ → UInt64} {c d : ℕ} {a : CallAct τ}
    (h : (η.record handle s (.call c a)).fetched d = false) : η.fetched d = false := by
  cases a with
  | raftReply retval err =>
      cases retval with
      | none => exact h
      | some val =>
          simp only [Results.record] at h
          split at h <;> exact h
  | start t op =>
      simp only [Results.record] at h
      split at h
      · by_cases hd : d = c
        · simp [hd] at h
        · simpa [hd] using h
      · exact h
  | _ => exact h

variable [DecidableEq τ] [DecidableEq ρ] {a : Act τ ρ} {handle : ℕ → UInt64}

theorem Ledger.trans (h : Ledger s η) (ht : Trans s a s') {q : State τ ρ × Results}
    (hh : Honest handle (s, η) a q) : Ledger s' (η.record handle s a) := by
  have hunclaimed {b : ℕ} (hb : ∀ d < s.next, ¬ η.Unclaimed d b) (d : ℕ) : ¬ η.Unclaimed d b :=
    fun hu => hb d (h.lt_next_of_unclaimed hu) hu
  cases ht with
  | @create tag buf err he hb =>
      refine h.create (fun b hbuf => ?_) rfl rfl rfl rfl rfl rfl
      subst hbuf
      exact ⟨hh.1, hunclaimed hh.2⟩
  | @allocate c n err hl hp =>
      exact h.setCall rfl (by cases err <;> exact ⟨rfl, rfl⟩) rfl rfl rfl rfl rfl
  | enqueue hl hq | sentOk hl hp | sentClosed hl hp | track hl ho | trackClosed hl ho
  | deallocate hl | count hl | testDone hg hterm =>
      exact h.setCall rfl ⟨rfl, rfl⟩ rfl rfl rfl rfl rfl
  | @call c a call slot ht hr =>
      obtain ⟨-, htag, hbuf, -⟩ := ht.fixed
      refine h.keep ⟨fixed_update rfl ⟨hbuf, htag⟩, rfl, rfl, rfl, rfl, rfl⟩ (fun d hd => ?_)
        fun d b hu => ?_
      · rcases record_buffer (s := s) (η := η) handle c d a with hold | ⟨rfl, hstats, -⟩
        · exact hold.trans (h.fresh d hd).2.2
        · cases (h.fresh d hd).2.1.symm.trans hstats
      · rcases record_buffer (s := s) (η := η) handle c d a with
          hold | ⟨rfl, hstats, val, err, rfl, hnew⟩
        · exact h.unclaimed d b ⟨hold ▸ hu.1, fetched_of_record hu.2⟩
        · obtain ⟨b', -, hat, hno⟩ := hh hstats
          cases hat.symm.trans (hnew.symm.trans hu.1)
          refine ⟨mem_unfreed_of_bufferAt hat, fun e he => ?_⟩
          by_cases hlt : e < s.next
          · exact hno e hlt he
          · simp [(h.fresh e (not_lt.mp hlt)).1] at he
  | cleanup hl => exact h.cleanup _ _
  | release hg =>
      rw [released_eq]
      exact h.same ⟨fun _ => ⟨rfl, rfl⟩, rfl, rfl, rfl, rfl, rfl⟩
  | allocBuffer => exact h.allocBuffer
  | freeBuffer =>
      refine h.freed hh.1 (hunclaimed hh.2) ?_ (fun _ => ⟨rfl, rfl⟩) rfl rfl rfl rfl rfl
      simp only [Frees.total]
      omega
  | _ => exact h.same ⟨fun _ => ⟨rfl, rfl⟩, rfl, rfl, rfl, rfl, rfl⟩

theorem ledger_of_reach {p : State τ ρ × Results}
    (h : (withResults handle).Reach (Honest handle) p) : Ledger p.1 p.2 := by
  refine Scheduled.Reach.invariant (I := fun p : State τ ρ × Results => Ledger p.1 p.2) h
    ledger_initial ?_
  rintro p a q - hp ht hh
  obtain ⟨hstep, hrec⟩ := Scheduled.withHistory_step ht
  rw [hrec]
  exact hp.trans (trans_of_step hstep) hh

end Books

section Results
variable {s : State τ ρ} {η : Results}

/-- While no buffer is freed twice, the counters differ by the number of those
which are not freed. -/
theorem Ledger.balance (h : Ledger s η) (hone : ∀ b, (s.frees b).total ≤ 1) :
    s.bufferAlloc - s.bufferFree = UInt64.ofNat s.unfreed.card := by
  have hsum : (∑ b ∈ Finset.range s.buffers, (s.frees b).total) + s.unfreed.card =
      s.buffers := by
    rw [State.unfreed, Finset.card_filter, ← Finset.sum_add_distrib]
    have hall : ∀ b ∈ Finset.range s.buffers,
        (s.frees b).total + (if s.frees b = ⟨0, 0⟩ then 1 else 0) = 1 := by
      intro b _
      have hle := hone b
      split <;> rename_i hz
      · simp [hz, Frees.total]
      · have hpos : (s.frees b).total ≠ 0 := mt Frees.total_eq_zero_iff.mp hz
        omega
    rw [Finset.sum_congr rfl hall]
    simp
  rw [h.alloc, h.free, ← UInt64.ofNat_sub (by omega)]
  congr 1
  omega

variable [DecidableEq τ] [DecidableEq ρ]

/-- The result of a call which nobody asks for is freed exactly if there is none:
otherwise it stays allocated, whatever becomes of the call, and the counters
differ. -/
theorem unfetched_result_freed_iff (handle : ℕ → UInt64) {p : State τ ρ × Results}
    (h : (withResults handle).Reach (Honest handle) p) {c : ℕ} (hc : p.2.fetched c = false) :
    ((∀ b, p.2.buffer c = some b → (p.1.frees b).total = 1) ↔ p.2.buffer c = none) ∧
    (∀ b, p.2.buffer c = some b → b ∈ p.1.unfreed) ∧
    ((∀ b, (p.1.frees b).total ≤ 1) →
      p.1.bufferAlloc - p.1.bufferFree = UInt64.ofNat p.1.unfreed.card) := by
  have hl := ledger_of_reach h
  have hkept (b : ℕ) (hb : p.2.buffer c = some b) : b ∈ p.1.unfreed :=
    (hl.unclaimed c b ⟨hb, hc⟩).1
  refine ⟨⟨fun hfreed => ?_, fun hnone => by simp [hnone]⟩, hkept, hl.balance⟩
  by_contra hsome
  obtain ⟨b, hb⟩ := Option.ne_none_iff_exists'.mp hsome
  have hzero := Frees.total_eq_zero_iff.mpr (Finset.mem_filter.mp (hkept b hb)).2
  have hone := hfreed b hb
  omega

/-- A `raft_stats` is answered with buffer 0 while its caller still has the
future. -/
def statsRun : List (Act (Fin 2) (Fin 2)) :=
  sendRun 0 0 .stats none ++ takeRun 0 ++ [Act.allocBuffer] ++ replyRun 0 256

/-- Where the buffers are. -/
def exampleHandle (b : ℕ) : UInt64 := 256 * UInt64.ofNat (b + 1)

/-- The call is disposed of before the Raft side takes it. -/
theorem unfetched_result_freed_iff_late :
    ∃ p : State (Fin 2) (Fin 2) × Results, p.1.Quiescent ∧ p.2.buffer 0 = some 0 ∧
      ¬ (∀ b, p.2.buffer 0 = some b → (p.1.frees b).total = 1) ∧ 0 ∈ p.1.unfreed := by
  have hinit : (withResults exampleHandle).Reach (Honest exampleHandle)
      ((initial : State (Fin 2) (Fin 2)), ⟨fun _ => none, fun _ => false⟩) := .init
  obtain ⟨p, hp, hq, hf, hb⟩ := hinit.exists_of_run
    (sendRun 0 0 .stats none ++ abandonRun 0 ++ takeRun 0 ++ [Act.allocBuffer] ++
      replyRun 0 256 ++ collectRun 0 ++ [Act.gcStep, .gcCheck false]) (by decide +kernel)
    (fun p => p.1.Quiescent ∧ p.2.fetched 0 = false ∧ p.2.buffer 0 = some 0) (by decide +kernel)
  obtain ⟨hiff, hkept, -⟩ := unfetched_result_freed_iff exampleHandle hp hf
  refine ⟨p, hq, hb, fun hfreed => ?_, hkept 0 hb⟩
  have hnone := hiff.mp hfreed
  rw [hb] at hnone
  cases hnone

/-- The result of an abandoned `raft_stats` is never freed: nothing is left to be
done, and one buffer more was allocated than freed. -/
theorem abandoned_result_leaks :
    ∃ p : State (Fin 2) (Fin 2) × Results,
      (withResults exampleHandle).Reach (Honest exampleHandle) p ∧
      p.1.Quiescent ∧ (p.1.calls 0).client = .abandoned ∧ (p.1.calls 0).life = .gone ∧
      p.2.fetched 0 = false ∧ p.2.buffer 0 = some 0 ∧ (p.1.frees 0).total = 0 ∧
      p.1.bufferAlloc = 1 ∧ p.1.bufferFree = 0 :=
  Scheduled.Reach.exists_of_run .init
    (statsRun ++ abandonRun 0 ++ collectRun 0 ++ [Act.gcStep, .gcCheck false])
    (by decide +kernel) _ (by decide +kernel)

end Results

end Libraft.Pool
