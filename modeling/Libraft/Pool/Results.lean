import Libraft.Pool.Invariant

/-!
# Results and disposal of a future

What an operation on a future tells the client about the outcome of the call,
and what the following `raft_future_dispose` does. Both depend on whether the
operation found the call without a result: only then does it go through
`BaseSlot::wait`, which returns the error and marks the call as observed.
-/

namespace Libraft.Pool

open Libraft.Foundation Libraft.Calls

variable {τ ρ : Type*}

/-- `raft_future_dispose` on the call is over. -/
def Life.disposed : Life → Bool
  | .orphaned | .thrown | .gone | .disposing true _ => true
  | _ => false

/-- The client's own `dispose` has deallocated the slot, the collector never had
the call, and the command buffer was left alone. -/
def Call.DisposedByClient (call : Call τ) : Prop :=
  call.frees = 1 ∧ call.handed = false ∧ call.cleanups = 0

instance (call : Call τ) : Decidable call.DisposedByClient :=
  inferInstanceAs (Decidable (_ ∧ _ ∧ _))

/-- After its disposal a call is observed if and only if some operation waited. -/
theorem CallOk.observed_iff_entered {call : Call τ} (h : CallOk call)
    (hl : call.life.disposed = true) : call.client = .observed ↔ call.entered = true := by
  have hheld : call.life ≠ .held := by
    intro hh
    simp [hh, Life.disposed] at hl
  exact ⟨fun ho => (h.usage.observed ho).2, h.usage.observed_of_entered (h.usage.free hheld)⟩

/-- After its disposal a call was deallocated by the client if and only if it
was observed. -/
theorem CallOk.disposedByClient_iff_observed {call : Call τ} (h : CallOk call)
    (hl : call.life.disposed = true) : call.DisposedByClient ↔ call.client = .observed := by
  have hlife := h.lifecycle
  cases hc : call.life with
  | gone =>
      simp only [Lifecycle, hc] at hlife
      obtain ⟨hf, -, ⟨hobs, hh, hcl⟩ | ⟨hab, hh, -⟩⟩ := hlife
      · simp [Call.DisposedByClient, hf, hh, hcl, hobs]
      · simp [Call.DisposedByClient, hh, hab]
  | orphaned | thrown =>
      simp only [Lifecycle, hc] at hlife
      simp [Call.DisposedByClient, hlife]
  | disposing byGc pc =>
      cases byGc with
      | false => simp [hc, Life.disposed] at hl
      | true => cases pc <;> simp_all [Lifecycle, Call.DisposedByClient]
  | unborn | creating pc | held => simp [hc, Life.disposed] at hl

section Runs

/-- Call `c` is created with the given arguments, gets the node `n` and is sent. -/
def sendRun (c n : ℕ) (tag : CallTag) (buf : Option ℕ) : List (Act (Fin 2) (Fin 2)) :=
  [Act.create tag buf none, .allocate c n, .enqueue c] ++
    List.replicate 4 (Act.api (.step (.inl c) none)) ++ [Act.sent c]

/-- The Raft side takes the next record and locks the slot of call `c`. -/
def takeRun (c : ℕ) : List (Act (Fin 2) (Fin 2)) :=
  [Act.api (.call (.inr 0) .take)] ++ List.replicate 4 (Act.api (.step (.inr 0) none)) ++
    [Act.api (.leave (.inr 0)), .call c .raftLock]

/-- The Raft side replies with a value and leaves call `c`. -/
def replyRun (c : ℕ) (val : UInt64) : List (Act (Fin 2) (Fin 2)) :=
  [Act.call c (.raftReply (some val) .success)] ++ List.replicate 5 (Act.call c (.raft none)) ++
    [Act.call c .raftUnlock]

/-- The Raft side replies with an error and leaves call `c`. -/
def replyErrorRun (c : ℕ) (err : RaftError) : List (Act (Fin 2) (Fin 2)) :=
  [Act.call c (.raftReply none err)] ++ List.replicate 4 (Act.call c (.raft none)) ++
    [Act.call c .raftUnlock]

/-- Thread 0 goes through `n` statements of an operation on call `c` and leaves. -/
def useRun (c n : ℕ) : List (Act (Fin 2) (Fin 2)) :=
  List.replicate n (Act.call c (.use 0)) ++ [Act.call c (.leave 0)]

/-- The client disposes of call `c`, which has been observed. -/
def disposeRun (c : ℕ) : List (Act (Fin 2) (Fin 2)) :=
  [.call c .dispose, .call c .disposeStep, .dispose c, .dispose c]

/-- The client disposes of call `c`, which has not been observed. -/
def abandonRun (c : ℕ) : List (Act (Fin 2) (Fin 2)) :=
  [.call c .dispose, .call c .disposeStep, .call c .disposeStep, .dispose c]

/-- The collector takes the next orphan, call `c`, and disposes of it. -/
def collectRun (c : ℕ) : List (Act (Fin 2) (Fin 2)) :=
  [.gcTake, .gcStep, .gcStep, .call c .disposeStep, .dispose c, .dispose c, .dispose c, .gcStep]

/-- `raft_apply`, a reply, `raft_future_get_fsm_reply`, `raft_future_dispose`,
and the collector. -/
def earlyReplyRun : List (Act (Fin 2) (Fin 2)) :=
  [Act.allocBuffer] ++ sendRun 0 0 .apply (some 0) ++ takeRun 0 ++ replyRun 0 7 ++
    [Act.call 0 (.start 0 (.getFsmReply true))] ++ useRun 0 2 ++ abandonRun 0 ++ collectRun 0

/-- The same with a reply which comes after the fetch has started. -/
def lateReplyRun : List (Act (Fin 2) (Fin 2)) :=
  [Act.allocBuffer] ++ sendRun 0 0 .apply (some 0) ++ takeRun 0 ++
    [Act.call 0 (.start 0 (.getFsmReply true)), .call 0 (.use 0)] ++ replyRun 0 7 ++
    useRun 0 5 ++ disposeRun 0

end Runs

section Disposal
variable [DecidableEq τ] [DecidableEq ρ]

/-- A client which has been told the outcome and has disposed of the future finds
the slot deallocated on the spot and its buffer left alone if and only if it
called `raft_future_wait`, or one of its fetches came before the result. -/
theorem disposal_after_result_iff {s : State τ ρ}
    (h : (system : Scheduled (State τ ρ) (Act τ ρ)).Reachable s) (c : ℕ)
    (hl : (s.calls c).life.disposed = true) :
    ((s.calls c).revealed = true → (s.calls c).DisposedByClient) ↔
      ((s.calls c).revealed = true →
        (s.calls c).waitCalled = true ∨ (s.calls c).foundPending = true) := by
  have hok := (inv_of_reachable h).calls c
  rw [hok.disposedByClient_iff_observed hl, hok.observed_iff_entered hl, Call.entered,
    Bool.or_eq_true]

theorem disposal_after_late_reply :
    ∃ s : State (Fin 2) (Fin 2), (s.calls 0).life.disposed = true ∧
      (s.calls 0).revealed = true ∧ (s.calls 0).DisposedByClient := by
  obtain ⟨s, hs, hl, hr, hp⟩ := Scheduled.exists_reachable_of_run system lateReplyRun
    (fun s => (s.calls 0).life.disposed = true ∧ (s.calls 0).revealed = true ∧
      (s.calls 0).foundPending = true) (by decide +kernel)
  exact ⟨s, hl, hr, (disposal_after_result_iff hs 0 hl).mpr (fun _ => .inr hp) hr⟩

/-- Two runs of `raft_apply`, `raft_future_get_fsm_reply` and
`raft_future_dispose` which differ in whether the reply comes before the fetch
has started: in the first one the collector gets the call and the library frees
the command buffer. -/
theorem reply_timing_decides_buffer :
    ∃ s₁ s₂ : State (Fin 2) (Fin 2), system.Reachable s₁ ∧ system.Reachable s₂ ∧
      ((s₁.calls 0).revealed = true ∧ (s₁.calls 0).outcome = some (.success, 7) ∧
        (s₁.calls 0).life = .gone ∧ ¬ (s₁.calls 0).DisposedByClient ∧
        (s₁.frees 0).byLibrary = 1) ∧
      ((s₂.calls 0).revealed = true ∧ (s₂.calls 0).outcome = some (.success, 7) ∧
        (s₂.calls 0).life = .gone ∧ (s₂.frees 0).byLibrary = 0) := by
  obtain ⟨s₁, hs₁, hp₁⟩ := Scheduled.exists_reachable_of_run system earlyReplyRun
    (fun s => (s.calls 0).revealed = true ∧ (s.calls 0).outcome = some (.success, 7) ∧
      (s.calls 0).life = .gone ∧ ¬ (s.calls 0).DisposedByClient ∧ (s.frees 0).byLibrary = 1)
    (by decide +kernel)
  obtain ⟨s₂, hs₂, hp₂⟩ := Scheduled.exists_reachable_of_run system lateReplyRun
    (fun s => (s.calls 0).revealed = true ∧ (s.calls 0).outcome = some (.success, 7) ∧
      (s.calls 0).life = .gone ∧ (s.frees 0).byLibrary = 0) (by decide +kernel)
  exact ⟨s₁, s₂, hs₁, hs₂, hp₁, hp₂⟩

end Disposal

/-- What a fetch may return for a call which was completed with `err` and `val`:
that error, the value only with a success, and no failed assertion for a failed
call. -/
def Result.Faithful (err : RaftError) (val : UInt64) : Result → Prop
  | .got err' val' => err' = err ∧ val' = if err = .success then some val else none
  | .assertFailed => err = .success
  | _ => False

instance (err : RaftError) (val : UInt64) : DecidablePred (Result.Faithful err val)
  | .got _ _ => inferInstanceAs (Decidable (_ ∧ _))
  | .assertFailed => inferInstanceAs (Decidable (_ = _))
  | .waited _ | .polled _ | .refused _ => inferInstanceAs (Decidable False)

/-- Without a test of the error, the result is right for successes only. -/
theorem faithful_futureGetResult_iff (tag : CallTag) (op : Op) (err : RaftError) (val : UInt64) :
    (futureGetResult tag op val).Faithful err val ↔ err = .success := by
  unfold futureGetResult
  split
  · split
    · rfl
    · simp only [Result.Faithful]
      constructor
      · rintro ⟨rfl, -⟩
        rfl
      · rintro rfl
        simp
  · rfl

/-- `future_get` tests the error only when it has waited. -/
theorem faithful_report_iff {op : Op} (hop : op.isGet = true) (tag : CallTag) (fast : Bool)
    (err : RaftError) (val : UInt64) :
    (op.report tag fast err val).Faithful err val ↔ fast = false ∨ err = .success := by
  have hres : op.result tag err val = futureGetResult tag op val := by
    cases op <;> first | rfl | simp [Op.isGet] at hop
  unfold Op.report
  split
  case isTrue hc =>
      simp only [Bool.and_eq_true, Bool.not_eq_true', decide_eq_true_eq] at hc
      simp [Result.Faithful, hc]
  case isFalse hc =>
      rw [hres, faithful_futureGetResult_iff]
      simp only [hop, Bool.true_and, Bool.and_eq_true, Bool.not_eq_true', decide_eq_true_eq,
        not_and, not_not] at hc
      constructor
      · exact .inr
      · rintro (hf | he)
        · exact hc hf
        · exact he

section Fetching
variable [DecidableEq τ] [DecidableEq ρ]

/-- A fetch through `future_get` reports the outcome of the call if and only if
it found the call without a result, or the call was successful. -/
theorem future_get_faithful_iff {s : State τ ρ}
    (h : (system : Scheduled (State τ ρ) (Act τ ρ)).Reachable s) {c : ℕ} {t : τ} {op : Op}
    {fast : Bool} {res : Result} (hu : (s.calls c).uses t = .done op fast res)
    (hget : op.isGet = true) (hargs : ¬ op.mayRefuse (s.calls c).tag) :
    ∃ err val, (s.calls c).outcome = some (err, val) ∧
      (res.Faithful err val ↔ fast = false ∨ err = .success) := by
  have hrep : Reported (s.calls c) op fast res := by
    have hok := ((inv_of_reachable h).calls c).usage.use t
    rwa [hu] at hok
  cases res with
  | polled b => simp [hrep.1] at hget
  | waited err => simp [hrep.1] at hget
  | refused err => exact absurd hrep hargs
  | got err' val' =>
      obtain ⟨-, err, val, hout, hres⟩ := hrep
      exact ⟨err, val, hout, by rw [hres, faithful_report_iff hget]⟩
  | assertFailed =>
      obtain ⟨-, err, val, hout, hres⟩ := hrep
      exact ⟨err, val, hout, by rw [hres, faithful_report_iff hget]⟩

theorem future_get_faithful_late :
    ∃ s : State (Fin 2) (Fin 2), ∃ res err val,
      (s.calls 0).uses 0 = .done (.getStats true) false res ∧
      (s.calls 0).outcome = some (err, val) ∧ res.Faithful err val := by
  obtain ⟨s, hs, hu, htag⟩ := Scheduled.exists_reachable_of_run system
    (sendRun 0 0 .stats none ++ takeRun 0 ++
      [Act.call 0 (.start 0 (.getStats true)), .call 0 (.use 0)] ++ replyErrorRun 0 .notLeader ++
      List.replicate 5 (Act.call 0 (.use 0)))
    (fun s => (s.calls 0).uses 0 = .done (.getStats true) false (.got .notLeader none) ∧
      (s.calls 0).tag = .stats) (by decide +kernel)
  obtain ⟨err, val, hout, hf⟩ :=
    future_get_faithful_iff hs hu rfl (by simp [Op.mayRefuse, htag])
  exact ⟨s, _, err, val, hu, hout, hf.mpr (.inl rfl)⟩

/-- A Stats call which has failed before it is fetched: `raft_future_get_stats`
fails its assertion on the handle, and `future_get` returns success and a value. -/
theorem failed_call_fetched_as_success :
    ∃ s : State (Fin 2) (Fin 2), system.Reachable s ∧
      (s.calls 0).tag = .stats ∧ (s.calls 0).outcome = some (.notLeader, 0) ∧
      (s.calls 0).uses 0 = .done (.getStats true) true .assertFailed ∧
      (s.calls 0).uses 1 = .done .futureGet true (.got .success (some 0)) :=
  Scheduled.exists_reachable_of_run system
    (sendRun 0 0 .stats none ++ takeRun 0 ++ replyErrorRun 0 .notLeader ++
      [Act.call 0 (.start 0 (.getStats true)), .call 0 (.use 0), .call 0 (.use 0),
        .call 0 (.start 1 .futureGet), .call 0 (.use 1), .call 0 (.use 1)])
    (fun s => (s.calls 0).tag = .stats ∧ (s.calls 0).outcome = some (.notLeader, 0) ∧
      (s.calls 0).uses 0 = .done (.getStats true) true .assertFailed ∧
      (s.calls 0).uses 1 = .done .futureGet true (.got .success (some 0))) (by decide +kernel)

end Fetching

end Libraft.Pool
