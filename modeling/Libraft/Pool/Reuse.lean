import Libraft.Pool.Exclusion

/-!
# Slots after their deallocation

The allocator hands a node out again as soon as it has been given back. What
holds in every run, and what holds as long as the guard of
`try_dispose_orphan` does not outlive the slot whose mutex it holds.

## Implementation notes

A step touches the slot of a call if a thread follows its pointer to that call
in the step. A wakeup without notification is an event of the condition
variable and not an access of a thread.
-/

namespace Libraft.Pool

open Libraft.Foundation Libraft.Calls
open Libraft.Queue

variable {τ ρ : Type*}

/-- The calls whose record is in the API queue. -/
def State.queued (s : State τ ρ) : List ℕ :=
  (s.api.ring.contents callQueueCapacity).map Prod.snd

/-- The call on which the Raft side takes a step. -/
def Act.raftOn : Act τ ρ → Option ℕ
  | .call c .raftLock | .call c (.raftReply _ _) | .call c (.raft _) | .call c .raftUnlock => some c
  | _ => none

section Deallocation
variable [DecidableEq ρ] {s : State τ ρ}

theorem CallOk.frees_le_one {call : Call τ} (h : CallOk call) : call.frees ≤ 1 := by
  have hlife := h.lifecycle
  unfold Lifecycle at hlife
  split at hlife <;> first | omega | exact hlife.elim

/-- A completed call has left the API queue. -/
theorem Inv.not_queued_of_completed (h : Inv s) {c : ℕ} (hc : (s.calls c).completed = true) :
    c ∉ s.queued := by
  have hsplit : s.taken ++ s.queued = s.accepted := by
    rw [State.taken, State.queued, ← List.map_append,
      ArrayBlockingQueue.delivered_append_contents (by decide) h.api.reach, State.accepted]
  have hnd : (s.taken ++ s.queued).Nodup := hsplit ▸ h.api.supplied.nodup
  intro hq
  cases hrej : (s.calls c).rejected with
  | true => exact h.api.rejected c hrej (hsplit ▸ List.mem_append_right _ hq)
  | false =>
      have hraft : (s.calls c).raft ≠ .idle := by
        intro hidle
        simp [((h.calls c).completion.quiet hrej (.inl hidle)).2] at hc
      exact (List.nodup_append.mp hnd).2.2 c (h.api.taken c hraft) c hq rfl

variable [DecidableEq τ] {s' : State τ ρ} {a : Act τ ρ}

omit [DecidableEq ρ] in
theorem CallTrans.frees_eq {c : ℕ} {call call' : Call τ} {slot slot' : BaseSlot (Actor τ)}
    {a : CallAct τ} (ht : CallTrans c call slot a call' slot') : call'.frees = call.frees := by
  cases ht <;> rfl

/-- Only `deallocate_one` deallocates. -/
theorem Inv.frees_of_trans (h : Inv s) (ht : Trans s a s') (c : ℕ) :
    (s'.calls c).frees = (s.calls c).frees ∨
      ∃ byGc, (s.calls c).life = .disposing byGc .deallocate := by
  have hupd {d : ℕ} {call : Call τ} (hf : call.frees = (s.calls d).frees) :
      (Function.update s.calls d call c).frees = (s.calls c).frees ∨
        ∃ byGc, (s.calls c).life = .disposing byGc .deallocate := by
    by_cases hc : c = d
    · subst hc
      exact .inl (by simpa using hf)
    · exact .inl (by simp [hc])
  cases ht with
  | create he hb =>
      refine hupd ?_
      have hlife := (h.calls s.next).lifecycle
      simp only [Lifecycle, h.api.born s.next le_rfl] at hlife
      exact hlife.2.2.1.symm
  | @allocate d n err hl hp => exact hupd (by cases err <;> rfl)
  | enqueue hl hq => exact hupd rfl
  | sentOk hl hp | sentClosed hl hp => exact hupd rfl
  | call ht hr => exact hupd ht.frees_eq
  | track hl ho | trackClosed hl ho => exact hupd rfl
  | cleanup hl | count hl => exact hupd rfl
  | @deallocate d byGc hl =>
      by_cases hc : c = d
      · subst hc
        exact .inr ⟨byGc, hl⟩
      · exact .inl (by simp [State.deallocate, hc])
  | testDone hg hterm => exact hupd rfl
  | release hg =>
      rw [released_eq]
      exact .inl rfl
  | _ => exact .inl rfl

/-- A slot is deallocated once, after it has got its final state and after its
record has left the API queue. -/
theorem Inv.deallocation (h : Inv s) (ht : Trans s a s') {c : ℕ}
    (hf : (s'.calls c).frees ≠ (s.calls c).frees) :
    (s.calls c).frees = 0 ∧ isTerminal (s.slot c).state = true ∧ c ∉ s.queued := by
  obtain ⟨byGc, hl⟩ := (h.frees_of_trans ht c).resolve_left hf
  have hlife := (h.calls c).lifecycle
  have hok : (s.calls c).frees = 0 ∧ (s.calls c).completed = true := by
    cases byGc with
    | false =>
        simp only [Lifecycle, hl] at hlife
        exact ⟨hlife.2.2.1, ((h.calls c).usage.observed hlife.1).1⟩
    | true =>
        simp only [Lifecycle, hl] at hlife
        exact ⟨hlife.2.2.1, hlife.2.2.2.2⟩
  refine ⟨hok.1, ?_, h.not_queued_of_completed hok.2⟩
  rw [(h.coh c (by simp [hl, Life.live])).terminal, hok.2]

end Deallocation

/-- The Raft side takes its steps on live slots, as long as the mutexes work. -/
theorem Excl.live_of_raftOn [DecidableEq τ] [DecidableEq ρ] {s s' : State τ ρ} {a : Act τ ρ}
    (h : Excl s) (hi : Inv s) (ht : Trans s a s') {c : ℕ} (ha : a.raftOn = some c) :
    s.pool (s.calls c).addr = some c := by
  cases ht with
  | @call d a call slot ht hr =>
      rcases h.live_of_call hi ht hr with hl | ⟨t, rfl⟩
      · have hd : d = c := by
          unfold Act.raftOn at ha
          split at ha <;> simp_all
        subst hd
        exact (hi.pool _ d).mpr ⟨hl, rfl⟩
      · simp [Act.raftOn] at ha
  | _ => simp [Act.raftOn] at ha

section Lifetime
variable [DecidableEq τ] [DecidableEq ρ]

/-- No slot is deallocated twice, or before it has got its final state, or while
its record is in the API queue, and the Raft side takes no step on a slot which
has been deallocated. -/
def SlotLifetime (s : State τ ρ) : Prop :=
  ∀ c, (s.calls c).frees ≤ 1 ∧ ∀ a s', step s a = some s' →
    ((s'.calls c).frees ≠ (s.calls c).frees →
      (s.calls c).frees = 0 ∧ isTerminal (s.slot c).state = true ∧ c ∉ s.queued) ∧
    (a.raftOn = some c → s.pool (s.calls c).addr = some c)

/-- Slots live long enough in every run in which the collector's late unlocks
meet no mutex which somebody else holds. -/
theorem slot_lifetime_of_harmless_release {s : State τ ρ}
    (h : (system : Scheduled (State τ ρ) (Act τ ρ)).Reach HarmlessRelease s) :
    SlotLifetime s := by
  have hi := inv_of_reachable h.reachable
  have he := excl_of_reach h
  refine fun c => ⟨(hi.calls c).frees_le_one, fun a s' hs => ⟨hi.deallocation (trans_of_step hs),
    fun ha => ?_⟩⟩
  exact he.live_of_raftOn hi (trans_of_step hs) ha

/-- Call 0 is abandoned, answered and collected, up to the end of the scope of
`slot_lock`. -/
def orphanRun : List (Act (Fin 2) (Fin 2)) :=
  sendRun 0 0 .barrier none ++ abandonRun 0 ++ takeRun 0 ++ replyRun 0 7 ++ collectRun 0

theorem slot_lifetime_of_collected_orphan :
    ∃ s : State (Fin 2) (Fin 2), (s.calls 0).frees = 1 ∧ s.gc = .check ∧ SlotLifetime s := by
  have hinit : (system : Scheduled (State (Fin 2) (Fin 2)) _).Reach HarmlessRelease initial :=
    .init
  obtain ⟨s, hs, hf, hg⟩ := hinit.exists_of_run (orphanRun ++ [Act.gcStep]) (by decide +kernel)
    (fun s => (s.calls 0).frees = 1 ∧ s.gc = .check) (by decide +kernel)
  exact ⟨s, hf, hg, slot_lifetime_of_harmless_release hs⟩

/-- The same, and then call 1 gets the node and is abandoned, and the Raft side
locks it. -/
def reuseRun : List (Act (Fin 2) (Fin 2)) :=
  orphanRun ++ sendRun 1 0 .barrier none ++ abandonRun 1 ++ takeRun 1

/-- The Raft side stores the final state of call 1. The collector unlocks the
mutex through its pointer to call 0, finds call 1 unlocked and terminal, and
deallocates it. -/
def staleUnlockRun : List (Act (Fin 2) (Fin 2)) :=
  [.call 1 (.raftReply (some 8) .success), .call 1 (.raft none), .call 1 (.raft none),
    .call 1 (.raft none), .gcStep, .gcCheck false, .gcTake, .gcStep, .gcStep,
    .call 1 .disposeStep, .dispose 1, .dispose 1]

/-- The Raft side is in the middle of its reply when its slot is deallocated. -/
theorem reply_to_deallocated_slot :
    ¬ ∀ s : State (Fin 2) (Fin 2), system.Reachable s → SlotLifetime s := by
  intro hall
  obtain ⟨s, hs, hpool, hstep⟩ := Scheduled.exists_reachable_of_run system
    (reuseRun ++ staleUnlockRun)
    (fun s => s.pool (s.calls 1).addr ≠ some 1 ∧ (step s (.call 1 (.raft none))).isSome = true)
    (by decide +kernel)
  obtain ⟨s', hs'⟩ := Option.isSome_iff_exists.mp hstep
  exact hpool (((hall s hs 1).2 _ s' hs').2 rfl)

end Lifetime

/-- The call whose slot a thread reads or writes in the step. -/
def State.touches (s : State τ ρ) : Act τ ρ → Option ℕ
  | .enqueue c => some c
  | .call _ (.wake _) => none
  | .call c _ => some c
  | .dispose c =>
      -- `stats->call_free.inc()` is the only statement of `dispose` without the slot
      match (s.calls c).life with
      | .disposing _ .count => none
      | _ => some c
  | .gcStep =>
      match s.gc with
      | .attempt c _ .tryLock | .attempt c _ .test | .attempt c _ (.release true _) => some c
      | _ => none
  | _ => none

/-- The slot mutex which is unlocked in the step, and by whom. -/
def State.unlocks (s : State τ ρ) : Act τ ρ → Option (ℕ × Actor τ)
  | .call c (.use t) =>
      match (s.calls c).uses t with
      | .waiting _ .unlock | .polling _ (.unlock _) => some (c, .client t)
      -- `ret_cond.wait` gives the mutex up when the call is not terminal
      | .waiting _ .test => if isTerminal (s.slot c).state then none else some (c, .client t)
      | _ => none
  | .call c .raftUnlock => some (c, .raft c)
  | .gcStep =>
      match s.gc with
      | .attempt c _ (.release true _) => some (c, .gc)
      | _ => none
  | _ => none

/-- A touched slot has not been given back, and a mutex is unlocked by the thread
which locked it, in the incarnation of the slot in which it was locked. -/
def SlotSafe (s : State τ ρ) (a : Act τ ρ) (_ : State τ ρ) : Prop :=
  (∀ c, s.touches a = some c → s.pool (s.calls c).addr = some c) ∧
    ∀ c x, s.unlocks a = some (c, x) →
      s.pool (s.calls c).addr = some c ∧ (s.slot c).owned = some x

section Reuse
variable [DecidableEq τ] [DecidableEq ρ] {s s' : State τ ρ} {a : Act τ ρ}

omit [DecidableEq τ] in
/-- The late unlock touches a slot which has been given back. -/
theorem Inv.lateRelease_eq_none (h : Inv s) (hs : SlotSafe s a s') : s.lateRelease a = none := by
  by_contra hne
  obtain ⟨c, hc⟩ := Option.ne_none_iff_exists'.mp hne
  obtain ⟨rfl, entry, hg⟩ := attempt_of_lateRelease hc
  have hpool := hs.1 c (by simp [State.touches, hg])
  have hgone : (s.calls c).life = .gone := ((h.gc.attempt c entry _ hg).1 rfl).2
  have hlive := ((h.pool _ c).mp hpool).1
  simp [hgone, Life.live] at hlive

/-- Except for the late unlock, the slots touched have not been given back. -/
theorem Excl.pool_of_touches (h : Excl s) (hi : Inv s) (ht : Trans s a s')
    (hn : s.lateRelease a = none) {c : ℕ} (hc : s.touches a = some c) :
    s.pool (s.calls c).addr = some c := by
  refine (hi.pool _ c).mpr ⟨?_, rfl⟩
  have horphan {d : ℕ} (hl : (s.calls d).life = .orphaned) (hd : some d = some c) :
      (s.calls c).life.live = true := by
    cases hd
    simp [hl, Life.live]
  cases ht with
  | enqueue hl hq =>
      cases hc
      simp [hl, Life.live]
  | @call d a call slot ht hr =>
      rcases h.live_of_call hi ht hr with hl | ⟨t, rfl⟩
      · have hd : d = c := by
          unfold State.touches at hc
          split at hc <;> simp_all
        exact hd ▸ hl
      · simp [State.touches] at hc
  | track hl ho | trackClosed hl ho =>
      simp only [State.touches, hl, Option.some.injEq] at hc
      simp [← hc, hl, Life.live]
  | cleanup hl | deallocate hl =>
      simp only [State.touches, hl, Option.some.injEq] at hc
      simp [← hc, hl, Life.live]
  | count hl => simp [State.touches, hl] at hc
  | @tryLock d entry hg ho | @tryFail d entry hg ho =>
      exact horphan (hi.gc.attempt d entry .tryLock hg) (by simpa [State.touches, hg] using hc)
  | @testDone d entry hg hterm | @testPending d entry hg hterm =>
      exact horphan (hi.gc.attempt d entry .test hg) (by simpa [State.touches, hg] using hc)
  | @release d entry locked disposed hg =>
      cases locked with
      | false => simp [State.touches, hg] at hc
      | true =>
          cases disposed with
          | true => simp [State.lateRelease, hg] at hn
          | false =>
              exact horphan ((hi.gc.attempt d entry _ hg).2 rfl)
                (by simpa [State.touches, hg] using hc)
  | disposed hg hl => simp [State.touches, hg] at hc
  | scan hg hb | scanEnd hg hb => simp [State.touches, hg] at hc
  | _ => simp [State.touches] at hc

/-- Except for the late unlock, a thread unlocks from inside. -/
theorem inside_of_unlocks (ht : Trans s a s') (hn : s.lateRelease a = none) {c : ℕ} {x : Actor τ}
    (hc : s.unlocks a = some (c, x)) : (s.calls c).inside c (s.gcInside c) x = true := by
  unfold State.unlocks at hc
  split at hc
  case h_1 d t =>
      split at hc
      case h_1 hu | h_2 hu =>
          cases hc
          simp [Call.inside, hu, Use.holds]
      case h_3 hu =>
          split at hc <;> cases hc
          simp [Call.inside, hu, Use.holds]
      case h_4 => cases hc
  case h_2 d =>
      cases hc
      cases ht with
      | call ht hr =>
          cases ht with
          | raftUnlock hraft =>
              rcases hraft with hraft | hraft <;> simp [Call.inside, hraft, Raft.holds]
  case h_3 =>
      split at hc
      case h_1 d entry disposed hg =>
          cases hc
          cases disposed with
          | true => simp [State.lateRelease, hg] at hn
          | false => simp [Call.inside, gcInside_of_attempt hg, Attempt.holds]
      case h_2 => cases hc
  case h_4 => cases hc

omit [DecidableEq τ] [DecidableEq ρ] in
theorem touches_of_unlocks {c : ℕ} {x : Actor τ} (hc : s.unlocks a = some (c, x)) :
    s.touches a = some c := by
  unfold State.unlocks at hc
  split at hc
  · split at hc <;> simp_all [State.touches]
  · simp_all [State.touches]
  · split at hc <;> simp_all [State.touches]
  · cases hc

/-- In every schedule, no slot is touched after it was given back and no mutex is
unlocked for another incarnation, if and only if the collector never comes to
the end of the scope of `slot_lock` behind a successful `dispose`. -/
theorem no_touch_after_deallocation_iff (sched : List (Act τ ρ)) :
    system.Along SlotSafe initial sched ↔
      system.Along (fun s a _ => s.lateRelease a = none) initial sched := by
  constructor
  · refine Scheduled.Along.imp_of_invariant (I := Inv) (fun s a s' hi ht hs => ?_) inv_initial
    exact ⟨hi.trans (trans_of_step ht), hi.lateRelease_eq_none hs⟩
  · refine Scheduled.Along.imp_of_invariant (I := fun s => Inv s ∧ Excl s)
      (fun s a s' ⟨hi, he⟩ ht hn => ?_) ⟨inv_initial, excl_initial⟩
    have htr := trans_of_step ht
    have hharm : HarmlessRelease s a s' := by simp [HarmlessRelease, hn]
    refine ⟨⟨hi.trans htr, he.trans hi htr hharm⟩,
      fun c hc => he.pool_of_touches hi htr hn hc, fun c x hc => ?_⟩
    have hpool := he.pool_of_touches hi htr hn (touches_of_unlocks hc)
    have hheld := he.held c ((hi.pool _ c).mp hpool).1
    exact ⟨hpool, (hheld x).mpr (inside_of_unlocks htr hn hc)⟩

/-- Call 0 has been deallocated and call 1 has its node, with its mutex held by
the Raft side: the collector unlocks it. -/
theorem stale_unlock_of_reused_slot :
    ∃ s s' : State (Fin 2) (Fin 2), system.Reachable s ∧ step s .gcStep = some s' ∧
      ¬ SlotSafe s .gcStep s' ∧ (s.calls 0).frees = 1 ∧ s.pool (s.calls 0).addr = some 1 ∧
      (s.slot 1).owned = some (.raft 1) ∧ (s'.slot 1).owned = none := by
  obtain ⟨s, hs, htouch, hfrees, hpool, howned, hstep⟩ :=
    Scheduled.exists_reachable_of_run system reuseRun
      (fun s => s.touches .gcStep = some 0 ∧ (s.calls 0).frees = 1 ∧
        s.pool (s.calls 0).addr = some 1 ∧ (s.slot 1).owned = some (.raft 1) ∧
        (step s .gcStep).any (fun s' => (s'.slot 1).owned.isNone) = true) (by decide +kernel)
  obtain ⟨s', hs', hnone⟩ := (Option.any_eq_true _ _).mp hstep
  refine ⟨s, s', hs, hs', fun hsafe => ?_, hfrees, hpool, howned, by simpa using hnone⟩
  have hown := hsafe.1 0 htouch
  simp [hpool] at hown

end Reuse

end Libraft.Pool
