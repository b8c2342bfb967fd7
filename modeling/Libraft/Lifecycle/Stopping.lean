import Libraft.Foundation.Progress
import Libraft.Lifecycle.Cycles

/-!
# `raft_cleanup` comes to an end

As soon as `raft_cleanup` has closed `fsm_queue` and the client does nothing
else, every step of a thread brings the library closer to its end: no schedule
is longer than what `State.remaining` says. A schedule which cannot be continued
has ended with the return of `raft_cleanup`, or it hangs in a `join`: in that of
the watcher if nobody has called `raft_shutdown`, in that of the FSM worker if
the worker has gone to sleep after the queue was closed.

## Implementation notes

The FSM worker may still take a request from its queue. A callback of the client
returns without another call of `raft_fsm_take_snapshot`, nobody wakes up the
FSM worker any more, and `poll_until` does not run into its deadline. After
`raft_shutdown` the Raft process exits, and only then does the watcher return.
-/

namespace Libraft.Lifecycle

open Libraft.Foundation

/-- The statements of `raft_cleanup` after `fsm_queue.close()`. -/
def Main.stopping : Main → Bool
  | .fsmJoin | .snapshotClose | .snapshotJoin | .apiClose | .orphanClose | .gcJoin
  | .watcherJoin | .unmap => true
  | .idle | .snapshotReset | .shmInit | .orphanReset | .startWatcher | .startGc | .startFsmWorker
  | .waitForRaft | .running | .fsmClose | .aborted => false

/-- The steps which the threads take while the client does nothing. -/
def Act.finishing : Act → Bool
  | .main | .beginSnapshot _ | .fsmCall | .fsmSleep | .endSnapshot | .fsmWorker | .snapshotWorker
  | .gc | .gcTried _ | .gcCheck _ | .watcher => true
  | .init | .cleanup | .shutdown | .dispose _ | .fsmWake | .takeSnapshot | .gcTimeout => false

section Remaining

/-- The statements of `raft_cleanup` which are left. -/
def Main.remaining : Main → ℕ
  | .fsmJoin => 8
  | .snapshotClose => 7
  | .snapshotJoin => 6
  | .apiClose => 5
  | .orphanClose => 4
  | .gcJoin => 3
  | .watcherJoin => 2
  | .unmap => 1
  | _ => 0

/-- What is left to do for the FSM worker once its queue is closed. -/
def FsmWorker.remaining : FsmWorker → ℕ
  | .exited | .asleep => 0
  | .loop | .woken => 1
  | .callback _ => 2
  | .take => 3
  | .emplace _ => 5
  | .test _ => 6

/-- A worker which has not been started may still be. -/
def SnapshotWorker.remaining : Option SnapshotWorker → ℕ
  | some .exited => 0
  | none | some .loop => 1
  | some (.job _) => 2

def Watcher.remaining : Option Watcher → ℕ
  | some .running => 1
  | none | some .exited => 0

/-- What it takes to go through `n` orphans with at most `w` entries in the backlog. -/
def drain (n w : ℕ) : ℕ := n * (2 * w + 6) + 1

/-- What is left to do for the collector with `n` orphans and `b` entries in the backlog. -/
def Gc.remaining (n b : ℕ) : Gc → ℕ
  | .exited => 0
  | .start => drain n (n + b) + 1
  | .loop => drain n (n + b)
  | .scan i => 2 * (b - i) + 1 + drain n (n + b)
  | .attempt _ (some i) => 2 * (b - (i + 1)) + 2 + drain n (n + b)
  | .check => 2 * b + 2 + drain n (n + b)
  | .attempt _ none => 2 * (b + 1) + 3 + drain n (n + (b + 1))

/-- A bound on the number of steps until `raft_cleanup` has returned. -/
def State.remaining (s : State) : ℕ :=
  2 * s.main.remaining + (s.fsmWorker.map FsmWorker.remaining).getD 0 +
    (2 * s.snapshotQueue.contents.length + SnapshotWorker.remaining s.snapshotWorker) +
    (s.gc.map (Gc.remaining s.orphanedCalls.contents.length s.orphanBacklog.length)).getD 0 +
    Watcher.remaining s.watcher

theorem drain_mono (n : ℕ) {w w' : ℕ} (h : w ≤ w') : drain n w ≤ drain n w' :=
  Nat.add_le_add_right (Nat.mul_le_mul_left n (by omega)) 1

theorem drain_succ (n w : ℕ) : drain (n + 1) w = drain n w + (2 * w + 6) := by
  simp only [drain, Nat.add_mul, Nat.one_mul]
  omega

variable {s s' : State}

theorem remaining_of_mainTrans (ht : MainTrans s s') (hm : s.main.stopping = true) :
    s'.remaining < s.remaining := by
  cases ht with
  | snapshotReset h | shmInit h | orphanReset h | startWatcher h | startGc h | startFsmWorker h
  | waitForRaft h | fsmClose h => simp [h, Main.stopping] at hm
  | snapshotJoin h =>
      have hone : SnapshotWorker.remaining none = 1 := rfl
      simp only [State.remaining, State.goto, h, Main.remaining, hone]
      omega
  | fsmJoin h | snapshotClose h | apiClose h | orphanClose h | gcJoin h | watcherJoin h
  | unmap h =>
      simp only [State.remaining, State.goto, h, Main.remaining, Deque.close, Option.map_none,
        Option.getD_none, Watcher.remaining]
      omega

/-- The FSM worker goes on to a position from which less is left to do. -/
theorem remaining_of_fsmGoto {w w' : FsmWorker} (hw : s.fsmWorker = some w)
    (hlt : w'.remaining < w.remaining) :
    State.remaining { s with fsmWorker := some w' } < s.remaining := by
  simp only [State.remaining, hw, Option.map_some, Option.getD_some]
  omega

theorem remaining_of_fsmWorkerStep (hc : s.fsmClosed = true) (hs : fsmWorkerStep s = some s') :
    s'.remaining < s.remaining := by
  unfold fsmWorkerStep at hs
  split at hs
  case h_1 hw | h_2 hw =>
      cases hs
      exact remaining_of_fsmGoto hw (by simp [hc, FsmWorker.remaining])
  case h_3 slot hw =>
      cases hs
      have hstart : SnapshotWorker.remaining
          (if s.snapshotWorker.isSome then s.snapshotWorker else some .loop) =
            SnapshotWorker.remaining s.snapshotWorker := by
        cases s.snapshotWorker <;> rfl
      simp only [State.remaining, hw, hstart, Option.map_some, Option.getD_some,
        FsmWorker.remaining]
      omega
  case h_4 slot hw =>
      split at hs
      case h_1 q hq =>
          cases hs
          have hlen : q.contents.length = s.snapshotQueue.contents.length + 1 := by
            unfold Deque.put at hq
            split at hq <;> cases hq
            simp
          simp only [State.remaining, hw, hlen, Option.map_some, Option.getD_some,
            FsmWorker.remaining]
          omega
      case h_2 =>
          cases hs
          exact remaining_of_fsmGoto hw (by simp [FsmWorker.remaining])
  case h_5 | h_6 | h_7 | h_8 | h_9 => cases hs

theorem length_of_take {q q' : Deque} {slot : SlotPtr} (h : q.take = .value slot q') :
    q.contents.length = q'.contents.length + 1 := by
  unfold Deque.take at h
  split at h
  · cases h
  · split at h
    · cases h
    · rename_i hc
      cases h
      simp [hc]

theorem remaining_of_snapshotWorkerStep (hs : snapshotWorkerStep s = some s') :
    s'.remaining < s.remaining := by
  unfold snapshotWorkerStep at hs
  split at hs
  case h_1 hw =>
      split at hs
      case h_1 =>
          cases hs
          simp only [State.remaining, hw, SnapshotWorker.remaining]
          omega
      case h_2 => cases hs
      case h_3 slot q hq =>
          cases hs
          have hlen := length_of_take hq
          simp only [State.remaining, hw, hlen, SnapshotWorker.remaining]
          omega
  case h_2 slot hw =>
      cases hs
      simp only [State.remaining, hw, SnapshotWorker.remaining]
      omega
  case h_3 | h_4 => cases hs

theorem remaining_of_gcStep (hs : gcStep s = some s') : s'.remaining < s.remaining := by
  unfold gcStep at hs
  split at hs
  case h_1 hg =>
      cases hs
      have hle := drain_mono s.orphanedCalls.contents.length
        (Nat.le_add_right s.orphanedCalls.contents.length s.orphanBacklog.length)
      simp only [State.remaining, hg, Option.map_some, Option.getD_some, Gc.remaining,
        List.length_nil, Nat.add_zero]
      omega
  case h_2 hg =>
      split at hs
      case h_1 =>
          cases hs
          simp only [State.remaining, hg, Option.map_some, Option.getD_some, Gc.remaining, drain]
          omega
      case h_2 => cases hs
      case h_3 slot q hq =>
          cases hs
          have hlen := length_of_take hq
          simp only [State.remaining, hg, hlen, Option.map_some, Option.getD_some, Gc.remaining,
            drain_succ, Nat.add_assoc, Nat.add_comm 1]
          omega
  case h_3 i hg =>
      cases hs
      cases hb : s.orphanBacklog[i]? with
      | none =>
          simp only [State.remaining, hg, Option.map_some, Option.getD_some, Gc.remaining]
          omega
      | some slot =>
          have hlt := (List.getElem?_eq_some_iff.mp hb).1
          simp only [State.remaining, hg, Option.map_some, Option.getD_some, Gc.remaining]
          omega
  case h_4 | h_5 | h_6 | h_7 => cases hs

theorem remaining_of_tried {slot : SlotPtr} {entry : Option ℕ}
    (hg : s.gc = some (.attempt slot entry)) (disposed : Bool) :
    (s.tried slot disposed entry).remaining < s.remaining := by
  cases entry with
  | none =>
      cases disposed with
      | false =>
          simp only [State.tried, State.remaining, hg, Option.map_some, Option.getD_some,
            Gc.remaining, Bool.false_eq_true, if_false, List.length_append, List.length_singleton]
          omega
      | true =>
          have hle := drain_mono s.orphanedCalls.contents.length
            (Nat.le_add_right (s.orphanedCalls.contents.length + s.orphanBacklog.length) 1)
          simp only [State.tried, State.remaining, hg, Option.map_some, Option.getD_some,
            Gc.remaining, if_true, ← Nat.add_assoc]
          omega
  | some i =>
      cases disposed with
      | false =>
          simp only [State.tried, State.remaining, hg, Option.map_some, Option.getD_some,
            Gc.remaining, Bool.false_eq_true, if_false]
          omega
      | true =>
          have hle := drain_mono s.orphanedCalls.contents.length (Nat.add_le_add_left
            (List.length_eraseIdx_le s.orphanBacklog i) s.orphanedCalls.contents.length)
          have hlen := List.length_eraseIdx (l := s.orphanBacklog) (i := i)
          simp only [State.tried, State.remaining, hg, Option.map_some, Option.getD_some,
            Gc.remaining, if_true]
          split at hlen <;> omega

end Remaining

/-- A queue is closed before `raft_cleanup` joins the thread which takes from it. -/
structure Closed (s : State) : Prop where
  fsm : s.main = .fsmJoin → s.fsmClosed = true
  snapshots : s.main = .snapshotJoin → s.snapshotQueue.closed = true
  orphans : s.main = .gcJoin → s.orphanedCalls.closed = true

section Closed
variable {s s' : State}

theorem Deque.closed_put {q q' : Deque} {slot : SlotPtr} (h : q.put slot = some q') :
    q'.closed = q.closed := by
  unfold Deque.put at h
  split at h <;> cases h
  rfl

theorem Deque.closed_take {q q' : Deque} {slot : SlotPtr} (h : q.take = .value slot q') :
    q'.closed = q.closed := by
  unfold Deque.take at h
  split at h
  · cases h
  · split at h <;> cases h
    rfl

/-- Only `raft_init` and `raft_cleanup` open and close the queues. -/
theorem closed_of_step {a : Act} (hs : step s a = some s') (ha : a ≠ .main) :
    s'.fsmClosed = s.fsmClosed ∧ s'.snapshotQueue.closed = s.snapshotQueue.closed ∧
      s'.orphanedCalls.closed = s.orphanedCalls.closed ∧
      (s'.main = s.main ∨ a = .init ∧ s'.main = .snapshotReset ∨
        a = .cleanup ∧ s'.main = .fsmClose) := by
  cases a with
  | main => exact absurd rfl ha
  | dispose slot =>
      simp only [step] at hs
      split at hs <;> cases hs
      · exact ⟨rfl, rfl, Deque.closed_put ‹_›, .inl rfl⟩
      · exact ⟨rfl, rfl, rfl, .inl rfl⟩
  | fsmWorker =>
      simp only [step, fsmWorkerStep] at hs
      split at hs
      case h_4 =>
          split at hs <;> cases hs
          · exact ⟨rfl, Deque.closed_put ‹_›, rfl, .inl rfl⟩
          · exact ⟨rfl, rfl, rfl, .inl rfl⟩
      all_goals cases hs
      all_goals exact ⟨rfl, rfl, rfl, .inl rfl⟩
  | snapshotWorker =>
      simp only [step, snapshotWorkerStep] at hs
      split at hs
      case h_1 =>
          split at hs <;> cases hs
          · exact ⟨rfl, rfl, rfl, .inl rfl⟩
          · exact ⟨rfl, Deque.closed_take ‹_›, rfl, .inl rfl⟩
      all_goals cases hs
      all_goals exact ⟨rfl, rfl, rfl, .inl rfl⟩
  | gc =>
      simp only [step, gcStep] at hs
      split at hs
      case h_2 =>
          split at hs <;> cases hs
          · exact ⟨rfl, rfl, rfl, .inl rfl⟩
          · exact ⟨rfl, rfl, Deque.closed_take ‹_›, .inl rfl⟩
      all_goals cases hs
      all_goals exact ⟨rfl, rfl, rfl, .inl rfl⟩
  | gcTried disposed =>
      simp only [step] at hs
      split at hs <;> cases hs
      rename_i slot entry hg
      cases entry <;> cases disposed <;> exact ⟨rfl, rfl, rfl, .inl rfl⟩
  | init =>
      simp only [step] at hs
      split at hs <;> cases hs
      exact ⟨rfl, rfl, rfl, .inr (.inl ⟨rfl, rfl⟩)⟩
  | cleanup =>
      simp only [step] at hs
      split at hs <;> cases hs
      exact ⟨rfl, rfl, rfl, .inr (.inr ⟨rfl, rfl⟩)⟩
  | shutdown | beginSnapshot _ | fsmCall | fsmSleep | fsmWake | takeSnapshot | endSnapshot
  | gcTimeout | gcCheck _ | watcher =>
      simp only [step] at hs
      split at hs <;> cases hs
      exact ⟨rfl, rfl, rfl, .inl rfl⟩

theorem Closed.step (h : Closed s) (hh : Handles s) {a : Act} (hs : step s a = some s') :
    Closed s' := by
  by_cases ha : a = .main
  · subst ha
    cases hh.mainTrans hs <;> constructor <;> simp [Deque.close]
  · obtain ⟨hf, hq, ho, hm⟩ := closed_of_step hs ha
    refine ⟨?_, ?_, ?_⟩ <;> intro hm'
    · rw [hf]
      exact h.fsm (by rcases hm with hm | hm | hm <;> simp_all)
    · rw [hq]
      exact h.snapshots (by rcases hm with hm | hm | hm <;> simp_all)
    · rw [ho]
      exact h.orphans (by rcases hm with hm | hm | hm <;> simp_all)

theorem closed_of_reach (h : system.Reach FuturesInCycle s) : Closed s := by
  refine h.invariant (I := Closed) ⟨by simp [system, initial], by simp [system, initial],
    by simp [system, initial]⟩ fun s a s' hs hc hstep _ => ?_
  exact hc.step (inv_of_reach hs).handles hstep

end Closed

section Decreasing
variable {s s' : State}

/-- While `raft_cleanup` has not joined the FSM worker, `fsm_queue` is closed. -/
theorem Closed.fsm_of_fsmWorker (h : Closed s) (hh : Handles s) (hm : s.main.stopping = true)
    {w : FsmWorker} (hw : s.fsmWorker = some w) : s.fsmClosed = true := by
  have hstart : s.main.fsmStarted = true := by rw [← hh.fsmWorker, hw]; rfl
  refine h.fsm ?_
  cases hmain : s.main <;> simp_all [Main.stopping]

/-- Every step which a thread takes on its own brings the end closer. -/
theorem remaining_of_step (h : Handles s) (hcl : Closed s) (hm : s.main.stopping = true) {a : Act}
    (ha : a.finishing = true) (hs : step s a = some s') : s'.remaining < s.remaining := by
  cases a with
  | main => exact remaining_of_mainTrans (h.mainTrans hs) hm
  | fsmWorker =>
      have hw : ∃ w, s.fsmWorker = some w := by
        refine Option.ne_none_iff_exists'.mp fun hnone => ?_
        simp [step, fsmWorkerStep, hnone] at hs
      obtain ⟨w, hw⟩ := hw
      exact remaining_of_fsmWorkerStep (hcl.fsm_of_fsmWorker h hm hw) hs
  | snapshotWorker => exact remaining_of_snapshotWorkerStep hs
  | gc => exact remaining_of_gcStep hs
  | beginSnapshot offset =>
      simp only [step] at hs
      split at hs <;> cases hs
      rename_i hw _
      exact remaining_of_fsmGoto hw (by simp [FsmWorker.remaining])
  | fsmCall | fsmSleep | endSnapshot =>
      simp only [step] at hs
      split at hs <;> cases hs
      exact remaining_of_fsmGoto ‹_› (by simp [FsmWorker.remaining])
  | gcTried disposed =>
      simp only [step] at hs
      split at hs <;> cases hs
      exact remaining_of_tried ‹_› disposed
  | gcCheck scan =>
      simp only [step] at hs
      split at hs <;> cases hs
      rename_i hg
      split <;>
        simp only [State.remaining, hg, Option.map_some, Option.getD_some, Gc.remaining] <;> omega
  | watcher =>
      simp only [step] at hs
      split at hs <;> cases hs
      rename_i hw
      simp only [State.remaining, hw.1, Watcher.remaining]
      omega
  | init | cleanup | shutdown | dispose _ | fsmWake | takeSnapshot | gcTimeout => cases ha

end Decreasing

section Stuck
variable {s s' : State}

/-- No thread can take a step on its own. -/
def State.Stuck (s : State) : Prop := ∀ a, a.finishing = true → step s a = none

theorem State.Stuck.not_enabled (h : s.Stuck) {a : Act} (ha : a.finishing = true) :
    ¬ (step s a).isSome = true := by
  simp [h a ha]

theorem asleep_of_stuck (h : s.Stuck) (hm : s.main = .fsmJoin)
    (hw : s.fsmWorker.isSome = true) : s.fsmWorker = some .asleep := by
  have hmain := h.not_enabled (a := .main) rfl
  have hfsm := h.not_enabled (a := .fsmWorker) rfl
  have hend := h.not_enabled (a := .endSnapshot) rfl
  have hsleep := h.not_enabled (a := .fsmSleep) rfl
  obtain ⟨w, hw⟩ := Option.isSome_iff_exists.mp hw
  cases w with
  | asleep => exact hw
  | exited => simp [step, mainStep, hm, hw] at hmain
  | take => simp [step, hw] at hsleep
  | loop | woken | test slot => simp [step, fsmWorkerStep, hw] at hfsm
  | callback slot => simp [step, hw] at hend
  | emplace slot =>
      simp only [step, fsmWorkerStep, hw] at hfsm
      split at hfsm <;> simp at hfsm

theorem not_stuck_of_snapshotWorker (hm : s.main = .snapshotJoin)
    (hc : s.snapshotQueue.closed = true) : ¬ s.Stuck := by
  intro h
  have hmain := h.not_enabled (a := .main) rfl
  have hsnap := h.not_enabled (a := .snapshotWorker) rfl
  cases hw : s.snapshotWorker with
  | none => simp [step, mainStep, hm, hw] at hmain
  | some w =>
      cases w with
      | exited => simp [step, mainStep, hm, hw] at hmain
      | loop | job slot => simp [step, snapshotWorkerStep, hw, Deque.take, hc] at hsnap

theorem not_stuck_of_gc (hm : s.main = .gcJoin) (hc : s.orphanedCalls.closed = true)
    (hg : s.gc.isSome = true) : ¬ s.Stuck := by
  intro h
  have hmain := h.not_enabled (a := .main) rfl
  have hgc := h.not_enabled (a := .gc) rfl
  have htried := h.not_enabled (a := .gcTried true) rfl
  have hcheck := h.not_enabled (a := .gcCheck false) rfl
  obtain ⟨gc, hg⟩ := Option.isSome_iff_exists.mp hg
  cases gc with
  | exited => simp [step, mainStep, hm, hg] at hmain
  | start | loop | scan i => simp [step, gcStep, hg, Deque.take, hc] at hgc
  | attempt slot entry => simp [step, hg] at htried
  | check => simp [step, hg] at hcheck

/-- If nobody can go on, the FSM worker sleeps, or the watcher has not been told to end. -/
theorem waiting_of_stuck (hI : Inv s) (hc : Closed s) (hm : s.main.stopping = true)
    (h : s.Stuck) :
    s.main = .fsmJoin ∧ s.fsmWorker = some .asleep ∨
      s.main = .watcherJoin ∧ s.watcher = some .running ∧ s.shutdownRequested = false := by
  have hmain := h.not_enabled (a := .main) rfl
  cases hmain' : s.main with
  | fsmJoin =>
      exact .inl ⟨rfl, asleep_of_stuck h hmain' (by simp [hI.handles.fsmWorker, hmain'])⟩
  | snapshotJoin => exact absurd h (not_stuck_of_snapshotWorker hmain' (hc.snapshots hmain'))
  | gcJoin =>
      exact absurd h (not_stuck_of_gc hmain' (hc.orphans hmain') (by simp [hI.handles.gc, hmain']))
  | watcherJoin =>
      have hwatch := h.not_enabled (a := .watcher) rfl
      have hsome : s.watcher.isSome = true := by simp [hI.handles.watcher, hmain']
      obtain ⟨w, hw⟩ := Option.isSome_iff_exists.mp hsome
      cases w with
      | exited => simp [step, mainStep, hmain', hw] at hmain
      | running => exact .inr ⟨rfl, hw, by simpa [step, hw] using hwatch⟩
  | snapshotClose | apiClose | orphanClose | unmap =>
      simp [step, mainStep, hmain'] at hmain
  | _ => simp [hmain', Main.stopping] at hm

/-- When `raft_cleanup` has returned, there are no threads left. -/
theorem stuck_of_idle (hI : Handles s) (hm : s.main = .idle) : s.Stuck := by
  have hf : s.fsmWorker = none := by simpa [hm] using hI.fsmWorker
  have hg : s.gc = none := by simpa [hm] using hI.gc
  have hw : s.watcher = none := by simpa [hm] using hI.watcher
  have hs : s.snapshotWorker = none := by
    by_contra hne
    simpa [hm] using hI.snapshotWorker (Option.isSome_iff_ne_none.mpr hne)
  intro a ha
  cases a <;> simp_all [Act.finishing, step, mainStep, fsmWorkerStep, snapshotWorkerStep, gcStep]

end Stuck

section Ending
variable {s s' t : State}

theorem Main.stopping_of_mainTrans (ht : MainTrans s s') (hm : s.main.stopping = true) :
    s'.main.stopping = true ∨ s'.main = .idle := by
  cases ht with
  | unmap h => exact .inr rfl
  | fsmJoin h | snapshotClose h | snapshotJoin h | apiClose h | orphanClose h | gcJoin h
  | watcherJoin h => exact .inl rfl
  | _ h => simp [h, Main.stopping] at hm

/-- The watcher ends when a shutdown was requested, and `raft_cleanup` waits for it. -/
theorem watcher_of_step (hm : s.main.stopping = true) {a : Act} (ha : a.finishing = true)
    (hs : step s a = some s') :
    s'.shutdownRequested = s.shutdownRequested ∧
      (s.watcher ≠ some .running → s'.watcher ≠ some .running) ∧
      (s.shutdownRequested = false → s.watcher = some .running → s'.watcher = some .running) := by
  cases a with
  | main =>
      simp only [step, mainStep] at hs
      split at hs <;> (try split at hs) <;> cases hs <;> simp_all [Main.stopping]
  | fsmWorker =>
      simp only [step, fsmWorkerStep] at hs
      split at hs <;> (try split at hs) <;> cases hs <;> exact ⟨rfl, id, fun _ => id⟩
  | snapshotWorker =>
      simp only [step, snapshotWorkerStep] at hs
      split at hs <;> (try split at hs) <;> cases hs <;> exact ⟨rfl, id, fun _ => id⟩
  | gc =>
      simp only [step, gcStep] at hs
      split at hs <;> (try split at hs) <;> cases hs <;> exact ⟨rfl, id, fun _ => id⟩
  | gcTried disposed =>
      simp only [step] at hs
      split at hs <;> cases hs
      rename_i slot entry hg
      cases entry <;> cases disposed <;> exact ⟨rfl, id, fun _ => id⟩
  | beginSnapshot _ | fsmCall | fsmSleep | endSnapshot | gcCheck _ =>
      simp only [step] at hs
      split at hs <;> cases hs
      exact ⟨rfl, id, fun _ => id⟩
  | watcher =>
      simp only [step] at hs
      split at hs <;> cases hs
      rename_i hw
      simp [hw.2]
  | init | cleanup | shutdown | dispose _ | fsmWake | takeSnapshot | gcTimeout => cases ha

/-- The FSM worker sleeps for ever once it has gone to sleep. -/
theorem asleep_of_step (hm : s.main.stopping = true) {a : Act} (ha : a.finishing = true)
    (hs : step s a = some s') :
    s'.fsmWorker = some .asleep ↔ s.fsmWorker = some .asleep ∨ a = .fsmSleep := by
  cases a with
  | main =>
      simp only [step, mainStep] at hs
      split at hs <;> (try split at hs) <;> cases hs <;> simp_all [Main.stopping]
  | fsmWorker =>
      simp only [step, fsmWorkerStep] at hs
      split at hs <;> (try split at hs) <;> cases hs <;> simp_all
  | snapshotWorker => simp [(snapshotWorkerStep_frame hs).1]
  | gc => simp [(gcStep_frame hs).1]
  | gcTried disposed =>
      simp only [step] at hs
      split at hs <;> cases hs
      simp [(s.tried_frame _ _ _).1]
  | beginSnapshot _ | fsmCall | fsmSleep | endSnapshot | gcCheck _ | watcher =>
      simp only [step] at hs
      split at hs <;> cases hs
      simp_all
  | init | cleanup | shutdown | dispose _ | fsmWake | takeSnapshot | gcTimeout => cases ha

/-- What is known of a state `t` on the way from `s` to the end of `raft_cleanup`. -/
structure Ending (s t : State) : Prop where
  inv : Inv t
  closed : Closed t
  main : t.main.stopping = true ∨ t.main = .idle
  requested : t.shutdownRequested = s.shutdownRequested
  ended : s.watcher ≠ some .running → t.watcher ≠ some .running
  waiting : s.shutdownRequested = false → s.watcher = some .running → t.watcher = some .running

theorem Ending.stopping {u : State} (h : Ending s t) {a : Act} (ha : a.finishing = true)
    (hs : Lifecycle.step t a = some u) : t.main.stopping = true := by
  refine h.main.resolve_right fun hidle => ?_
  have hnone := stuck_of_idle h.inv.handles hidle a ha
  rw [hs] at hnone
  cases hnone

theorem Ending.step {u : State} (h : Ending s t) {a : Act} (ha : a.finishing = true)
    (hs : Lifecycle.step t a = some u) : Ending s u ∧ u.remaining < t.remaining := by
  have hm := h.stopping ha hs
  obtain ⟨hreq, hended, hwait⟩ := watcher_of_step hm ha hs
  have hfut : FuturesInCycle t a u := by
    cases a with
    | dispose slot => cases ha
    | _ => trivial
  refine ⟨⟨h.inv.step hs hfut, h.closed.step h.inv.handles hs, ?_, hreq.trans h.requested,
    fun hw => hended (h.ended hw), fun hr hw => ?_⟩,
    remaining_of_step h.inv.handles h.closed hm ha hs⟩
  · by_cases hmain : a = .main
    · subst hmain
      exact Main.stopping_of_mainTrans (h.inv.handles.mainTrans hs) hm
    · obtain ⟨-, -, -, hu | ⟨rfl, -⟩ | ⟨rfl, -⟩⟩ := closed_of_step hs hmain
      · exact .inl (hu ▸ hm)
      · cases ha
      · cases ha
  · exact hwait (h.requested.trans hr) (h.waiting hr hw)

/-- The FSM worker sleeps at the end if it has gone to sleep on the way. -/
theorem Ending.asleep {u : State} (h : Ending s t) {sched : List Act}
    (ha : ∀ a ∈ sched, a.finishing = true) (hr : system.run t sched = some u) :
    u.fsmWorker = some .asleep ↔ t.fsmWorker = some .asleep ∨ .fsmSleep ∈ sched := by
  induction sched generalizing t with
  | nil =>
      cases hr
      simp
  | cons a rest ih =>
      rw [Scheduled.run_cons] at hr
      obtain ⟨v, hv, hrest⟩ := Option.bind_eq_some_iff.mp hr
      have hfin := ha a List.mem_cons_self
      have hone := asleep_of_step (h.stopping hfin hv) hfin hv
      rw [ih (h.step hfin hv).1 (fun b hb => ha b (List.mem_cons_of_mem _ hb)) hrest, hone,
        List.mem_cons, or_assoc, eq_comm (a := a)]

end Ending

end Libraft.Lifecycle
