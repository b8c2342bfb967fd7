import Libraft.Lifecycle.System

/-!
# The library can be started and stopped again and again

What is left over at the end of a cycle, in the queues and in the backlog, is
gone before a thread of the next cycle looks at it. So every assertion about
the handles of the threads holds, and a pointer in use always leads into the
segment which is mapped.

## Implementation notes

Where the calling thread stands determines which threads exist and which of
the queues have been reset; `Main.fsmStarted` and the like say how. The threads
themselves may stand anywhere.
-/

namespace Libraft.Lifecycle

open Libraft.Foundation

/-- `fsm_worker` is joinable. -/
@[simp] def Main.fsmStarted : Main → Bool
  | .waitForRaft | .running | .fsmClose | .fsmJoin => true
  | _ => false

/-- `snapshot_worker` may be joinable. -/
@[simp] def Main.snapshotStarted : Main → Bool
  | .waitForRaft | .running | .fsmClose | .fsmJoin | .snapshotClose | .snapshotJoin => true
  | _ => false

/-- `orphan_gc_thread` is joinable. -/
@[simp] def Main.gcStarted : Main → Bool
  | .startFsmWorker | .waitForRaft | .running | .fsmClose | .fsmJoin | .snapshotClose
  | .snapshotJoin | .apiClose | .orphanClose | .gcJoin => true
  | _ => false

/-- `raft_watcher` is joinable. -/
@[simp] def Main.watcherStarted : Main → Bool
  | .startGc | .watcherJoin => true
  | main => main.gcStarted

/-- `orphaned_calls` has been reset for the mapped segment. -/
@[simp] def Main.orphansReset : Main → Bool
  | .startWatcher | .unmap => true
  | main => main.watcherStarted

/-- A segment is mapped. -/
@[simp] def Main.mapped : Main → Bool
  | .orphanReset => true
  | main => main.orphansReset

/-- `snapshot_queue` has been reset, and nobody has used it since. -/
@[simp] def Main.snapshotsUnused : Main → Bool
  | .shmInit | .orphanReset | .startWatcher | .startGc | .startFsmWorker => true
  | _ => false

/-- `snapshot_queue` has been reset and not closed. -/
@[simp] def Main.snapshotsOpen : Main → Bool
  | .snapshotClose => true
  | main => main.snapshotsUnused || main.fsmStarted

/-- `orphaned_calls` has been reset, and nobody has used it since. -/
@[simp] def Main.orphansUnused : Main → Bool
  | .startWatcher | .startGc | .startFsmWorker => true
  | _ => false

/-- There may be futures: the FSM, or the code after `raft_init`, has been able to make one. -/
@[simp] def Main.inUse : Main → Bool
  | .waitForRaft | .running | .fsmClose | .fsmJoin | .snapshotClose | .snapshotJoin | .apiClose
  | .orphanClose | .gcJoin | .watcherJoin | .unmap => true
  | _ => false

section Table
variable {m : Main}

theorem Main.snapshotStarted_of_fsmStarted (h : m.fsmStarted = true) :
    m.snapshotStarted = true ∧ m.snapshotsOpen = true := by
  cases m <;> first | exact ⟨rfl, rfl⟩ | cases h

theorem Main.mapped_of_snapshotStarted (h : m.snapshotStarted = true) :
    m.mapped = true ∧ m.snapshotsUnused = false := by
  cases m <;> first | exact ⟨rfl, rfl⟩ | cases h

theorem Main.orphansReset_of_gcStarted (h : m.gcStarted = true) : m.orphansReset = true := by
  cases m <;> first | rfl | cases h

theorem Main.orphansUnused_of_inUse (h : m.inUse = true) : m.orphansUnused = false := by
  cases m <;> first | rfl | cases h

end Table

/-- A future is used only in the cycle in which it was made. -/
def FuturesInCycle (s : State) (a : Act) (_ : State) : Prop :=
  match a with
  | .dispose slot => s.main.inUse = true ∧ s.shm = some slot.segment
  | _ => True

instance (s : State) (a : Act) (s' : State) : Decidable (FuturesInCycle s a s') := by
  unfold FuturesInCycle
  split <;> infer_instance

/-- Where the calling thread stands tells which threads exist. -/
structure Handles (s : State) : Prop where
  fsmWorker : s.fsmWorker.isSome = s.main.fsmStarted
  snapshotWorker : s.snapshotWorker.isSome = true → s.main.snapshotStarted = true
  gc : s.gc.isSome = s.main.gcStarted
  watcher : s.watcher.isSome = s.main.watcherStarted
  shm : s.shm.isSome = s.main.mapped
  sound : s.main ≠ .aborted

/-- A pointer into the mapped segment. -/
def State.Current (s : State) (slot : SlotPtr) : Prop := s.shm = some slot.segment

/-- What is in the queues. -/
structure Contents (s : State) : Prop where
  snapshotsUnused : s.main.snapshotsUnused = true → s.snapshotQueue = ⟨[], false⟩
  snapshotsOpen : s.main.snapshotsOpen = true → s.snapshotQueue.closed = false
  snapshots : s.main.mapped = true → ∀ slot ∈ s.snapshotQueue.contents, s.Current slot
  unserved : s.main.fsmStarted = true → s.snapshotWorker = none → s.snapshotQueue.contents = []
  orphansUnused : s.main.orphansUnused = true → s.orphanedCalls = ⟨[], false⟩
  orphans : s.main.orphansReset = true → ∀ slot ∈ s.orphanedCalls.contents, s.Current slot

/-- The slot which the FSM worker has in its hands. -/
def FsmWorker.slot? : FsmWorker → Option SlotPtr
  | .callback slot | .test slot | .emplace slot => some slot
  | .loop | .take | .asleep | .woken | .exited => none

@[simp] theorem FsmWorker.slot?_notified (w : FsmWorker) : w.notified.slot? = w.slot? := by
  cases w <;> rfl

@[simp] theorem FsmWorker.notified_eq_emplace {w : FsmWorker} {slot : SlotPtr} :
    w.notified = .emplace slot ↔ w = .emplace slot := by
  cases w <;> simp [FsmWorker.notified]

/-- What the threads have in their hands. -/
structure Pointers (s : State) : Prop where
  fsmWorker : ∀ w, s.fsmWorker = some w → ∀ slot, w.slot? = some slot → s.Current slot
  emplace : ∀ slot, s.fsmWorker = some (.emplace slot) → s.snapshotWorker ≠ none
  snapshotWorker : ∀ slot, s.snapshotWorker = some (.job slot) → s.Current slot
  gc : ∀ slot entry, s.gc = some (.attempt slot entry) → s.Current slot
  backlog : ∀ gc, s.gc = some gc → gc ≠ .start → ∀ slot ∈ s.orphanBacklog, s.Current slot

/-- The statements of `raft_init` and `raft_cleanup` whose assertions hold. -/
inductive MainTrans (s : State) : State → Prop
  | snapshotReset (hm : s.main = .snapshotReset) :
      MainTrans s ({ s with snapshotQueue := ⟨[], false⟩ }.goto .shmInit)
  | shmInit (hm : s.main = .shmInit) :
      MainTrans s ({ s with
        segments := s.segments + 1, shm := some (s.segments + 1)
        fsmClosed := false, shutdownRequested := false }.goto .orphanReset)
  | orphanReset (hm : s.main = .orphanReset) :
      MainTrans s ({ s with orphanedCalls := ⟨[], false⟩ }.goto .startWatcher)
  | startWatcher (hm : s.main = .startWatcher) :
      MainTrans s ({ s with watcher := some .running }.goto .startGc)
  | startGc (hm : s.main = .startGc) :
      MainTrans s ({ s with gc := some .start }.goto .startFsmWorker)
  | startFsmWorker (hm : s.main = .startFsmWorker) :
      MainTrans s ({ s with fsmWorker := some .loop }.goto .waitForRaft)
  | waitForRaft (hm : s.main = .waitForRaft) : MainTrans s (s.goto .running)
  | fsmClose (hm : s.main = .fsmClose) :
      MainTrans s ({ s with
        fsmClosed := true, fsmWorker := s.fsmWorker.map FsmWorker.notified }.goto .fsmJoin)
  | fsmJoin (hm : s.main = .fsmJoin) :
      MainTrans s ({ s with fsmWorker := none }.goto .snapshotClose)
  | snapshotClose (hm : s.main = .snapshotClose) :
      MainTrans s ({ s with snapshotQueue := s.snapshotQueue.close }.goto .snapshotJoin)
  | snapshotJoin (hm : s.main = .snapshotJoin) :
      MainTrans s ({ s with snapshotWorker := none }.goto .apiClose)
  | apiClose (hm : s.main = .apiClose) : MainTrans s (s.goto .orphanClose)
  | orphanClose (hm : s.main = .orphanClose) :
      MainTrans s ({ s with orphanedCalls := s.orphanedCalls.close }.goto .gcJoin)
  | gcJoin (hm : s.main = .gcJoin) : MainTrans s ({ s with gc := none }.goto .watcherJoin)
  | watcherJoin (hm : s.main = .watcherJoin) :
      MainTrans s ({ s with watcher := none }.goto .unmap)
  | unmap (hm : s.main = .unmap) : MainTrans s ({ s with shm := none }.goto .idle)

section Main
variable {s s' : State}

/-- No assertion of `raft_init` or `raft_cleanup` fails. -/
theorem Handles.mainTrans (h : Handles s) (hs : mainStep s = some s') : MainTrans s s' := by
  unfold mainStep at hs
  split at hs
  case h_1 hm => cases hs; exact .snapshotReset hm
  case h_2 hm => cases hs; exact .shmInit hm
  case h_3 hm => cases hs; exact .orphanReset hm
  case h_4 hm =>
      have hnone : s.watcher.isSome = false := by simp [h.watcher, hm]
      rw [hnone] at hs
      cases hs
      exact .startWatcher hm
  case h_5 hm =>
      have hnone : s.gc.isSome = false := by simp [h.gc, hm]
      rw [hnone] at hs
      cases hs
      exact .startGc hm
  case h_6 hm =>
      have hnone : s.fsmWorker.isSome = false := by simp [h.fsmWorker, hm]
      rw [hnone] at hs
      cases hs
      exact .startFsmWorker hm
  case h_7 hm => cases hs; exact .waitForRaft hm
  case h_8 hm => cases hs; exact .fsmClose hm
  case h_9 hm =>
      have hsome : s.fsmWorker.isSome = true := by simp [h.fsmWorker, hm]
      split at hs
      case h_1 hn => simp [hn] at hsome
      case h_2 hn => cases hs; exact .fsmJoin hm
      case h_3 => cases hs
  case h_10 hm => cases hs; exact .snapshotClose hm
  case h_11 hm =>
      have hjoined : MainTrans s ({ s with snapshotWorker := none }.goto .apiClose) :=
        .snapshotJoin hm
      split at hs
      case h_1 hn => cases hs; rwa [← hn] at hjoined
      case h_2 hn => cases hs; exact hjoined
      case h_3 => cases hs
  case h_12 hm => cases hs; exact .apiClose hm
  case h_13 hm => cases hs; exact .orphanClose hm
  case h_14 hm =>
      have hsome : s.gc.isSome = true := by simp [h.gc, hm]
      split at hs
      case h_1 hn => simp [hn] at hsome
      case h_2 hn => cases hs; exact .gcJoin hm
      case h_3 => cases hs
  case h_15 hm =>
      have hsome : s.watcher.isSome = true := by simp [h.watcher, hm]
      split at hs
      case h_1 hn => simp [hn] at hsome
      case h_2 hn => cases hs; exact .watcherJoin hm
      case h_3 => cases hs
  case h_16 hm => cases hs; exact .unmap hm
  case h_17 | h_18 | h_19 => cases hs

theorem Handles.mainStep (h : Handles s) (ht : MainTrans s s') : Handles s' := by
  obtain ⟨hfsm, hsnap, hgc, hwatch, hshm, hsound⟩ := h
  -- each statement starts, joins or maps what it says, and leaves the other handles alone
  cases ht with
  | _ hm =>
      rw [hm] at hfsm hsnap hgc hwatch hshm
      refine ⟨?_, ?_, ?_, ?_, ?_, nofun⟩
      · first | exact hfsm | rfl | exact Option.isSome_map.trans hfsm
      · first | exact hsnap | exact fun _ => rfl | nofun
      · first | exact hgc | rfl
      · first | exact hwatch | rfl
      · first | exact hshm | rfl

/-- A step which leaves the queues and the segment alone, and after which no more
is known about them. -/
theorem Contents.keep (h : Contents s) (hq : s'.snapshotQueue = s.snapshotQueue)
    (ho : s'.orphanedCalls = s.orphanedCalls) (hshm : s'.shm = s.shm)
    (hw : s'.snapshotWorker = none → s.snapshotWorker = none ∨ s'.main.fsmStarted = false)
    (hm : (s'.main.snapshotsUnused = true → s.main.snapshotsUnused = true) ∧
      (s'.main.snapshotsOpen = true → s.main.snapshotsOpen = true) ∧
      (s'.main.mapped = true → s.main.mapped = true) ∧
      (s'.main.fsmStarted = true → s.main.fsmStarted = true) ∧
      (s'.main.orphansUnused = true → s.main.orphansUnused = true) ∧
      (s'.main.orphansReset = true → s.main.orphansReset = true)) : Contents s' := by
  obtain ⟨hunused, hopen, hmapped, hfsm, hfresh, hreset⟩ := hm
  constructor
  · rw [hq]
    exact fun hm => h.snapshotsUnused (hunused hm)
  · rw [hq]
    exact fun hm => h.snapshotsOpen (hopen hm)
  · simp only [hq, State.Current, hshm]
    exact fun hm => h.snapshots (hmapped hm)
  · rw [hq]
    intro hm hnone
    rcases hw hnone with hold | hno
    · exact h.unserved (hfsm hm) hold
    · cases hm.symm.trans hno
  · rw [ho]
    exact fun hm => h.orphansUnused (hfresh hm)
  · simp only [ho, State.Current, hshm]
    exact fun hm => h.orphans (hreset hm)

theorem Contents.mainStep (h : Contents s) (ht : MainTrans s s') : Contents s' := by
  cases ht with
  | snapshotReset hm => constructor <;> simp
  | shmInit hm =>
      have hq := h.snapshotsUnused (by simp [hm])
      constructor <;> simp [hq]
  | orphanReset hm =>
      have hq := h.snapshotsUnused (by simp [hm])
      constructor <;> simp [hq]
  | startFsmWorker hm =>
      have hq := h.snapshotsUnused (by simp [hm])
      have ho := h.orphansUnused (by simp [hm])
      constructor <;> simp [hq, ho]
  | snapshotClose hm | orphanClose hm =>
      -- a closed queue has the same contents
      have hsnap := h.snapshots (by simp [hm])
      have horph := h.orphans (by simp [hm])
      exact ⟨nofun, nofun, fun _ => hsnap, nofun, nofun, fun _ => horph⟩
  | unmap hm => constructor <;> simp
  | startWatcher hm | startGc hm | waitForRaft hm | fsmClose hm | fsmJoin hm | snapshotJoin hm
  | apiClose hm | gcJoin hm | watcherJoin hm =>
      exact h.keep rfl rfl rfl (by simp) (by simp [hm])

/-- No thread has anything in its hands. -/
theorem Pointers.of_none (hf : s.fsmWorker = none) (hs : s.snapshotWorker = none)
    (hg : s.gc = none) : Pointers s := by
  constructor <;> simp [hf, hs, hg]

theorem Pointers.mainStep (h : Pointers s) (hh : Handles s) (ht : MainTrans s s') :
    Pointers s' := by
  have hnone (hm : s.main.snapshotStarted = false) : s.snapshotWorker = none := by
    by_contra hne
    have hsome := hh.snapshotWorker (Option.isSome_iff_ne_none.mpr hne)
    cases hm.symm.trans hsome
  cases ht with
  | shmInit hm | unmap hm =>
      refine .of_none ?_ (hnone (by simp [hm])) ?_
      · simpa [hm] using hh.fsmWorker
      · simpa [hm] using hh.gc
  | startGc hm =>
      exact ⟨h.fsmWorker, h.emplace, h.snapshotWorker, by simp, by simp⟩
  | startFsmWorker hm =>
      exact ⟨by simp [FsmWorker.slot?], by simp, h.snapshotWorker, h.gc, h.backlog⟩
  | fsmClose hm =>
      refine ⟨?_, ?_, h.snapshotWorker, h.gc, h.backlog⟩
      · intro w hw slot hs
        obtain ⟨v, hv, rfl⟩ := Option.map_eq_some_iff.mp hw
        exact h.fsmWorker v hv slot (by simpa using hs)
      · intro slot hw
        obtain ⟨v, hv, he⟩ := Option.map_eq_some_iff.mp hw
        exact h.emplace slot (by simpa [hv] using he)
  | fsmJoin hm => exact ⟨by simp, by simp, h.snapshotWorker, h.gc, h.backlog⟩
  | snapshotJoin hm =>
      have hf : s.fsmWorker = none := by simpa [hm] using hh.fsmWorker
      exact ⟨h.fsmWorker, by simp [hf], by simp, h.gc, h.backlog⟩
  | gcJoin hm => exact ⟨h.fsmWorker, h.emplace, h.snapshotWorker, by simp, by simp⟩
  | _ => exact ⟨h.fsmWorker, h.emplace, h.snapshotWorker, h.gc, h.backlog⟩

end Main

/-- Everything that holds from the first cycle to the last. -/
structure Inv (s : State) : Prop where
  handles : Handles s
  contents : Contents s
  pointers : Pointers s

theorem inv_initial : Inv initial where
  handles := by constructor <;> simp [initial]
  contents := by constructor <;> simp [initial]
  pointers := .of_none rfl rfl rfl

section Threads
variable {s s' : State}

theorem Deque.mem_put {q q' : Deque} {slot : SlotPtr} (h : q.put slot = some q') :
    q.closed = false ∧ q'.closed = false ∧ q'.contents = q.contents ++ [slot] := by
  unfold Deque.put at h
  split at h <;> rename_i hc <;> cases h
  simpa using hc

theorem Deque.mem_take {q q' : Deque} {slot : SlotPtr} (h : q.take = .value slot q') :
    q'.closed = q.closed ∧ q.contents = slot :: q'.contents := by
  unfold Deque.take at h
  split at h
  · cases h
  · split at h <;> cases h
    exact ⟨rfl, ‹_›⟩

/-- While the FSM worker exists, `snapshot_queue` is open and a segment is mapped. -/
theorem Inv.of_fsmWorker (h : Inv s) {w : FsmWorker} (hw : s.fsmWorker = some w) :
    s.main.fsmStarted = true ∧ s.snapshotQueue.closed = false ∧ s.main.mapped = true ∧
      s.main.snapshotsUnused = false := by
  have hstart : s.main.fsmStarted = true := by rw [← h.handles.fsmWorker, hw]; rfl
  obtain ⟨hsnap, hopen⟩ := Main.snapshotStarted_of_fsmStarted hstart
  obtain ⟨hmapped, hused⟩ := Main.mapped_of_snapshotStarted hsnap
  exact ⟨hstart, h.contents.snapshotsOpen hopen, hmapped, hused⟩

/-- The FSM worker moves on without touching the queue. -/
theorem Inv.fsmGoto (h : Inv s) {w w' : FsmWorker} (hw : s.fsmWorker = some w)
    (hslot : ∀ slot, w'.slot? = some slot → s.Current slot) (hne : ∀ slot, w' ≠ .emplace slot) :
    Inv { s with fsmWorker := some w' } where
  handles := by
    have hstart := (h.of_fsmWorker hw).1
    exact ⟨hstart.symm, h.handles.snapshotWorker, h.handles.gc, h.handles.watcher, h.handles.shm,
      h.handles.sound⟩
  contents := ⟨h.contents.snapshotsUnused, h.contents.snapshotsOpen, h.contents.snapshots,
    h.contents.unserved, h.contents.orphansUnused, h.contents.orphans⟩
  pointers := by
    refine ⟨?_, ?_, h.pointers.snapshotWorker, h.pointers.gc, h.pointers.backlog⟩
    · intro v hv slot hs
      cases hv
      exact hslot slot hs
    · intro slot hv
      cases hv
      exact absurd rfl (hne slot)

/-- `raft_fsm_take_snapshot` starts the snapshot worker if there is none. -/
theorem Inv.startSnapshotWorker (h : Inv s) {slot : SlotPtr}
    (hw : s.fsmWorker = some (.test slot)) :
    Inv { s with
      snapshotWorker := if s.snapshotWorker.isSome then s.snapshotWorker else some .loop
      fsmWorker := some (.emplace slot) } := by
  have hstart := (h.of_fsmWorker hw).1
  have hsome : (if s.snapshotWorker.isSome then s.snapshotWorker else some .loop) ≠ none := by
    split
    · exact Option.isSome_iff_ne_none.mp ‹_›
    · simp
  refine ⟨?_, ?_, ?_⟩
  · exact ⟨hstart.symm, fun _ => (Main.snapshotStarted_of_fsmStarted hstart).1, h.handles.gc,
      h.handles.watcher, h.handles.shm, h.handles.sound⟩
  · exact ⟨h.contents.snapshotsUnused, h.contents.snapshotsOpen, h.contents.snapshots,
      fun _ hnone => absurd hnone hsome, h.contents.orphansUnused, h.contents.orphans⟩
  · refine ⟨?_, fun _ _ => hsome, ?_, h.pointers.gc, h.pointers.backlog⟩
    · intro v hv slot' hs
      cases hv
      cases hs
      exact h.pointers.fsmWorker _ hw slot rfl
    · intro slot' hjob
      have hjob' : s.snapshotWorker = some (.job slot') := by
        by_cases hw' : s.snapshotWorker.isSome = true <;> simp_all
      exact h.pointers.snapshotWorker slot' hjob'

/-- A job is put into the open queue. -/
theorem Inv.emplaced (h : Inv s) {slot : SlotPtr} (hw : s.fsmWorker = some (.emplace slot))
    {q : Deque} (hq : s.snapshotQueue.put slot = some q) :
    Inv { s with snapshotQueue := q, fsmWorker := some (.callback slot) } := by
  obtain ⟨hstart, -, -, hused⟩ := h.of_fsmWorker hw
  obtain ⟨-, hopen, hcontents⟩ := Deque.mem_put hq
  have hcur := h.pointers.fsmWorker _ hw slot rfl
  have hne := h.pointers.emplace slot hw
  refine ⟨?_, ?_, ?_⟩
  · exact ⟨hstart.symm, h.handles.snapshotWorker, h.handles.gc, h.handles.watcher, h.handles.shm,
      h.handles.sound⟩
  · refine ⟨fun hu => (by cases hused.symm.trans hu), fun _ => hopen, fun hm slot' hs => ?_,
      fun _ hnone => absurd hnone hne, h.contents.orphansUnused, h.contents.orphans⟩
    rw [hcontents] at hs
    rcases List.mem_append.mp hs with hold | hnew
    · exact h.contents.snapshots hm slot' hold
    · cases List.mem_singleton.mp hnew
      exact hcur
  · refine ⟨?_, by simp, h.pointers.snapshotWorker, h.pointers.gc, h.pointers.backlog⟩
    intro v hv slot' hs
    cases hv
    cases hs
    exact hcur

theorem Inv.fsmWorkerStep (h : Inv s) (hs : fsmWorkerStep s = some s') : Inv s' := by
  unfold Lifecycle.fsmWorkerStep at hs
  split at hs
  case h_1 hw | h_2 hw =>
      cases hs
      exact h.fsmGoto hw (by split <;> simp [FsmWorker.slot?]) (by split <;> simp)
  case h_3 slot hw =>
      cases hs
      exact h.startSnapshotWorker hw
  case h_4 slot hw =>
      split at hs
      case h_1 q hq =>
          cases hs
          exact h.emplaced hw hq
      case h_2 hq =>
          cases hs
          exact h.fsmGoto hw (by simp [FsmWorker.slot?]) (by simp)
  case h_5 | h_6 | h_7 | h_8 | h_9 => cases hs

/-- The snapshot worker moves on; it may have taken a job. -/
theorem Inv.snapshotGoto (h : Inv s) {w w' : SnapshotWorker} (hw : s.snapshotWorker = some w)
    {q : Deque} (hclosed : q.closed = s.snapshotQueue.closed)
    (hsub : ∀ slot ∈ q.contents, slot ∈ s.snapshotQueue.contents)
    (hjob : ∀ slot, w' = .job slot → s.Current slot) :
    Inv { s with snapshotQueue := q, snapshotWorker := some w' } := by
  have hstart : s.main.snapshotStarted = true := h.handles.snapshotWorker (by simp [hw])
  have hused := (Main.mapped_of_snapshotStarted hstart).2
  refine ⟨?_, ?_, ?_⟩
  · exact ⟨h.handles.fsmWorker, fun _ => hstart, h.handles.gc, h.handles.watcher, h.handles.shm,
      h.handles.sound⟩
  · exact ⟨fun hu => (by cases hused.symm.trans hu), fun hm => hclosed.trans
      (h.contents.snapshotsOpen hm), fun hm slot hs => h.contents.snapshots hm slot (hsub slot hs),
      by simp, h.contents.orphansUnused, h.contents.orphans⟩
  · refine ⟨h.pointers.fsmWorker, by simp, ?_, h.pointers.gc, h.pointers.backlog⟩
    intro slot hs
    cases hs
    exact hjob slot rfl

theorem Inv.snapshotWorkerStep (h : Inv s) (hs : snapshotWorkerStep s = some s') : Inv s' := by
  unfold Lifecycle.snapshotWorkerStep at hs
  split at hs
  case h_1 hw =>
      have hstart : s.main.snapshotStarted = true := h.handles.snapshotWorker (by simp [hw])
      have hmapped := (Main.mapped_of_snapshotStarted hstart).1
      split at hs
      case h_1 =>
          cases hs
          exact h.snapshotGoto hw rfl (fun _ => id) (by simp)
      case h_2 => cases hs
      case h_3 slot q hq =>
          cases hs
          obtain ⟨hclosed, hcontents⟩ := Deque.mem_take hq
          refine h.snapshotGoto hw hclosed (fun slot' hs => ?_) fun slot' hs => ?_
          · rw [hcontents]
            exact List.mem_cons_of_mem _ hs
          · cases hs
            exact h.contents.snapshots hmapped slot (by simp [hcontents])
  case h_2 slot hw =>
      cases hs
      exact h.snapshotGoto hw rfl (fun _ => id) (by simp)
  case h_3 | h_4 => cases hs

/-- The collector moves on; it may have taken an orphan, and changed its backlog. -/
theorem Inv.gcGoto (h : Inv s) {gc gc' : Gc} (hg : s.gc = some gc) {q : Deque}
    {backlog : List SlotPtr}
    (hunused : s.orphanedCalls = ⟨[], false⟩ → q = ⟨[], false⟩)
    (hsub : ∀ slot ∈ q.contents, slot ∈ s.orphanedCalls.contents)
    (hslot : ∀ slot entry, gc' = .attempt slot entry → s.Current slot)
    (hback : gc' ≠ .start → ∀ slot ∈ backlog, s.Current slot) :
    Inv { s with orphanedCalls := q, orphanBacklog := backlog, gc := some gc' } := by
  have hstart : s.main.gcStarted = true := by rw [← h.handles.gc, hg]; rfl
  refine ⟨?_, ?_, ?_⟩
  · exact ⟨h.handles.fsmWorker, h.handles.snapshotWorker, hstart.symm, h.handles.watcher,
      h.handles.shm, h.handles.sound⟩
  · exact ⟨h.contents.snapshotsUnused, h.contents.snapshotsOpen, h.contents.snapshots,
      h.contents.unserved, fun hm => hunused (h.contents.orphansUnused hm),
      fun hm slot hs => h.contents.orphans hm slot (hsub slot hs)⟩
  · refine ⟨h.pointers.fsmWorker, h.pointers.emplace, h.pointers.snapshotWorker, ?_, ?_⟩
    · intro slot entry hs
      cases hs
      exact hslot slot entry rfl
    · intro g hs
      cases hs
      exact hback

theorem Inv.gcStep (h : Inv s) (hs : gcStep s = some s') : Inv s' := by
  unfold Lifecycle.gcStep at hs
  split at hs
  case h_1 hg =>
      cases hs
      exact h.gcGoto hg id (fun _ => id) (by simp) (by simp)
  case h_2 hg =>
      have hback := h.pointers.backlog _ hg (by simp)
      have hstart : s.main.gcStarted = true := by rw [← h.handles.gc, hg]; rfl
      have hreset := Main.orphansReset_of_gcStarted hstart
      split at hs
      case h_1 =>
          cases hs
          exact h.gcGoto hg id (fun _ => id) (by simp) fun _ => hback
      case h_2 => cases hs
      case h_3 slot q hq =>
          cases hs
          obtain ⟨hclosed, hcontents⟩ := Deque.mem_take hq
          refine h.gcGoto hg (fun he => ?_) (fun slot' hs => ?_) (fun slot' entry hs => ?_)
            fun _ => hback
          · simp [he] at hcontents
          · rw [hcontents]
            exact List.mem_cons_of_mem _ hs
          · cases hs
            exact h.contents.orphans hreset slot (by simp [hcontents])
  case h_3 i hg =>
      cases hs
      have hback := h.pointers.backlog _ hg (by simp)
      refine h.gcGoto hg id (fun _ => id) (fun slot entry hs => ?_) fun _ => hback
      split at hs
      case h_1 slot' hi =>
          cases hs
          exact hback slot (List.mem_of_getElem? hi)
      case h_2 => cases hs
  case h_4 | h_5 | h_6 | h_7 => cases hs

theorem Inv.tried (h : Inv s) {slot : SlotPtr} {entry : Option ℕ}
    (hg : s.gc = some (.attempt slot entry)) (disposed : Bool) :
    Inv (s.tried slot disposed entry) := by
  have hback := h.pointers.backlog _ hg (by simp)
  cases entry with
  | none =>
      refine h.gcGoto hg id (fun _ => id) (by simp) fun _ slot' hs => ?_
      split at hs
      · exact hback slot' hs
      · rcases List.mem_append.mp hs with hold | hnew
        · exact hback slot' hold
        · cases List.mem_singleton.mp hnew
          exact h.pointers.gc slot none hg
  | some i =>
      cases disposed with
      | true =>
          exact h.gcGoto hg id (fun _ => id) (by simp)
            fun _ slot' hs => hback slot' (List.mem_of_mem_eraseIdx hs)
      | false => exact h.gcGoto hg id (fun _ => id) (by simp) fun _ => hback

/-- A client thread abandons a call. -/
theorem Inv.dispose (h : Inv s) {slot : SlotPtr} {q : Deque}
    (hq : s.orphanedCalls.put slot = some q) (huse : s.main.inUse = true) (hcur : s.Current slot) :
    Inv { s with orphanedCalls := q } := by
  obtain ⟨-, -, hcontents⟩ := Deque.mem_put hq
  have hused := Main.orphansUnused_of_inUse huse
  refine ⟨?_, ?_, ?_⟩
  · exact ⟨h.handles.fsmWorker, h.handles.snapshotWorker, h.handles.gc, h.handles.watcher,
      h.handles.shm, h.handles.sound⟩
  · refine ⟨h.contents.snapshotsUnused, h.contents.snapshotsOpen, h.contents.snapshots,
      h.contents.unserved, fun hm => (by cases hused.symm.trans hm), fun hm slot' hs => ?_⟩
    rw [hcontents] at hs
    rcases List.mem_append.mp hs with hold | hnew
    · exact h.contents.orphans hm slot' hold
    · cases List.mem_singleton.mp hnew
      exact hcur
  · exact ⟨h.pointers.fsmWorker, h.pointers.emplace, h.pointers.snapshotWorker, h.pointers.gc,
      h.pointers.backlog⟩

/-- `raft_init` or `raft_cleanup` is called, or returns. -/
theorem Inv.goto (h : Inv s) {main : Main} (hm : s.main = .idle ∧ main = .snapshotReset ∨
    s.main = .running ∧ main = .fsmClose) : Inv (s.goto main) := by
  obtain ⟨hfsm, hsnap, hgc, hwatch, hshm, hsound⟩ := h.handles
  rcases hm with ⟨hm, rfl⟩ | ⟨hm, rfl⟩
  all_goals
    rw [hm] at hfsm hsnap hgc hwatch hshm
    refine ⟨⟨hfsm, hsnap, hgc, hwatch, hshm, by simp⟩, ?_, ?_⟩
    · exact h.contents.keep rfl rfl rfl .inl (by simp [hm])
    · exact ⟨h.pointers.fsmWorker, h.pointers.emplace, h.pointers.snapshotWorker, h.pointers.gc,
        h.pointers.backlog⟩

/-- What `Inv` says does not depend on how far the shutdown has got. -/
theorem Inv.shuttingDown (h : Inv s) (requested : Bool) {watcher : Option Watcher}
    (hw : watcher.isSome = s.watcher.isSome) :
    Inv { s with shutdownRequested := requested, watcher := watcher } where
  handles := ⟨h.handles.fsmWorker, h.handles.snapshotWorker, h.handles.gc,
    hw.trans h.handles.watcher, h.handles.shm, h.handles.sound⟩
  contents := ⟨h.contents.snapshotsUnused, h.contents.snapshotsOpen, h.contents.snapshots,
    h.contents.unserved, h.contents.orphansUnused, h.contents.orphans⟩
  pointers := ⟨h.pointers.fsmWorker, h.pointers.emplace, h.pointers.snapshotWorker, h.pointers.gc,
    h.pointers.backlog⟩

theorem Inv.mainStep (h : Inv s) (hs : mainStep s = some s') : Inv s' := by
  have ht := h.handles.mainTrans hs
  exact ⟨h.handles.mainStep ht, h.contents.mainStep ht, h.pointers.mainStep h.handles ht⟩

/-- One step of any thread keeps the invariant. -/
theorem Inv.step (h : Inv s) {a : Act} (hs : step s a = some s') (hf : FuturesInCycle s a s') :
    Inv s' := by
  cases a with
  | init =>
      simp only [Lifecycle.step] at hs
      split at hs <;> cases hs
      exact h.goto (.inl ⟨‹_›, rfl⟩)
  | cleanup =>
      simp only [Lifecycle.step] at hs
      split at hs <;> cases hs
      exact h.goto (.inr ⟨‹_›, rfl⟩)
  | main => exact h.mainStep hs
  | shutdown =>
      simp only [Lifecycle.step] at hs
      split at hs <;> cases hs
      exact h.shuttingDown true rfl
  | dispose slot =>
      simp only [Lifecycle.step] at hs
      split at hs <;> cases hs
      · exact h.dispose ‹_› hf.1 hf.2
      · exact h
  | beginSnapshot offset =>
      simp only [Lifecycle.step] at hs
      split at hs <;> cases hs
      rename_i hw hshm
      refine h.fsmGoto hw (fun slot hslot => ?_) (by simp)
      cases hslot
      exact hshm
  | fsmCall | fsmSleep | fsmWake =>
      simp only [Lifecycle.step] at hs
      split at hs <;> cases hs
      exact h.fsmGoto ‹_› (by simp [FsmWorker.slot?]) (by simp)
  | takeSnapshot =>
      simp only [Lifecycle.step] at hs
      split at hs <;> cases hs
      rename_i slot hw
      have hcur := h.pointers.fsmWorker _ hw
      exact h.fsmGoto hw hcur (by simp)
  | endSnapshot =>
      simp only [Lifecycle.step] at hs
      split at hs <;> cases hs
      exact h.fsmGoto ‹_› (by simp [FsmWorker.slot?]) (by simp)
  | fsmWorker => exact h.fsmWorkerStep hs
  | snapshotWorker => exact h.snapshotWorkerStep hs
  | gc => exact h.gcStep hs
  | gcTimeout =>
      simp only [Lifecycle.step] at hs
      split at hs <;> cases hs
      rename_i hg
      exact h.gcGoto hg.1 id (fun _ => id) (by simp) fun _ => h.pointers.backlog _ hg.1 (by simp)
  | gcTried disposed =>
      simp only [Lifecycle.step] at hs
      split at hs <;> cases hs
      exact h.tried ‹_› disposed
  | gcCheck scan =>
      simp only [Lifecycle.step] at hs
      split at hs <;> cases hs
      rename_i hg
      exact h.gcGoto hg id (fun _ => id) (by split <;> simp) fun _ =>
        h.pointers.backlog _ hg (by simp)
  | watcher =>
      simp only [Lifecycle.step] at hs
      split at hs <;> cases hs
      rename_i hw
      exact h.shuttingDown s.shutdownRequested (by simp [hw.1])

theorem inv_of_reach (h : system.Reach FuturesInCycle s) : Inv s := by
  refine Scheduled.Reach.invariant (I := Inv) h inv_initial ?_
  intro s a s' _ hI hs hf
  exact hI.step hs hf

end Threads

section Starting
variable {s s' : State}

/-- A thread is started in the step from one state to the next. -/
def Starts {β : Type} (thread : State → Option β) (s s' : State) : Prop :=
  thread s = none ∧ thread s' ≠ none

instance {β : Type} (thread : State → Option β) (s s' : State) : Decidable (Starts thread s s') :=
  inferInstanceAs (Decidable (_ ∧ _))

theorem Starts.isSome_ne {β : Type} {thread : State → Option β} (h : Starts thread s s') :
    (thread s').isSome ≠ (thread s).isSome := by
  simp [h.1, h.2]

theorem fsmWorkerStep_frame (hs : fsmWorkerStep s = some s') :
    s'.fsmWorker.isSome = s.fsmWorker.isSome ∧ s'.gc = s.gc := by
  unfold fsmWorkerStep at hs
  split at hs <;> (try split at hs) <;> cases hs <;> simp [*]

theorem snapshotWorkerStep_frame (hs : snapshotWorkerStep s = some s') :
    s'.fsmWorker = s.fsmWorker ∧ s'.gc = s.gc ∧
      s'.snapshotWorker.isSome = s.snapshotWorker.isSome := by
  unfold snapshotWorkerStep at hs
  split at hs <;> (try split at hs) <;> cases hs <;> simp [*]

theorem gcStep_frame (hs : gcStep s = some s') :
    s'.fsmWorker = s.fsmWorker ∧ s'.gc.isSome = s.gc.isSome ∧
      s'.snapshotWorker = s.snapshotWorker := by
  unfold gcStep at hs
  split at hs <;> (try split at hs) <;> cases hs <;> simp [*]

theorem State.tried_frame (s : State) (slot : SlotPtr) (disposed : Bool) (entry : Option ℕ) :
    (s.tried slot disposed entry).fsmWorker = s.fsmWorker ∧
      (s.tried slot disposed entry).gc.isSome = true ∧
      (s.tried slot disposed entry).snapshotWorker = s.snapshotWorker := by
  cases entry <;> cases disposed <;> exact ⟨rfl, rfl, rfl⟩

/-- The FSM worker and the collector are started by `raft_init` only. -/
theorem isSome_of_step {a : Act} (hs : step s a = some s') (ha : a ≠ .main) :
    s'.fsmWorker.isSome = s.fsmWorker.isSome ∧ s'.gc.isSome = s.gc.isSome := by
  cases a with
  | main => exact absurd rfl ha
  | fsmWorker =>
      obtain ⟨hfsm, hgc⟩ := fsmWorkerStep_frame hs
      exact ⟨hfsm, by rw [hgc]⟩
  | snapshotWorker =>
      obtain ⟨hfsm, hgc, -⟩ := snapshotWorkerStep_frame hs
      exact ⟨by rw [hfsm], by rw [hgc]⟩
  | gc =>
      obtain ⟨hfsm, hgc, -⟩ := gcStep_frame hs
      exact ⟨by rw [hfsm], hgc⟩
  | gcTried disposed =>
      simp only [step] at hs
      split at hs <;> cases hs
      rename_i slot entry hg
      obtain ⟨hfsm, hgc, -⟩ := s.tried_frame slot disposed entry
      exact ⟨by rw [hfsm], by rw [hgc, hg]; rfl⟩
  | _ =>
      simp only [step] at hs
      split at hs <;> cases hs <;> simp_all

/-- The snapshot worker is started by `raft_fsm_take_snapshot` only. -/
theorem test_of_starts {a : Act} (hs : step s a = some s') (h : Starts State.snapshotWorker s s') :
    ∃ slot, s.fsmWorker = some (.test slot) ∧ s'.snapshotQueue = s.snapshotQueue := by
  obtain ⟨hnone, hsome⟩ := h
  cases a with
  | main =>
      simp only [step, mainStep] at hs
      split at hs <;> (try split at hs) <;> cases hs <;> simp_all
  | fsmWorker =>
      simp only [step, fsmWorkerStep] at hs
      split at hs
      case h_3 slot hw =>
          cases hs
          exact ⟨slot, hw, rfl⟩
      all_goals (try split at hs) <;> cases hs <;> exact absurd hnone hsome
  | snapshotWorker =>
      simp only [step, snapshotWorkerStep, hnone] at hs
      cases hs
  | gc => exact absurd ((gcStep_frame hs).2.2.trans hnone) hsome
  | gcTried disposed =>
      simp only [step] at hs
      split at hs <;> cases hs
      exact absurd ((s.tried_frame _ _ _).2.2.trans hnone) hsome
  | _ =>
      simp only [step] at hs
      split at hs <;> cases hs <;> exact absurd hnone hsome

/-- The collector clears the backlog before it does anything else. -/
theorem backlog_of_start {a : Act} (hs : step s a = some s') (hg : s.gc = some .start)
    (hne : s'.gc ≠ some .start) : s'.orphanBacklog = [] := by
  cases a with
  | main =>
      simp only [step, mainStep] at hs
      split at hs <;> (try split at hs) <;> cases hs <;> simp_all
  | fsmWorker => exact absurd ((fsmWorkerStep_frame hs).2.trans hg) hne
  | snapshotWorker => exact absurd ((snapshotWorkerStep_frame hs).2.1.trans hg) hne
  | gc =>
      simp only [step, gcStep, hg] at hs
      cases hs
      rfl
  | gcTimeout | gcTried disposed | gcCheck scan => simp [step, hg] at hs
  | _ =>
      simp only [step] at hs
      split at hs <;> cases hs <;> exact absurd hg hne

/-- When `raft_init` starts the FSM worker or the collector, both queues are as
they were made. -/
theorem Inv.queues_of_starts (h : Inv s) {a : Act} (hs : Lifecycle.step s a = some s')
    (hst : Starts State.fsmWorker s s' ∨ Starts State.gc s s') :
    s'.snapshotQueue = ⟨[], false⟩ ∧ s'.orphanedCalls = ⟨[], false⟩ := by
  by_cases ha : a = .main
  · subst ha
    have hunused : s'.snapshotQueue = s.snapshotQueue ∧ s'.orphanedCalls = s.orphanedCalls ∧
        s.main.snapshotsUnused = true ∧ s.main.orphansUnused = true := by
      rcases hst with ⟨hnone, hsome⟩ | ⟨hnone, hsome⟩ <;>
      · cases h.handles.mainTrans hs <;> simp_all
    obtain ⟨hq, ho, hsnap, horph⟩ := hunused
    exact ⟨hq.trans (h.contents.snapshotsUnused hsnap), ho.trans (h.contents.orphansUnused horph)⟩
  · obtain ⟨hfsm, hgc⟩ := isSome_of_step hs ha
    rcases hst with hst | hst
    · exact absurd hfsm hst.isSome_ne
    · exact absurd hgc hst.isSome_ne

/-- When `raft_fsm_take_snapshot` starts the snapshot worker, its queue is as it was made. -/
theorem Inv.snapshotQueue_of_starts (h : Inv s) {a : Act} (hs : Lifecycle.step s a = some s')
    (hst : Starts State.snapshotWorker s s') : s'.snapshotQueue = ⟨[], false⟩ := by
  obtain ⟨slot, hw, hq⟩ := test_of_starts hs hst
  obtain ⟨hstart, hopen, -, -⟩ := h.of_fsmWorker hw
  have hempty := h.contents.unserved hstart hst.1
  rw [hq]
  exact congrArg₂ Deque.mk hempty hopen

end Starting

section TwoCycles

/-- `raft_init` is called and returns, and the collector gets going. -/
def initRun : List Act := [.init, .main, .main, .main, .main, .main, .main, .main, .gc]

/-- The FSM submits a snapshot. -/
def snapshotRun (offset : ℕ) : List Act :=
  [.fsmWorker, .beginSnapshot offset, .takeSnapshot, .fsmWorker, .fsmWorker, .endSnapshot]

/-- `raft_cleanup`, with every thread idle. -/
def cleanupRun : List Act :=
  [.shutdown, .cleanup, .main, .fsmWorker, .main, .main, .snapshotWorker, .main, .main, .main, .gc,
    .main, .watcher, .main, .main]

/-- One orphan in the backlog, another in its queue, and a snapshot to be taken. -/
def leftoversRun : List Act :=
  [.dispose ⟨1, 0⟩, .gc, .gcTried false, .gcCheck false, .dispose ⟨1, 1⟩] ++ snapshotRun 2

end TwoCycles

end Libraft.Lifecycle
