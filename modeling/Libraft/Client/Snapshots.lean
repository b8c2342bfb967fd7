import Libraft.Client.Letters
import Libraft.Snapshot.Jobs

/-!
# The snapshots of the example client

`FSMBeginSnapshot` copies the count into an object of its own, and hands its
address to the snapshot worker, which runs `write_snapshot` at some later time,
when more commands may have been applied. What is written is the count at the
time of the request. A replica which restores it and applies the commands which
followed the request ends with the same count.

## Implementation notes

The objects and the texts written so far stand beside the snapshot machinery as
a history. `malloc` returns the address of no object which is in use. Reading an
object which has been freed would leave no text. `snapshot_queue` is open all the
time: what happens to the copies when `raft_cleanup` closes it and throws away the
jobs which are left is not part of this system.
-/

namespace Libraft.Client

open Libraft.Foundation Libraft.Calls
open Libraft.Fsm
open Libraft.Snapshot (SnapshotJob JobStep Wiring wiring_of_reachable jobStep_of_trans)

variable {ι : Type*}

/-- What `write_snapshot` prints. -/
def countText (count : UInt32) : List UInt8 := printUnsigned count.toNat ++ [10]

/-- The objects with copies of the count, and the texts written for each request. -/
structure Copies where
  cells : UInt64 → Option UInt32
  written : List (ℕ × Option (List UInt8))

/-- `*state = letter_count`. -/
def Copies.fsmBeginSnapshot (c : Copies) (state : UInt64) (letterCount : UInt32) : Copies :=
  { c with cells := Function.update c.cells state (some letterCount) }

/-- `write_snapshot` with the result `rc`. -/
def Copies.writeSnapshot (c : Copies) (job : SnapshotJob) (rc : Int32) : Copies where
  cells := Function.update c.cells job.handle none
  written := if rc = 0 then c.written ++ [(job.slot, (c.cells job.handle).map countText)]
    else c.written

/-- What a step does to the objects. -/
def Copies.record (s : Snapshot.State Letters ι) : Snapshot.Act ι → Copies → Copies
  | .plan (.take h _), c => c.fsmBeginSnapshot h s.fsm.fsm.letterCount
  | .func rc, c =>
      match s.worker with
      | .func job => c.writeSnapshot job rc
      | _ => c
  | _, c => c

/-- `FSMBeginSnapshot` always calls `raft_fsm_take_snapshot`, with a fresh object
and the address of `write_snapshot`. -/
def Takes (p : Snapshot.State Letters ι × Copies) :
    Snapshot.Act ι → Snapshot.State Letters ι × Copies → Prop
  | .plan (.take h f), _ => h ≠ 0 ∧ f ≠ 0 ∧ p.2.cells h = none
  | .plan (.complete _), _ | .plan .defer, _ => False
  | _, _ => True

instance (p : Snapshot.State Letters ι × Copies) (a : Snapshot.Act ι)
    (p' : Snapshot.State Letters ι × Copies) : Decidable (Takes p a p') :=
  match a with
  | .plan (.take _ _) => inferInstanceAs (Decidable (_ ∧ _ ∧ _))
  | .plan (.complete _) | .plan .defer => inferInstanceAs (Decidable False)
  | .fsm _ | .callback | .queue _ | .worker | .fopen _ | .func _ | .fclose _
  | .completeDeferred _ _ => inferInstanceAs (Decidable True)

/-- The snapshot machinery with the objects of the client. -/
def copying [DecidableEq ι] (m : Machine) (st : Letters) :
    Scheduled (Snapshot.State Letters ι × Copies) (Snapshot.Act ι) :=
  (Snapshot.system (fsmDef m) st).withHistory ⟨fun _ => none, []⟩ Copies.record

/-- `begin_snapshot` was called for the request `k` when the count was `v`. -/
def Begun (s : Fsm.State Letters ι) (k : ℕ) (v : UInt32) : Prop :=
  ∃ e ∈ s.invoked, e.slot = k ∧ e.seen.letterCount = v ∧
    ∃ path, e.callback = .beginSnapshot path k

/-- Every object belongs to one job whose function has not been called, and holds
the count at the time of the request. -/
structure Kept (s : Snapshot.State Letters ι) (c : Copies) : Prop where
  distinct : (s.jobs.map SnapshotJob.handle).Nodup
  copied : ∀ job ∈ s.jobs, ∃ v, c.cells job.handle = some v ∧ Begun s.fsm job.slot v
  owned : ∀ h, c.cells h ≠ none → h ∈ s.jobs.map SnapshotJob.handle
  written : ∀ k text, (k, text) ∈ c.written → ∃ v, text = some (countText v) ∧ Begun s.fsm k v

section Kept
variable {s s' : Snapshot.State Letters ι} {c : Copies}

theorem Begun.mono {f f' : Fsm.State Letters ι} (hi : f.invoked ⊆ f'.invoked) {k : ℕ} {v : UInt32}
    (h : Begun f k v) : Begun f' k v := by
  obtain ⟨e, he, hrest⟩ := h
  exact ⟨e, hi he, hrest⟩

theorem kept_initial (st : Letters) :
    Kept (Snapshot.initial st : Snapshot.State Letters ι) ⟨fun _ => none, []⟩ where
  distinct := List.nodup_nil
  copied := fun _ hj => absurd hj List.not_mem_nil
  owned := fun _ hne => absurd rfl hne
  written := fun _ _ hw => absurd hw List.not_mem_nil

/-- The jobs move on. -/
theorem Kept.move (h : Kept s c) (hj : s'.jobs.Perm s.jobs)
    (hi : s.fsm.invoked ⊆ s'.fsm.invoked) : Kept s' c where
  distinct := ((hj.map _).nodup_iff).mpr h.distinct
  copied := fun job hmem =>
    let ⟨v, hv, hb⟩ := h.copied job (hj.subset hmem)
    ⟨v, hv, hb.mono hi⟩
  owned := fun a ha => (hj.map _).symm.subset (h.owned a ha)
  written := fun k text hw =>
    let ⟨v, hv, hb⟩ := h.written k text hw
    ⟨v, hv, hb.mono hi⟩

/-- `FSMBeginSnapshot` makes a copy of the count. -/
theorem Kept.push (h : Kept s c) {job : SnapshotJob} {v : UInt32}
    (hj : s'.jobs.Perm (job :: s.jobs)) (hi : s.fsm.invoked ⊆ s'.fsm.invoked)
    (hfresh : c.cells job.handle = none) (hb : Begun s'.fsm job.slot v) :
    Kept s' (c.fsmBeginSnapshot job.handle v) := by
  have hne {j : SnapshotJob} (hmem : j ∈ s.jobs) : j.handle ≠ job.handle := by
    intro heq
    obtain ⟨w, hw, -⟩ := h.copied j hmem
    simp [heq, hfresh] at hw
  refine ⟨?_, fun j hmem => ?_, fun a ha => ?_, fun k text hw => ?_⟩
  · refine ((hj.map _).nodup_iff).mpr (List.nodup_cons.mpr ⟨fun hmem => ?_, h.distinct⟩)
    obtain ⟨j, hjm, heq⟩ := List.mem_map.mp hmem
    exact hne hjm heq
  · rcases List.mem_cons.mp (hj.subset hmem) with rfl | hold
    · exact ⟨v, by simp [Copies.fsmBeginSnapshot], hb⟩
    · obtain ⟨w, hw, hbegun⟩ := h.copied j hold
      exact ⟨w, by simpa [Copies.fsmBeginSnapshot, hne hold] using hw, hbegun.mono hi⟩
  · refine (hj.map _).symm.subset ?_
    by_cases heq : a = job.handle
    · simp [heq]
    · exact List.mem_cons_of_mem _
        (h.owned a (by simpa [Copies.fsmBeginSnapshot, heq] using ha))
  · obtain ⟨w, hv, hbegun⟩ := h.written k text hw
    exact ⟨w, hv, hbegun.mono hi⟩

/-- `write_snapshot` prints the copy and frees it. -/
theorem Kept.pop (h : Kept s c) {job : SnapshotJob} (hj : s.jobs.Perm (job :: s'.jobs))
    (hi : s.fsm.invoked ⊆ s'.fsm.invoked) (rc : Int32) : Kept s' (c.writeSnapshot job rc) := by
  have hnodup := ((hj.map SnapshotJob.handle).nodup_iff).mp h.distinct
  rw [List.map_cons, List.nodup_cons] at hnodup
  have hne {j : SnapshotJob} (hmem : j ∈ s'.jobs) : j.handle ≠ job.handle := fun heq =>
    hnodup.1 (heq ▸ List.mem_map_of_mem hmem)
  refine ⟨hnodup.2, fun j hmem => ?_, fun a ha => ?_, fun k text hw => ?_⟩
  · obtain ⟨v, hv, hb⟩ := h.copied j (hj.symm.subset (List.mem_cons_of_mem _ hmem))
    exact ⟨v, by simpa [Copies.writeSnapshot, hne hmem] using hv, hb.mono hi⟩
  · have hother : a ≠ job.handle := by
      rintro rfl
      simp [Copies.writeSnapshot] at ha
    have hmem := (hj.map _).subset (h.owned a (by simpa [Copies.writeSnapshot, hother] using ha))
    rw [List.map_cons] at hmem
    exact (List.mem_cons.mp hmem).resolve_left hother
  · have hcases : (k, text) ∈ c.written ∨
        (k, text) = (job.slot, (c.cells job.handle).map countText) := by
      simp only [Copies.writeSnapshot] at hw
      split at hw
      · simpa using hw
      · exact .inl hw
    rcases hcases with hold | heq
    · obtain ⟨v, hv, hb⟩ := h.written k text hold
      exact ⟨v, hv, hb.mono hi⟩
    · obtain ⟨v, hv, hb⟩ := h.copied job (hj.symm.subset List.mem_cons_self)
      cases heq
      exact ⟨v, by rw [hv]; rfl, hb.mono hi⟩

variable [DecidableEq ι] {m : Machine} {st : Letters}

/-- The request of the callback which is running was made with the present count. -/
theorem begun_of_current (hw : Wiring (fsmDef m) st s) {req : ℕ} (hcur : s.current = some req) :
    Begun s.fsm req s.fsm.fsm.letterCount := by
  have ht : Tracked (fsmDef m) s.fsm := tracked_of_reach hw.reach
  unfold Snapshot.State.current at hcur
  split at hcur
  case h_1 k path req' hwk =>
      cases hcur
      have hmem := ht.calling k _ hwk
      obtain rfl : k = req := (ht.slot_of_request hmem rfl).1
      exact ⟨_, hmem, rfl, rfl, path, rfl⟩
  case h_2 => cases hcur

theorem Kept.step (h : Kept s c) (hw : Wiring (fsmDef m) st s) {a : Snapshot.Act ι}
    (ht : Snapshot.Trans (fsmDef m) s a s') (hg : Takes (s, c) a (s', c.record s a)) :
    Kept s' (c.record s a) := by
  have hi := Snapshot.invoked_subset_of_trans ht
  cases jobStep_of_trans hw ht with
  | keep hj hplan hfunc =>
      have hsame : c.record s a = c := by
        unfold Copies.record
        split
        case h_1 h' f => exact absurd rfl (hplan h' f hg.1 hg.2.1)
        case h_2 rc => exact absurd rfl (hfunc rc)
        case h_3 => rfl
      rw [hsame]
      exact h.move hj hi
  | submit req h' f ha hcur hh hf hj =>
      subst ha
      exact h.push hj hi hg.2.2 ((begun_of_current hw hcur).mono hi)
  | call job rc ha hwk hj =>
      subst ha
      simp only [Copies.record, hwk]
      exact h.pop hj hi rc

theorem kept_of_reach {p : Snapshot.State Letters ι × Copies} (h : (copying m st).Reach Takes p) :
    Kept p.1 p.2 := by
  refine h.invariant (I := fun p => Kept p.1 p.2) (kept_initial st) ?_
  rintro ⟨s, c⟩ a ⟨s', c'⟩ hs hk ht hg
  obtain ⟨hstep, hrec⟩ := Scheduled.withHistory_step ht
  have hrec' : c' = c.record s a := hrec
  subst hrec'
  exact hk.step (wiring_of_reachable hs.reachable.forget) (Snapshot.trans_of_step hstep) hg

end Kept

section Results
variable [DecidableEq ι] {p : Snapshot.State Letters ι × Copies}

theorem sequential_of_copying (m : Machine) (st : Letters) (h : (copying m st).Reach Takes p) :
    Sequential (fsmDef m) st p.1.fsm :=
  sequential_of_reach (wiring_of_reachable (h.reachable.forget)).reach

/-- The snapshot worker takes the next job. -/
def takeJobRun : List (Snapshot.Act Unit) :=
  [Snapshot.Act.worker] ++ List.replicate 4 (Snapshot.Act.queue (.step .snapshotWorker none)) ++
    [Snapshot.Act.worker]

/-- A command is applied, a snapshot is requested, and another command, which
stands in the same buffer, is applied before the snapshot is written. -/
def lateWriteRun : List (Snapshot.Act Unit) :=
  (sendRun (.apply ⟨1, 1, .command, 64, 8⟩) ++ workerRun 10 ++
    sendRun (.snapshot [115]) ++ workerRun 3).map Snapshot.Act.fsm ++ Snapshot.submitRun ++
    (sendRun (.apply ⟨2, 1, .command, 64, 2⟩) ++ workerRun 10).map Snapshot.Act.fsm ++
    takeJobRun ++ [Snapshot.Act.fopen true, .func 0]

/-- As long as `snapshot_queue` is open, the copies in use are those which the
snapshot worker is going to write, and those whose sink could not be opened, which
nobody frees. -/
theorem copy_in_use_iff (m : Machine) (st : Letters) (h : (copying m st).Reach Takes p)
    (a : UInt64) :
    p.2.cells a ≠ none ↔ ∃ job ∈ p.1.pending ++ p.1.abandoned, job.handle = a := by
  have hk := kept_of_reach h
  constructor
  · intro ha
    exact List.mem_map.mp (hk.owned a ha)
  · rintro ⟨job, hmem, rfl⟩
    obtain ⟨v, hv, -⟩ := hk.copied job hmem
    simp [hv]

/-- The sink cannot be opened: the job is over, and its copy is still there. -/
theorem copy_in_use_iff_notOpened :
    ∃ p : Snapshot.State Letters Unit × Copies,
      p.1.pending = [] ∧ p.1.worker = .loop ∧ p.2.cells 1 ≠ none := by
  have hinit : (copying sampleMachine ⟨0, 0, []⟩).Reach Takes
      ((Snapshot.initial ⟨0, 0, []⟩ : Snapshot.State Letters Unit), ⟨fun _ => none, []⟩) := .init
  obtain ⟨p, hp, hpend, hwk, hab⟩ := hinit.exists_of_run
    (Snapshot.beginRun ++ Snapshot.submitRun ++ takeJobRun ++
      [Snapshot.Act.fopen false, .worker] ++
      List.replicate 6 (Snapshot.Act.fsm (.completeStep 0 none)) ++ [Snapshot.Act.worker])
    (by decide +kernel)
    (fun p => p.1.pending = [] ∧ p.1.worker = .loop ∧ p.1.abandoned = [⟨0, 1, 2⟩])
    (by decide +kernel)
  refine ⟨p, hpend, hwk, (copy_in_use_iff sampleMachine ⟨0, 0, []⟩ hp 1).mpr ?_⟩
  exact ⟨⟨0, 1, 2⟩, by simp [hpend, hab], rfl⟩

/-- The texts of the commands among some calls, the first of which is call `i`. -/
def commands (m : Machine) : ℕ → List Fsm.Callback → List CString
  | _, [] => []
  | i, .apply _ _ _ data len :: cbs => m.command i data len :: commands m (i + 1) cbs
  | i, .beginSnapshot _ _ :: cbs | i, .restore _ :: cbs => commands m (i + 1) cbs

/-- Without a restore every command adds its letters. -/
theorem tally_eq_sum (m : Machine) (i n : ℕ) {cbs : List Fsm.Callback}
    (h : ∀ path, .restore path ∉ cbs) :
    tally m i n cbs = n + ((commands m i cbs).map letters).sum := by
  induction cbs generalizing i n with
  | nil => rfl
  | cons cb cbs ih =>
      have hrest : ∀ path, .restore path ∉ cbs := fun path hmem =>
        h path (List.mem_cons_of_mem _ hmem)
      change tally m (i + 1) (tallyStep m i n cb) cbs = _
      rw [ih _ _ hrest]
      cases cb with
      | apply index term logType data len =>
          simp only [tallyStep, commands, List.map_cons, List.sum_cons]
          omega
      | beginSnapshot path req => rfl
      | restore path => exact absurd List.mem_cons_self (h path)

/-- The count after a sequence of commands depends on their texts only. -/
theorem letterCount_replay_congr {m m' : Machine} {st st' : Letters} {cbs cbs' : List Fsm.Callback}
    (hst : st.letterCount = st'.letterCount)
    (hc : commands m st.calls cbs = commands m' st'.calls cbs')
    (h : ∀ path, .restore path ∉ cbs) (h' : ∀ path, .restore path ∉ cbs') :
    (replay (fsmDef m) st cbs).letterCount = (replay (fsmDef m') st' cbs').letterCount := by
  apply UInt32.toNat_inj.mp
  rw [letterCount_replay, letterCount_replay, tally_eq_sum m _ _ h, tally_eq_sum m' _ _ h', hst, hc]

/-- What `write_snapshot` prints is what `FSMRestore` reads. -/
theorem snapshot_countText {m : Machine} {i : ℕ} {path : List UInt8} {count : UInt32}
    (h : m.stream i path = some (countText count, 0)) : m.snapshot i path = some count := by
  simp only [Machine.snapshot, h, Option.bind_some, if_true]
  exact scanUnsigned_printUnsigned count (by simp [isDigit])

theorem letterCount_restore {m : Machine} {st : Letters} {path : List UInt8} {count : UInt32}
    (h : m.stream st.calls path = some (countText count, 0)) :
    ((Callback.restore path).run (fsmDef m) st).1.letterCount = count := by
  simp [Callback.run, fsmDef, fsmRestore_eq, snapshot_countText h]

/-- A replica, with any count to begin with, which restores what was written for
a request and then applies the commands which followed the request, ends with the
same count. -/
theorem restored_replica_agrees (m : Machine) (st : Letters) (h : (copying m st).Reach Takes p)
    {k : ℕ} {text : List UInt8} (hk : (k, some text) ∈ p.2.written)
    (hrest : ∀ k cb, p.1.fsm.worker ≠ .running k cb) :
    ∃ pre e post, p.1.fsm.invoked = pre ++ e :: post ∧ e.slot = k ∧
      ∀ (m' : Machine) (st' : Letters) (t : Fsm.State Letters ι) (path : List UInt8)
        (later : List Fsm.Callback),
        (Fsm.system (fsmDef m') st').Reachable t → (∀ k cb, t.worker ≠ .running k cb) →
        m'.stream st'.calls path = some (text, 0) →
        t.invoked.map Invocation.callback = .restore path :: later →
        (∀ path, .restore path ∉ post.map Invocation.callback ∧ .restore path ∉ later) →
        commands m' (st'.calls + 1) later =
          commands m (st.calls + pre.length + 1) (post.map Invocation.callback) →
        t.fsm.letterCount = p.1.fsm.fsm.letterCount := by
  obtain ⟨v, htext, e, he, rfl, rfl, path₀, hcb⟩ := (kept_of_reach h).written k _ hk
  cases htext
  obtain ⟨pre, post, hsplit⟩ := List.append_of_mem he
  have hs := sequential_of_copying m st h
  refine ⟨pre, e, post, hsplit, rfl, ?_⟩
  intro m' st' t path later ht htrest hstream hinv hno hcmd
  have hleft : t.fsm.letterCount =
      (replay (fsmDef m') ((Callback.restore path).run (fsmDef m') st').1 later).letterCount := by
    rw [(sequential_of_reach ht).resting htrest, hinv]
    rfl
  have hseen := hs.seen pre e post hsplit
  have hright : p.1.fsm.fsm =
      replay (fsmDef m) (e.callback.run (fsmDef m) e.seen).1 (post.map Invocation.callback) := by
    rw [hs.resting hrest, hsplit, List.map_append, replay_append, ← hseen]
    rfl
  have hcalls : e.seen.calls = st.calls + pre.length := by
    rw [hseen, calls_replay, List.length_map]
  have hsame : (e.callback.run (fsmDef m) e.seen).1.letterCount = e.seen.letterCount := by
    rw [hcb]
    rfl
  rw [hleft, hright]
  refine letterCount_replay_congr ((letterCount_restore hstream).trans hsame.symm) ?_
    (fun path => (hno path).2) fun path => (hno path).1
  rw [calls_run, calls_run, hcalls, hcmd]

/-- A replica restores the count 2 and applies the command which followed the
request; its count is 3 as well. -/
theorem restored_replica_agrees_late :
    ∃ (p : Snapshot.State Letters Unit × Copies) (t : Fsm.State Letters Unit),
      p.1.fsm.fsm.letterCount = 3 ∧ t.fsm.letterCount = p.1.fsm.fsm.letterCount := by
  have hinit : (copying sampleMachine ⟨0, 0, []⟩).Reach Takes
      ((Snapshot.initial ⟨0, 0, []⟩ : Snapshot.State Letters Unit), ⟨fun _ => none, []⟩) := .init
  obtain ⟨p, hp, hcount, hmem, hwk, hinv⟩ := hinit.exists_of_run lateWriteRun (by decide +kernel)
    (fun p => p.1.fsm.fsm.letterCount = 3 ∧ (1, some (countText 2)) ∈ p.2.written ∧
      p.1.fsm.worker = .take ∧ p.1.fsm.invoked.map (fun e => (e.slot, e.callback)) =
        [(0, .apply 1 1 .command 64 8), (1, .beginSnapshot [115] 1),
          (2, .apply 2 1 .command 64 2)])
    (by decide +kernel)
  obtain ⟨pre, e, post, hsplit, hslot, hagree⟩ :=
    restored_replica_agrees sampleMachine ⟨0, 0, []⟩ hp hmem (by simp [hwk])
  have hpost : post.map Invocation.callback = [.apply 2 1 .command 64 2] := by
    rw [hsplit] at hinv
    rcases pre with _ | ⟨e₀, _ | ⟨e₁, _ | ⟨e₂, pre⟩⟩⟩
    · simp [hslot] at hinv
    · have htail := congrArg (fun l => (l.drop 2).map Prod.snd) hinv
      simpa using htail
    · simp [hslot] at hinv
    · simp at hinv
  let m' : Machine := { sampleMachine with stream := fun _ _ => some (countText 2, 0) }
  obtain ⟨t, ht, htwk, htinv⟩ := Scheduled.exists_reachable_of_run
    (Fsm.system (fsmDef m') ⟨100, 0, []⟩ : Scheduled (Fsm.State Letters Unit) (Fsm.Act Unit))
    (sendRun (.restore [115]) ++ workerRun 9 ++
      sendRun (.apply ⟨2, 1, .command, 64, 2⟩) ++ workerRun 10)
    (fun t => t.worker = .take ∧ t.invoked.map Invocation.callback =
      [.restore [115], .apply 2 1 .command 64 2])
    (by decide +kernel)
  refine ⟨p, t, hcount, hagree m' ⟨100, 0, []⟩ t [115] _ ht (by simp [htwk]) rfl htinv ?_ ?_⟩
  · simp [hpost]
  · rw [hpost]
    rfl

end Results

end Libraft.Client
