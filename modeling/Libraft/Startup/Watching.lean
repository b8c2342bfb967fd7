import Libraft.Startup.System

/-!
# What the watcher makes of the end of the Raft process

`watch_raft_proc` ends the client process unless a shutdown was requested and
the Raft process has exited normally or `kill_raft_` was called. It looks at the
flags after the end of the process, and they are only ever set: it never ends a
client whose requests came in time, unless `waitpid` fails, but it takes a kill
which came too late for one which was on purpose. Before `raft_init` returns
nobody requests a shutdown, and a Raft process which dies then takes the client
with it.
-/

namespace Libraft.Startup

open Libraft.Foundation

variable {ι : Type*}

/-- The client has not come to `fork`, or not beyond it. -/
def Client.early : Client → Bool
  | .idle | .stat | .unlink | .create | .construct | .fork | .failed | .refused => true
  | .waitForRaft | .running | .ended => false

/-- What the watcher knows about the Raft process. -/
def WatcherSound (p : Party ι) : Prop :=
  match p.watcher with
  | .absent => p.child = none
  | .waiting => True
  | .clean status => ∃ d, p.child = some (.dead d) ∧ d.status = status
  | .requested status => ∃ d, p.child = some (.dead d) ∧ d.status = status ∧
      ¬(d.requested = true ∧ d.status = .exited 0)
  | .killed status => p.segment.shutdownRequested = true ∧ ∃ d, p.child = some (.dead d) ∧
      d.status = status ∧ ¬(d.requested = true ∧ d.status = .exited 0)
  | .returned => p.segment.shutdownRequested = true ∧ ∃ d, p.child = some (.dead d) ∧
      (d.status = .exited 0 ∨ p.segment.raftKilled = true)
  | .exited => p.client = .ended ∧ ∃ d, p.child = some (.dead d) ∧
      ¬(d.requested = true ∧ (d.status = .exited 0 ∨ d.killed = true))
  | .waitFailed => p.client = .ended

/-- What holds of a client and its watcher. -/
structure Watched (p : Party ι) : Prop where
  early : p.client.early = true → p.child = none ∧ p.watcher = .absent
  quiet : p.client = .fork ∨ p.client = .waitForRaft → p.segment.shutdownRequested = false
  flags : ∀ d, p.child = some (.dead d) →
    (d.requested = true → p.segment.shutdownRequested = true) ∧
    (d.killed = true → p.segment.raftKilled = true)
  watcher : WatcherSound p

namespace Watched

variable {p : Party ι}

theorem initial : Watched (⟨.idle, .zero, none, .absent⟩ : Party ι) :=
  ⟨fun _ => ⟨rfl, rfl⟩, fun _ => rfl, fun _ h => (by cases h), rfl⟩

/-- Before `fork` there is nothing to be watched. -/
theorem goto_early (h : Watched p) (he : p.client.early = true) {client : Client} {seg : Segment}
    (hc : client = .fork ∨ client = .waitForRaft → seg.shutdownRequested = false) :
    Watched { p with client := client, segment := seg } := by
  obtain ⟨hchild, hwatcher⟩ := h.early he
  refine ⟨fun _ => ⟨hchild, hwatcher⟩, hc, ?_, ?_⟩
  · intro d hd
    rw [show p.child = some (.dead d) from hd] at hchild
    cases hchild
  · rw [WatcherSound, hwatcher]
    exact hchild

/-- A Raft process which is alive goes on or dies. -/
theorem become (h : Watched p) {c c' : Child ι} (hc : p.child = some c) (hd : ∀ d, c ≠ .dead d)
    (hc' : ∀ d, c' = .dead d → d.requested = p.segment.shutdownRequested ∧
      d.killed = p.segment.raftKilled) : Watched { p with child := some c' } where
  early := by
    intro he
    have hnone := (h.early he).1
    rw [hc] at hnone
    cases hnone
  quiet := h.quiet
  flags := by
    intro d hd'
    obtain ⟨hr, hk⟩ := hc' d (Option.some.inj hd')
    rw [hr, hk]
    exact ⟨id, id⟩
  watcher := by
    have hw := h.watcher
    unfold WatcherSound at hw ⊢
    -- every position but the first ones says that the process is dead
    cases hp : p.watcher <;> simp only [hp] at hw ⊢ <;> grind

/-- A flag is set. -/
theorem set (h : Watched p) {seg : Segment} (hc : p.client = .running)
    (hr : p.segment.shutdownRequested = true → seg.shutdownRequested = true)
    (hk : p.segment.raftKilled = true → seg.raftKilled = true) :
    Watched { p with segment := seg } where
  early := h.early
  quiet := fun hw => by simp [hc] at hw
  flags := fun d hd => ⟨hr ∘ (h.flags d hd).1, hk ∘ (h.flags d hd).2⟩
  watcher := by
    have hw := h.watcher
    unfold WatcherSound at hw ⊢
    cases hp : p.watcher <;> simp only [hp] at hw ⊢ <;> grind

/-- Another member of the segment changes. -/
theorem of_flags (h : Watched p) {seg : Segment}
    (hr : seg.shutdownRequested = p.segment.shutdownRequested)
    (hk : seg.raftKilled = p.segment.raftKilled) : Watched { p with segment := seg } where
  early := h.early
  quiet := fun hw => hr.trans (h.quiet hw)
  flags := by
    rw [hr, hk]
    exact h.flags
  watcher := by
    have hw := h.watcher
    unfold WatcherSound at hw ⊢
    dsimp only
    rwa [hr, hk]

/-- The watcher goes on. -/
theorem watch (h : Watched p) {w : Watcher} (hw : p.watcher ≠ .absent)
    (hs : WatcherSound { p with watcher := w }) : Watched { p with watcher := w } :=
  ⟨fun he => absurd (h.early he).2 hw, h.quiet, h.flags, hs⟩

/-- The watcher ends the process. -/
theorem exit (h : Watched p) {d : Death ι} (hd : p.child = some (.dead d))
    (hv : ¬(d.requested = true ∧ (d.status = .exited 0 ∨ d.killed = true))) :
    Watched { p with client := .ended, watcher := .exited } :=
  ⟨fun he => (by cases he), fun hc => (by simp at hc), h.flags, rfl, d, hd, hv⟩

end Watched

section Runs

variable [DecidableEq ι] {path : ι → CString} {stale : CString → Bool} {s s' : State ι}

theorem watched_modify (h : ∀ k, Watched (s.party k)) {i : ι} {f : Party ι → Party ι}
    (hi : Watched (f (s.party i))) : ∀ k, Watched ((s.modify i f).party k) :=
  fun k => of_modify (fun hik => hik ▸ hi) (h k)

theorem watched_trans (h : ∀ k, Watched (s.party k)) {a : Act ι} (ht : Trans path s a s') :
    ∀ k, Watched (s'.party k) := by
  cases ht with
  | @init i hc | @found i hc hf | @absent i hc hf | @unlinkFails i hc hf | @createFails i hc hf
  | @forkFails i hc =>
      exact watched_modify h ((h i).goto_early (by rw [hc]; rfl) (by simp))
  | @refused i hc =>
      refine watched_modify h ((h i).goto_early ?_ (by simp))
      rcases hc with hc | hc | hc <;> rw [hc] <;> rfl
  | @unlinked i hc | @created i hc =>
      exact watched_modify (s := s.setFile _ _) h ((h i).goto_early (by rw [hc]; rfl) (by simp))
  | @constructed i hc => exact watched_modify h ((h i).goto_early (by rw [hc]; rfl) fun _ => rfl)
  | @forked i hc =>
      exact watched_modify h ⟨fun he => (by cases he), fun _ => (h i).quiet (.inl hc),
        fun d hd => (by cases hd), trivial⟩
  | @returned i hc hr =>
      refine watched_modify h ⟨fun he => (by cases he), fun hw => (by simp at hw), (h i).flags, ?_⟩
      have hs := (h i).watcher
      unfold WatcherSound at hs ⊢
      cases hw : (s.party i).watcher <;> simp only [hw, hc] at hs ⊢ <;> grind
  | @exec i p hc hp | @opened i p file hc hf | @scoreboard i j hc =>
      exact watched_modify h ((h i).become hc (by simp) (by simp))
  | @childUnlinked i p file hc =>
      exact watched_modify (s := s.setFile _ _) h ((h i).become hc (by simp) (by simp))
  | @execFails i hc hp | @openFails i p hc hf | @childUnlinkFails i p file hc hf
  | @noScoreboard i file hc hf =>
      exact watched_modify h ((h i).become hc (by simp) (by simp))
  | @refusedChild i c status hc hd | @died i c status hc hd =>
      exact watched_modify h ((h i).become hc hd (by simp))
  | @started i j hc =>
      have hstore : ∀ k, Watched
          ((s.store j fun seg => { seg with isRaftRunning := true }).party k) :=
        watched_modify h ((h j).of_flags rfl rfl)
      refine watched_modify hstore ((hstore i).become (c := .attached j) ?_ (by simp) (by simp))
      exact of_modify (P := fun p => p.child = some (.attached j)) (fun _ => hc) hc
  | @reaped i d hw hc =>
      exact watched_modify h ((h i).watch (by simp [hw]) ⟨d, hc, rfl⟩)
  | @cleanExit i hw hr =>
      have hs := (h i).watcher
      rw [WatcherSound, hw] at hs
      obtain ⟨d, hd, hst⟩ := hs
      exact watched_modify h ((h i).watch (by simp [hw]) ⟨hr, d, hd, .inl hst⟩)
  | @otherExit i status hw hr =>
      have hs := (h i).watcher
      rw [WatcherSound, hw] at hs
      obtain ⟨d, hd, hst⟩ := hs
      refine watched_modify h ((h i).watch (by simp [hw]) ⟨d, hd, hst, ?_⟩)
      exact fun hv => hr ⟨((h i).flags d hd).1 hv.1, hst ▸ hv.2⟩
  | @afterRequest i status hw hr =>
      have hs := (h i).watcher
      rw [WatcherSound, hw] at hs
      exact watched_modify h ((h i).watch (by simp [hw]) ⟨hr, hs⟩)
  | @unrequested i status hw hr =>
      have hs := (h i).watcher
      rw [WatcherSound, hw] at hs
      obtain ⟨d, hd, -, -⟩ := hs
      refine watched_modify h ((h i).exit hd fun hv => ?_)
      rw [((h i).flags d hd).1 hv.1] at hr
      cases hr
  | @afterKill i status hw hk =>
      have hs := (h i).watcher
      rw [WatcherSound, hw] at hs
      obtain ⟨hr, d, hd, -, -⟩ := hs
      exact watched_modify h ((h i).watch (by simp [hw]) ⟨hr, d, hd, .inr hk⟩)
  | @notKilled i status hw hk =>
      have hs := (h i).watcher
      rw [WatcherSound, hw] at hs
      obtain ⟨-, d, hd, -, hv⟩ := hs
      refine watched_modify h ((h i).exit hd ?_)
      rintro ⟨hr, hst | hkd⟩
      · exact hv ⟨hr, hst⟩
      · rw [((h i).flags d hd).2 hkd] at hk
        cases hk
  | @waitFailed i hw =>
      exact watched_modify h ⟨fun he => (by cases he), fun hc => (by simp at hc), (h i).flags, rfl⟩
  | @shutdown i hc | @kill i hc =>
      exact watched_modify h ((h i).set hc (by simp) (by simp))

theorem watched_of_reachable (h : (system path stale).Reachable s) (i : ι) :
    Watched (s.party i) := by
  refine h.invariant (I := fun s => ∀ k, Watched (s.party k)) (fun _ => .initial) ?_ i
  exact fun _ _ _ _ hs ht _ => watched_trans hs (trans_of_step ht)

/-- The watcher returns only after a requested shutdown, and if the Raft process has exited
normally or `raft_killed` is set; it ends a client only if `waitpid` fails, or if neither a request
and a normal end, nor a request and a kill, came before the end of the Raft process. -/
theorem watcher_verdict (h : (system path stale).Reachable s) (i : ι) :
    ((s.party i).watcher = .returned →
      (s.party i).segment.shutdownRequested = true ∧ ∃ d, (s.party i).child = some (.dead d) ∧
        (d.status = .exited 0 ∨ (s.party i).segment.raftKilled = true)) ∧
    ((s.party i).watcher = .exited →
      (s.party i).client = .ended ∧ ∃ d, (s.party i).child = some (.dead d) ∧
        ¬(d.requested = true ∧ (d.status = .exited 0 ∨ d.killed = true))) ∧
    ((s.party i).watcher = .waitFailed → (s.party i).client = .ended) := by
  have hs := (watched_of_reachable h i).watcher
  refine ⟨fun hw => ?_, fun hw => ?_, fun hw => ?_⟩ <;> rwa [WatcherSound, hw] at hs

section Unrequested

variable {i : ι}

/-- The statements which the watcher has left when nobody has requested a shutdown. -/
def Watcher.left : Watcher → ℕ
  | .waiting => 3
  | .clean _ => 2
  | .requested _ => 1
  | .absent | .killed _ | .returned | .exited | .waitFailed => 0

/-- The client waits for a Raft process which is dead. -/
structure WaitsForDead (p : Party ι) : Prop where
  client : p.client = .waitForRaft
  child : ∃ d, p.child = some (.dead d)

/-- The client has left `wait_for_raft`, or has been ended. -/
def Client.past : Client → Bool
  | .running | .ended => true
  | .idle | .stat | .unlink | .create | .construct | .fork | .waitForRaft | .failed
  | .refused => false

omit [DecidableEq ι] in
/-- Somebody is there to end the client. -/
theorem WaitsForDead.left_pos {p : Party ι} (h : WaitsForDead p) (hw : Watched p) :
    0 < p.watcher.left := by
  have hr := hw.quiet (.inr h.client)
  have hs := hw.watcher
  obtain ⟨d, hd⟩ := h.child
  rw [WatcherSound] at hs
  cases hp : p.watcher with
  | waiting | clean status | requested status => simp [Watcher.left]
  | absent =>
      rw [hp] at hs
      cases hd.symm.trans hs
  | killed status | returned =>
      -- both presuppose a request
      rw [hp] at hs
      cases hs.1.symm.trans hr
  | exited =>
      rw [hp] at hs
      cases h.client.symm.trans hs.1
  | waitFailed =>
      rw [hp] at hs
      cases h.client.symm.trans hs

theorem WaitsForDead.enabled (h : WaitsForDead (s.party i)) (hw : Watched (s.party i)) :
    (watcherStep s i).isSome = true := by
  have hpos := h.left_pos hw
  obtain ⟨d, hd⟩ := h.child
  cases hp : (s.party i).watcher <;> simp [hp, Watcher.left] at hpos
  all_goals simp [watcherStep, hp, hd]

/-- The party still waits for its dead Raft process, and the watcher has `n` statements less left,
or the client does not wait any more. -/
def StillWaits (p : Party ι) (n : ℕ) (p' : Party ι) : Prop :=
  WaitsForDead p' ∧ p'.watcher.left + n = p.watcher.left ∨ p'.client.past = true

omit [DecidableEq ι] in
theorem WaitsForDead.stillWaits {p p' : Party ι} (h : WaitsForDead p)
    (hclient : p'.client = p.client) (hchild : p'.child = p.child)
    (hwatcher : p'.watcher = p.watcher) : StillWaits p 0 p' :=
  .inl ⟨⟨hclient.trans h.client, hchild ▸ h.child⟩, by rw [hwatcher, Nat.add_zero]⟩

/-- A step of the party `k`. -/
theorem WaitsForDead.modify (h : WaitsForDead (s.party i)) {k : ι} {f : Party ι → Party ι}
    {n : ℕ} (hk : k ≠ i → n = 0) (hself : k = i → StillWaits (s.party i) n (f (s.party i))) :
    StillWaits (s.party i) n ((s.modify k f).party i) := by
  by_cases hki : k = i
  · subst hki
    rw [modify_party_self]
    exact hself rfl
  · rw [modify_party_of_ne (Ne.symm hki), hk hki]
    exact h.stillWaits rfl rfl rfl

/-- Whatever happens, the client goes on waiting for its dead Raft process, with one statement less
for the watcher if this was one of the watcher's, or it does not wait any more. -/
theorem WaitsForDead.trans (h : WaitsForDead (s.party i)) (hw : Watched (s.party i)) {a : Act ι}
    (ht : Trans path s a s') :
    StillWaits (s.party i) (if a = .watcher i then 1 else 0) (s'.party i) := by
  have hclient := h.client
  have hquiet := hw.quiet (.inr hclient)
  have hpos := h.left_pos hw
  obtain ⟨d, hd⟩ := h.child
  cases ht with
  | init hc | found hc hf | absent hc hf | unlinkFails hc hf | createFails hc hf | constructed hc
  | forked hc | forkFails hc | shutdown hc | kill hc =>
      refine h.modify (fun _ => rfl) ?_
      rintro rfl
      cases hclient.symm.trans hc
  | unlinked hc | created hc =>
      refine h.modify (s := s.setFile _ _) (fun _ => rfl) ?_
      rintro rfl
      cases hclient.symm.trans hc
  | refused hc =>
      refine h.modify (fun _ => rfl) ?_
      rintro rfl
      simp [hclient] at hc
  | returned hc hr => exact h.modify (fun _ => rfl) fun _ => .inr rfl
  | exec hc hp | execFails hc hp | opened hc hf | openFails hc hf | childUnlinkFails hc hf
  | scoreboard hc | noScoreboard hc hf =>
      refine h.modify (fun _ => rfl) ?_
      rintro rfl
      cases hd.symm.trans hc
  | childUnlinked hc =>
      refine h.modify (s := s.setFile _ _) (fun _ => rfl) ?_
      rintro rfl
      cases hd.symm.trans hc
  | refusedChild hc hne | died hc hne =>
      refine h.modify (fun _ => rfl) ?_
      rintro rfl
      exact absurd (Option.some.inj (hc.symm.trans hd)) (hne d)
  | @started k j hc =>
      have hstore : StillWaits (s.party i) 0
          ((s.store j fun seg => { seg with isRaftRunning := true }).party i) :=
        h.modify (fun _ => rfl) fun _ => h.stillWaits rfl rfl rfl
      rw [State.become, modify_party_of_ne]
      · exact hstore
      · rintro rfl
        cases hd.symm.trans hc
  | reaped hp hc | otherExit hp hr =>
      refine h.modify (by simp) ?_
      rintro rfl
      exact .inl ⟨⟨hclient, d, hd⟩, by simp [hp, Watcher.left]⟩
  | cleanExit hp hr | afterRequest hp hr =>
      refine h.modify (by simp) ?_
      rintro rfl
      cases hquiet.symm.trans hr
  | unrequested hp hr => exact h.modify (by simp) fun _ => .inr rfl
  | afterKill hp hk | notKilled hp hk =>
      refine h.modify (by simp) ?_
      rintro rfl
      simp [hp, Watcher.left] at hpos
  | waitFailed hp => exact h.modify (by simp) fun _ => .inr rfl

theorem past_modify (h : (s.party i).client.past = true) {k : ι} {f : Party ι → Party ι}
    (hself : k = i → (f (s.party i)).client.past = true) :
    ((s.modify k f).party i).client.past = true :=
  of_modify (P := fun p => p.client.past = true) hself h

/-- A client which does not wait any more does not come back. -/
theorem past_of_trans (h : (s.party i).client.past = true) {a : Act ι} (ht : Trans path s a s') :
    (s'.party i).client.past = true := by
  cases ht with
  | init hc | found hc hf | absent hc hf | unlinkFails hc hf | createFails hc hf | constructed hc
  | forked hc =>
      refine past_modify h ?_
      rintro rfl
      simp [hc, Client.past] at h
  | unlinked hc | created hc =>
      refine past_modify (s := s.setFile _ _) h ?_
      rintro rfl
      simp [hc, Client.past] at h
  | refused hc =>
      refine past_modify h ?_
      rintro rfl
      rcases hc with hc | hc | hc <;> simp [hc, Client.past] at h
  | childUnlinked hc => exact past_modify (s := s.setFile _ _) h fun _ => h
  | started hc => exact past_modify (past_modify h fun _ => h) fun _ => past_modify h fun _ => h
  | returned hc hr | forkFails hc | unrequested hw hr | notKilled hw hk | waitFailed hw =>
      exact past_modify h fun _ => rfl
  | _ => exact past_modify h fun _ => h

theorem Watcher.left_le (w : Watcher) : w.left ≤ 3 := by
  cases w <;> simp [Watcher.left]

/-- The same for a whole run. -/
theorem WaitsForDead.run (h : WaitsForDead (s.party i)) (hs : (system path stale).Reachable s)
    {sched : List (Act ι)} (hr : (system path stale).run s sched = some s') :
    StillWaits (s.party i) (sched.count (.watcher i)) (s'.party i) := by
  refine Scheduled.run_induction
    (I := fun pre t => StillWaits (s.party i) (pre.count (.watcher i)) (t.party i))
    (h.stillWaits rfl rfl rfl) (fun pre a t u ht hi hstep => ?_) hr
  have htrans : Trans path t a u := trans_of_step hstep
  rcases hi with ⟨hwaits, hleft⟩ | hpast
  · rcases hwaits.trans (watched_of_reachable (hs.run ht) i) htrans with ⟨hw, hl⟩ | hpast
    · refine .inl ⟨hw, ?_⟩
      rw [List.count_append, List.count_singleton]
      simp only [beq_iff_eq]
      omega
    · exact .inr hpast
  · exact .inr (past_of_trans hpast htrans)

end Unrequested

section Witness

/-- `raft_init` up to `wait_for_raft`. -/
def forkRun : List (Act (Fin 1)) :=
  [Act.init 0, Act.client 0, Act.client 0, Act.client 0, Act.client 0]

/-- The Raft process exits normally after a shutdown, and the watcher looks at it. -/
def shutdownRun : List (Act (Fin 1)) :=
  forkRun ++ [Act.child 0, Act.child 0, Act.child 0, Act.child 0, Act.child 0, Act.client 0,
    Act.shutdown 0, Act.die 0 (.exited 0), Act.watcher 0, Act.watcher 0]

theorem watcher_verdict_shutdown : ∃ s : State (Fin 1), (s.party 0).watcher = .returned ∧
    (s.party 0).segment.shutdownRequested = true := by
  obtain ⟨s, hs, hw⟩ := Scheduled.exists_reachable_of_run
    (system (fun _ : Fin 1 => shmPathFlag) fun _ => false) shutdownRun
    (fun s => (s.party 0).watcher = .returned) (by decide +kernel)
  exact ⟨s, hw, ((watcher_verdict hs 0).1 hw).1⟩

end Witness

end Runs

end Libraft.Startup
