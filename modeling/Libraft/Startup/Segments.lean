import Libraft.Startup.System

/-!
# Which segment the Raft process maps

The path of the shared memory file is the only thing the two sides agree upon,
and the client removes whatever it finds there. As long as no client begins to
start while another one with the same path has not yet seen its Raft process
unlink the file, every Raft process maps the segment of its own client.
-/

namespace Libraft.Startup

open Libraft.Foundation

variable {ι : Type*}

/-- The client is about to create its file, or has just done so. -/
def Client.starting : Client → Bool
  | .stat | .unlink | .create | .construct | .fork => true
  | .idle | .waitForRaft | .running | .failed | .refused | .ended => false

/-- The Raft process has not yet unlinked the file. -/
def Child.starting : Child ι → Bool
  | .exec | .openFile _ | .unlink _ _ => true
  | .find _ | .attached _ | .running _ | .dead _ => false

/-- Between the call of `raft_init` and the end of the file name. -/
def Party.starting (p : Party ι) : Bool := p.client.starting || p.child.any Child.starting

/-- The file which a Raft process has mapped. -/
def Child.mapped : Child ι → Option (Option ι)
  | .unlink _ file | .find file => some file
  | .attached owner | .running owner => some (some owner)
  | .exec | .openFile _ | .dead _ => none

/-- Nobody calls `raft_init` while another client is starting with the same path. -/
def Alone (path : ι → CString) (s : State ι) : Act ι → State ι → Prop
  | .init i, _ => ∀ j, path j = path i → (s.party j).starting = false
  | _, _ => True

instance [Fintype ι] (path : ι → CString) (s : State ι) (a : Act ι) (s' : State ι) :
    Decidable (Alone path s a s') :=
  match a with
  | .init i =>
      inferInstanceAs (Decidable (∀ j, path j = path i → (s.party j).starting = false))
  | .client _ | .refuse _ | .forkFails _ | .child _ | .refuseChild _ | .die _ _ | .watcher _
  | .waitFails _ | .shutdown _ | .kill _ =>
      inferInstanceAs (Decidable True)

section Sound

/-- What the position of a client says about its file. -/
def ClientSound (path : ι → CString) (files : CString → Option (Option ι)) (i : ι)
    (p : Party ι) : Prop :=
  match p.client with
  | .idle | .stat => p.child = none
  | .unlink => p.child = none ∧ (files (path i)).isSome = true
  | .create => p.child = none ∧ files (path i) = none
  | .construct => p.child = none ∧ files (path i) = some (some i)
  | .fork => p.child = none ∧ files (path i) = some (some i) ∧ p.segment.shmPath = some (path i)
  | .failed => False
  | .refused => p.child = none
  | .waitForRaft | .ended => True
  | .running => p.segment.isRaftRunning = true

/-- What the position of a Raft process says about the file of its client. -/
def ChildSound (path : ι → CString) (files : CString → Option (Option ι)) (i : ι) :
    Child ι → Prop
  | .exec => files (path i) = some (some i)
  | .openFile p => p = path i ∧ files (path i) = some (some i)
  | .unlink p file => p = path i ∧ file = some i ∧ files (path i) = some (some i)
  | .find file => file = some i ∧ ∀ p, files p ≠ some (some i)
  | .attached owner | .running owner => owner = i ∧ ∀ p, files p ≠ some (some i)
  | .dead d => d.misled = false

/-- What holds of a client, its Raft process and its file. -/
structure PartySound (path : ι → CString) (files : CString → Option (Option ι)) (i : ι)
    (p : Party ι) : Prop where
  client : ClientSound path files i p
  child : ∀ c ∈ p.child, p.segment.shmPath = some (path i) ∧ ChildSound path files i c
  file : ∀ q, files q = some (some i) → q = path i
  running : p.segment.isRaftRunning = true →
    (p.child = some (.running i) ∨ ∃ d, p.child = some (.dead d) ∧ d.ran = some i) ∧
      ∀ q, files q ≠ some (some i)

/-- Only the one client which is starting with a path touches it. -/
structure Sound (path : ι → CString) (s : State ι) : Prop where
  exclusive : ∀ i j, (s.party i).starting = true → (s.party j).starting = true →
    path i = path j → i = j
  party : ∀ i, PartySound path s.files i (s.party i)

variable {path : ι → CString} {files files' : CString → Option (Option ι)} {i : ι} {p : Party ι}

/-- What others do to the files of other paths. -/
theorem PartySound.frame (h : PartySound path files i p)
    (hpath : p.starting = true → files' (path i) = files (path i))
    (hnew : ∀ q, files' q = some (some i) → files q = some (some i)) :
    PartySound path files' i p where
  client := by
    have hc := h.client
    unfold ClientSound at hc ⊢
    cases hp : p.client with
    | unlink | create | construct | fork =>
        rw [hp] at hc
        rw [hpath (by simp [Party.starting, hp, Client.starting])]
        exact hc
    | idle | stat | waitForRaft | running | failed | refused | ended =>
        rw [hp] at hc
        exact hc
  child := by
    intro c hc
    obtain ⟨hshm, hsound⟩ := h.child c hc
    refine ⟨hshm, ?_⟩
    have hgone : (∀ q, files q ≠ some (some i)) → ∀ q, files' q ≠ some (some i) :=
      fun hq q hq' => hq q (hnew q hq')
    have hstart : c.starting = true → files' (path i) = files (path i) := by
      intro hs
      rw [Option.mem_def] at hc
      exact hpath (by simp [Party.starting, hc, hs])
    cases c with
    | exec => exact (hstart rfl).trans hsound
    | openFile q => exact ⟨hsound.1, (hstart rfl).trans hsound.2⟩
    | unlink q file => exact ⟨hsound.1, hsound.2.1, (hstart rfl).trans hsound.2.2⟩
    | find file => exact ⟨hsound.1, hgone hsound.2⟩
    | attached owner => exact ⟨hsound.1, hgone hsound.2⟩
    | running owner => exact ⟨hsound.1, hgone hsound.2⟩
    | dead d => exact hsound
  file := fun q hq => h.file q (hnew q hq)
  running := fun hr => ⟨(h.running hr).1, fun q hq => (h.running hr).2 q (hnew q hq)⟩

theorem PartySound.file_update (h : PartySound path files i p) (file : Option (Option ι)) :
    ∀ q, Function.update files (path i) file q = some (some i) → q = path i := by
  intro q hq
  by_cases hqi : q = path i
  · exact hqi
  · exact h.file q (by rwa [Function.update_of_ne hqi] at hq)

/-- A Raft process exists only behind `fork`, where the client does not look at its file. -/
theorem PartySound.client_of_child (h : PartySound path files i p) {c : Child ι}
    (hc : p.child = some c) (c' : Child ι) :
    ClientSound path files' i { p with child := some c' } := by
  have hp := h.client
  unfold ClientSound at hp ⊢
  cases hcl : p.client <;> simp_all

/-- The Raft process goes on. -/
theorem PartySound.become (h : PartySound path files i p) {c c' : Child ι}
    (hc : p.child = some c) (hnew : ∀ q, files' q = some (some i) → files q = some (some i))
    (hsound : ChildSound path files' i c') (hrun : ∀ owner, c ≠ .running owner)
    (hdead : ∀ d, c ≠ .dead d) : PartySound path files' i { p with child := some c' } where
  client := h.client_of_child hc c'
  child := by
    rintro c'' hc''
    cases hc''
    exact ⟨(h.child c hc).1, hsound⟩
  file := fun q hq => h.file q (hnew q hq)
  running := by
    intro hr
    rcases (h.running hr).1 with hc' | ⟨d, hc', -⟩
    · exact absurd (Option.some.inj (hc.symm.trans hc')) (hrun i)
    · exact absurd (Option.some.inj (hc.symm.trans hc')) (hdead d)

/-- The watcher, or a flag which the watcher reads, changes. -/
theorem PartySound.of_eq (h : PartySound path files i p) {p' : Party ι}
    (hclient : p'.client = p.client) (hchild : p'.child = p.child)
    (hrun : p'.segment.isRaftRunning = p.segment.isRaftRunning)
    (hpath : p'.segment.shmPath = p.segment.shmPath) : PartySound path files i p' where
  client := by
    have hc := h.client
    unfold ClientSound at hc ⊢
    rwa [hclient, hchild, hrun, hpath]
  child := by
    rw [hchild, hpath]
    exact h.child
  file := h.file
  running := by
    rw [hrun, hchild]
    exact h.running

theorem starting_of_client {c : Client} (hc : p.client = c) (hs : c.starting = true) :
    p.starting = true := by
  simp [Party.starting, hc, hs]

theorem starting_of_child {c : Child ι} (hc : p.child = some c) (hs : c.starting = true) :
    p.starting = true := by
  simp [Party.starting, hc, hs]

/-- Without a Raft process nothing is known about one. -/
theorem PartySound.child_of_none {P : Child ι → Prop} (hc : p.child = none) :
    ∀ c ∈ p.child, P c := by
  rw [hc]
  rintro c hc
  cases hc

theorem PartySound.not_running (h : PartySound path files i p) (hc : p.child = none) :
    p.segment.isRaftRunning = false := by
  by_contra hr
  rcases (h.running (by simpa using hr)).1 with hc' | ⟨d, hc', -⟩
  · rw [hc] at hc'
    cases hc'
  · rw [hc] at hc'
    cases hc'

theorem PartySound.mapped (h : PartySound path files i p) {c : Child ι} {file : Option ι}
    (hc : p.child = some c) (hm : c.mapped = some file) : file = some i := by
  have hsound := (h.child c hc).2
  cases c with
  | exec | openFile q | dead d => cases hm
  | unlink q f => exact (Option.some.inj hm).symm.trans hsound.2.1
  | find f => exact (Option.some.inj hm).symm.trans hsound.1
  | attached owner | running owner =>
      exact (Option.some.inj hm).symm.trans (congrArg some hsound.1)

variable [DecidableEq ι] {s : State ι}

/-- A step of the party `i`, which touches the file of its path only while it is starting. -/
theorem Sound.update (h : Sound path s)
    (hstart : p.starting = true → (s.party i).starting = true)
    (hother : ∀ q, q ≠ path i → files' q = s.files q)
    (hown : files' (path i) = s.files (path i) ∨
      (s.party i).starting = true ∧ ∀ k, k ≠ i → files' (path i) ≠ some (some k))
    (hp : PartySound path files' i p) : Sound path ⟨files', Function.update s.party i p⟩ where
  exclusive := by
    have hback : ∀ k, (Function.update s.party i p k).starting = true →
        (s.party k).starting = true := by
      intro k hk
      by_cases hki : k = i
      · subst hki
        rw [Function.update_self] at hk
        exact hstart hk
      · rwa [Function.update_of_ne hki] at hk
    exact fun j k hj hk hjk => h.exclusive j k (hback j hj) (hback k hk) hjk
  party := by
    intro k
    dsimp only
    by_cases hki : k = i
    · subst hki
      rwa [Function.update_self]
    · rw [Function.update_of_ne hki]
      refine (h.party k).frame ?_ ?_
      · intro hk
        by_cases hpath : path k = path i
        · rcases hown with hsame | ⟨hi, -⟩
          · rw [hpath, hsame]
          · exact absurd (h.exclusive k i hk hi hpath) hki
        · exact hother _ hpath
      · intro q hq
        by_cases hqi : q = path i
        · subst hqi
          rcases hown with hsame | ⟨-, hne⟩
          · rwa [hsame] at hq
          · exact absurd hq (hne k hki)
        · rwa [hother q hqi] at hq

/-- A step which does not touch the files. -/
theorem Sound.modify (h : Sound path s) {f : Party ι → Party ι}
    (hstart : (f (s.party i)).starting = true → (s.party i).starting = true)
    (hp : PartySound path s.files i (f (s.party i))) : Sound path (s.modify i f) :=
  h.update hstart (fun _ _ => rfl) (.inl rfl) hp

/-- A step which changes what stands at the path. -/
theorem Sound.setFile (h : Sound path s) (hs : (s.party i).starting = true)
    {file : Option (Option ι)} (hfile : ∀ k, k ≠ i → file ≠ some (some k)) {f : Party ι → Party ι}
    (hp : PartySound path (Function.update s.files (path i) file) i (f (s.party i))) :
    Sound path ((s.setFile (path i) file).modify i f) := by
  refine h.update (fun _ => hs) (fun q hq => Function.update_of_ne hq ..) (.inr ⟨hs, ?_⟩) hp
  intro k hk
  rw [State.setFile]
  dsimp only
  rw [Function.update_self]
  exact hfile k hk

/-- The Raft process ends, but not because it has missed the file of its client. -/
theorem Sound.bury (h : Sound path s) {c : Child ι} (hc : (s.party i).child = some c)
    (status : Status) : Sound path (s.bury i status false) := by
  have hp := h.party i
  refine h.modify ?_ ⟨hp.client_of_child hc _, ?_, hp.file, ?_⟩
  · intro hs
    have hs : (s.party i).client.starting = true := by
      simpa [Party.starting, Child.starting] using hs
    simp [Party.starting, hs]
  · rintro c' hc'
    cases hc'
    exact ⟨(hp.child c hc).1, rfl⟩
  · intro hr
    obtain ⟨hrun, hgone⟩ := hp.running hr
    refine ⟨.inr ⟨_, rfl, ?_⟩, hgone⟩
    rcases hrun with hrun | ⟨d, hrun, hran⟩
    · simp [hrun, Child.ran]
    · simpa [hrun, Child.ran] using hran

theorem Sound.of_eq (h : Sound path s) {f : Party ι → Party ι}
    (hclient : (f (s.party i)).client = (s.party i).client)
    (hchild : (f (s.party i)).child = (s.party i).child)
    (hrun : (f (s.party i)).segment.isRaftRunning = (s.party i).segment.isRaftRunning)
    (hpath : (f (s.party i)).segment.shmPath = (s.party i).segment.shmPath) :
    Sound path (s.modify i f) := by
  refine h.modify ?_ ((h.party i).of_eq hclient hchild hrun hpath)
  rw [Party.starting, Party.starting, hclient, hchild]
  exact id

/-- The client of a path at which it is starting goes on. -/
theorem Sound.goto (h : Sound path s) (hs : (s.party i).starting = true) {client : Client}
    (hc : ClientSound path s.files i { s.party i with client := client }) :
    Sound path (s.goto i client) :=
  h.modify (fun _ => hs) ⟨hc, (h.party i).child, (h.party i).file, (h.party i).running⟩

/-- The client leaves `raft_init`. -/
theorem Sound.leave (h : Sound path s) {f : Party ι → Party ι}
    (hclient : (f (s.party i)).client.starting = false)
    (hchild : (f (s.party i)).child = (s.party i).child)
    (hseg : (f (s.party i)).segment = (s.party i).segment)
    (hc : ClientSound path s.files i (f (s.party i))) : Sound path (s.modify i f) := by
  refine h.modify ?_ ⟨hc, ?_, (h.party i).file, ?_⟩
  · rw [Party.starting, hclient, hchild, Bool.false_or]
    exact fun hs => by simp [Party.starting, hs]
  · rw [hchild, hseg]
    exact (h.party i).child
  · rw [hchild, hseg]
    exact (h.party i).running

theorem Sound.init (h : Sound path s) (hc : (s.party i).client = .idle)
    (ha : ∀ j, path j = path i → (s.party j).starting = false) : Sound path (s.goto i .stat) := by
  have hback : ∀ k, k ≠ i → ((s.goto i .stat).party k) = s.party k :=
    fun k hk => modify_party_of_ne hk _
  refine ⟨?_, ?_⟩
  · intro j k hj hk hjk
    by_cases hji : j = i <;> by_cases hki : k = i
    · rw [hji, hki]
    · rw [hback k hki, ha k (hjk ▸ hji ▸ rfl)] at hk
      cases hk
    · rw [hback j hji, ha j (hjk.trans (hki ▸ rfl))] at hj
      cases hj
    · rw [hback j hji] at hj
      rw [hback k hki] at hk
      exact h.exclusive j k hj hk hjk
  · intro k
    by_cases hki : k = i
    · subst hki
      have hp := (h.party k).client
      rw [ClientSound, hc] at hp
      rw [State.goto, modify_party_self]
      exact ⟨hp, (h.party k).child, (h.party k).file, (h.party k).running⟩
    · rw [hback k hki]
      exact h.party k

theorem Sound.trans (h : Sound path s) {a : Act ι} {s' : State ι} (ht : Trans path s a s')
    (ha : Alone path s a s') : Sound path s' := by
  cases ht with
  | init hc => exact h.init hc ha
  | @found i hc hf =>
      have hp := (h.party i).client
      rw [ClientSound, hc] at hp
      exact h.goto (starting_of_client hc rfl) ⟨hp, hf⟩
  | @absent i hc hf =>
      have hp := (h.party i).client
      rw [ClientSound, hc] at hp
      exact h.goto (starting_of_client hc rfl) ⟨hp, hf⟩
  | @unlinked i hc =>
      have hp := (h.party i).client
      rw [ClientSound, hc] at hp
      refine h.setFile (starting_of_client hc rfl) (by simp) ⟨⟨hp.1, Function.update_self ..⟩,
        PartySound.child_of_none hp.1, (h.party i).file_update none, fun hr => ?_⟩
      exact absurd (((h.party i).not_running hp.1).symm.trans hr) (by simp)
  | @unlinkFails i hc hf =>
      have hp := (h.party i).client
      rw [ClientSound, hc] at hp
      simp [hf] at hp
  | @created i hc =>
      have hp := (h.party i).client
      rw [ClientSound, hc] at hp
      refine h.setFile (starting_of_client hc rfl) (fun k hk => by simpa using hk.symm)
        ⟨⟨hp.1, Function.update_self ..⟩, PartySound.child_of_none hp.1,
          (h.party i).file_update _, fun hr => ?_⟩
      cases hr
  | @createFails i hc hf =>
      have hp := (h.party i).client
      rw [ClientSound, hc] at hp
      simp [hp.2] at hf
  | @constructed i hc =>
      have hp := (h.party i).client
      rw [ClientSound, hc] at hp
      exact h.modify (fun _ => starting_of_client hc rfl)
        ⟨⟨hp.1, hp.2, rfl⟩, PartySound.child_of_none hp.1, (h.party i).file, (h.party i).running⟩
  | @forked i hc =>
      have hp := (h.party i).client
      rw [ClientSound, hc] at hp
      refine h.modify (fun _ => starting_of_client hc rfl)
        ⟨trivial, fun c hc => ?_, (h.party i).file, fun hr => ?_⟩
      · cases hc
        exact ⟨hp.2.2, hp.2.1⟩
      · exact absurd (((h.party i).not_running hp.1).symm.trans hr) (by simp)
  | @refused i hc =>
      have hp := (h.party i).client
      refine h.goto ?_ ?_
      · rcases hc with hc | hc | hc <;> exact starting_of_client hc rfl
      · unfold ClientSound at hp
        rcases hc with hc | hc | hc <;> rw [hc] at hp
        · exact hp
        · exact hp.1
        · exact hp.1
  | @forkFails i hc => exact h.goto (starting_of_client hc rfl) trivial
  | returned hc hr => exact h.leave rfl rfl rfl hr
  | @exec i p hc hp =>
      obtain ⟨hpath, hfile⟩ := (h.party i).child _ hc
      refine h.modify (fun _ => starting_of_child hc rfl)
        ((h.party i).become hc (fun _ => id) ⟨?_, hfile⟩ (by simp) (by simp))
      exact Option.some.inj (hp.symm.trans hpath)
  | @execFails i hc hp => exact h.bury hc abort
  | @opened i p file hc hf =>
      obtain ⟨-, rfl, hfile⟩ := (h.party i).child _ hc
      refine h.modify (fun _ => starting_of_child hc rfl)
        ((h.party i).become hc (fun _ => id) ⟨rfl, ?_, hfile⟩ (by simp) (by simp))
      exact Option.some.inj (hf.symm.trans hfile)
  | @openFails i p hc hf =>
      obtain ⟨-, rfl, hfile⟩ := (h.party i).child _ hc
      rw [hf] at hfile
      cases hfile
  | @childUnlinked i p file hc =>
      obtain ⟨-, rfl, rfl, hfile⟩ := (h.party i).child _ hc
      have hs := starting_of_child hc rfl
      have hgone : ∀ q, Function.update s.files (path i) none q ≠ some (some i) := by
        intro q hq
        by_cases hqi : q = path i
        · simp [hqi] at hq
        · rw [Function.update_of_ne hqi] at hq
          exact hqi ((h.party i).file q hq)
      exact h.setFile hs (by simp)
        ((h.party i).become hc (fun q hq => absurd hq (hgone q)) ⟨rfl, hgone⟩ (by simp) (by simp))
  | @childUnlinkFails i p file hc hf =>
      obtain ⟨-, rfl, -, hfile⟩ := (h.party i).child _ hc
      rw [hf] at hfile
      cases hfile
  | @scoreboard i j hc =>
      obtain ⟨-, hj, hgone⟩ := (h.party i).child _ hc
      refine h.modify ?_ ((h.party i).become hc (fun _ => id) ⟨Option.some.inj hj, hgone⟩ (by simp)
        (by simp))
      simp [Party.starting, hc, Child.starting]
  | @noScoreboard i file hc hf =>
      obtain ⟨hpath, rfl, -⟩ := (h.party i).child _ hc
      simp [hpath] at hf
  | @started i j hc =>
      obtain ⟨hpath, rfl, hgone⟩ := (h.party i).child _ hc
      have heq : (s.store j fun seg => { seg with isRaftRunning := true }).become j (.running j) =
          s.modify j fun p => { p with
            segment := { p.segment with isRaftRunning := true }, child := some (.running j) } := by
        simp [State.store, State.become, State.modify]
      rw [heq]
      refine h.modify ?_ ⟨?_, ?_, (h.party j).file, fun _ => ⟨.inl rfl, hgone⟩⟩
      · simp [Party.starting, hc, Child.starting]
      · have hcl := (h.party j).client
        unfold ClientSound at hcl ⊢
        cases hp : (s.party j).client <;> simp_all
      · rintro c hc'
        cases hc'
        exact ⟨hpath, rfl, hgone⟩
  | @refusedChild i c status hc hd | @died i c status hc hd => exact h.bury hc status
  | reaped hw hc | cleanExit hw hr | otherExit hw hr | afterRequest hw hr | afterKill hw hk =>
      exact h.of_eq rfl rfl rfl rfl
  | unrequested hw hr | notKilled hw hk | waitFailed hw => exact h.leave rfl rfl rfl trivial
  | shutdown hc | kill hc => exact h.of_eq rfl rfl rfl rfl

end Sound

section Runs

variable [DecidableEq ι] {path : ι → CString} {stale : CString → Bool} {s : State ι} {i j : ι}

omit [DecidableEq ι] in
theorem sound_initial (path : ι → CString) (stale : CString → Bool) :
    Sound path (initial stale : State ι) where
  exclusive := fun _ _ hi => absurd hi (by simp [initial, Party.starting, Client.starting])
  party := by
    intro i
    have hfile : ∀ q, (initial stale : State ι).files q ≠ some (some i) := by
      intro q
      unfold initial
      dsimp only
      split_ifs <;> simp
    refine ⟨rfl, PartySound.child_of_none rfl, fun q hq => absurd hq (hfile q), fun hr => ?_⟩
    cases hr

theorem sound_of_reach (h : (system path stale).Reach (Alone path) s) : Sound path s :=
  h.invariant (I := Sound path) (sound_initial path stale)
    fun _ _ _ _ hs ht ha => hs.trans (trans_of_step ht) ha

/-- `raft_init` is called and returns. -/
def startRun (i : ι) : List (Act ι) :=
  [Act.init i, Act.client i, Act.client i, Act.client i, Act.client i, Act.child i, Act.child i,
    Act.child i, Act.child i, Act.child i, Act.client i]

theorem reach_alone_of_injective (hpath : Function.Injective path)
    (h : (system path stale).Reachable s) : (system path stale).Reach (Alone path) s := by
  refine h.invariant (I := (system path stale).Reach (Alone path)) .init ?_
  intro s a t _ hs ht _
  refine .step hs ht ?_
  cases a with
  | init i =>
      intro j hj
      obtain rfl : j = i := hpath hj
      have ht : (if (s.party j).client = .idle then some (s.goto j .stat) else none) = some t := ht
      split_ifs at ht with hc
      have hp := ((sound_of_reach hs).party j).client
      rw [ClientSound, hc] at hp
      simp [Party.starting, hc, Client.starting, show (s.party j).child = none from hp]
  | _ => trivial

theorem goto_client (s : State ι) (i : ι) (c : Client) : ((s.goto i c).party i).client = c := by
  rw [State.goto, modify_party_self]

theorem clientStep_stat (hc : (s.party i).client = .stat) : clientStep path s i =
    some (s.goto i (if (s.files (path i)).isSome then .unlink else .create)) := by
  simp only [clientStep, hc]

theorem clientStep_unlink (hc : (s.party i).client = .unlink)
    (hf : (s.files (path i)).isSome = true) :
    clientStep path s i = some ((s.setFile (path i) none).goto i .create) := by
  simp only [clientStep, hc, hf, if_true]

theorem clientStep_create (hc : (s.party i).client = .create) (hf : s.files (path i) = none) :
    clientStep path s i = some ((s.setFile (path i) (some (some i))).modify i fun p =>
      { p with client := .construct, segment := .zero }) := by
  simp only [clientStep, hc, hf, Option.isSome_none, Bool.false_eq_true, if_false]

theorem reachable_of_clientStep {s' : State ι} (h : (system path stale).Reachable s)
    (hs : clientStep path s i = some s') : (system path stale).Reachable s' :=
  h.next (a := .client i) hs

/-- The client has gone through the removal of an old file, or has found none. -/
theorem exists_create (h : (system path stale).Reachable s) (hc : (s.party i).client = .idle) :
    ∃ s', (system path stale).Reachable s' ∧ (s'.party i).client = .create ∧
      s'.files (path i) = none ∧ ∀ k, k ≠ i → s'.party k = s.party k := by
  have hstat : (system path stale).Reachable (s.goto i .stat) := h.next (a := .init i) (if_pos hc)
  have hnext := reachable_of_clientStep hstat (clientStep_stat (goto_client s i .stat))
  have hother : ∀ c, ∀ k, k ≠ i → ((s.goto i .stat).goto i c).party k = s.party k := by
    intro c k hk
    rw [State.goto, modify_party_of_ne hk, State.goto, modify_party_of_ne hk]
  cases hf : s.files (path i) with
  | none =>
      rw [show (s.goto i .stat).files (path i) = none from hf] at hnext
      exact ⟨_, hnext, goto_client .., hf, hother .create⟩
  | some f =>
      rw [show (s.goto i .stat).files (path i) = some f from hf] at hnext
      refine ⟨_, reachable_of_clientStep hnext (clientStep_unlink (goto_client ..) ?_),
        goto_client .., Function.update_self .., ?_⟩
      · exact congrArg Option.isSome hf
      · intro k hk
        rw [State.goto, modify_party_of_ne hk]
        exact hother .unlink k hk

/-- A client can always be brought to the point where its file is at its path. -/
theorem exists_fork (h : (system path stale).Reachable s) (hc : (s.party i).client = .idle) :
    ∃ s', (system path stale).Reachable s' ∧ s'.files (path i) = some (some i) ∧
      (s'.party i).client = .fork ∧ (s'.party i).segment.shmPath = some (path i) ∧
      ∀ k, k ≠ i → s'.party k = s.party k := by
  obtain ⟨t, ht, htc, htf, hto⟩ := exists_create h hc
  have hcreated := reachable_of_clientStep ht (clientStep_create htc htf)
  refine ⟨(t.setFile (path i) (some (some i))).modify i fun p => { p with
    client := .fork, segment := { Segment.zero with shmPath := some (path i) } },
    reachable_of_clientStep (i := i) hcreated ?_, Function.update_self .., ?_, ?_, ?_⟩
  · simp [clientStep, State.modify, Segment.zero]
  · rw [modify_party_self]
  · rw [modify_party_self]
  · intro k hk
    rw [modify_party_of_ne hk]
    exact hto k hk

/-- Every Raft process maps the segment of its own client, in whatever way the starts overlap,
if and only if no two clients use the same path. Each path is one at which a file can be
created. -/
theorem raft_maps_own_segment_iff (path : ι → CString) (stale : CString → Bool) :
    (∀ s, (system path stale).Reachable s → ∀ i c file, (s.party i).child = some c →
      c.mapped = some file → file = some i) ↔ Function.Injective path := by
  constructor
  · intro hown i j hij
    by_contra hne
    -- `i` forks, and `j` replaces the file before the child of `i` opens it
    obtain ⟨s, hs, hsf, hsc, hsp, hso⟩ := exists_fork (i := i)
      (.init : (system path stale).Reachable (initial stale)) rfl
    have hfork : (system path stale).Reachable (s.modify i fun p =>
        { p with client := .waitForRaft, child := some .exec, watcher := .waiting }) :=
      hs.next (a := .client i) (by simp only [system, step, clientStep, hsc])
    have hidle : ((s.modify i fun p => { p with
        client := .waitForRaft, child := some .exec, watcher := .waiting }).party j).client =
        .idle := by
      rw [modify_party_of_ne (Ne.symm hne), hso j (Ne.symm hne)]
      rfl
    obtain ⟨t, ht, htf, -, -, hto⟩ := exists_fork hfork hidle
    have hti := hto i hne
    rw [modify_party_self] at hti
    have hexec : (system path stale).Reachable (t.become i (.openFile (path i))) := by
      refine ht.next (a := .child i) ?_
      simp only [system, step, childStep, hti, hsp, Option.bind_some, shmPathArg_buildRaftArgv]
    have hopen : (system path stale).Reachable
        ((t.become i (.openFile (path i))).become i (.unlink (path i) (some j))) := by
      refine hexec.next (a := .child i) ?_
      have hfile : (t.become i (.openFile (path i))).files (path i) = some (some j) := hij ▸ htf
      simp only [system, step, childStep, State.become, modify_party_self]
      simp only [State.become] at hfile
      rw [hfile]
    have hj := hown _ hopen i (.unlink (path i) (some j)) (some j)
      (by rw [State.become, modify_party_self]) rfl
    exact hne (Option.some.inj hj).symm
  · intro hpath s hs i
    have hp := (sound_of_reach (reach_alone_of_injective hpath hs)).party i
    intro c file hc hm
    exact hp.mapped hc hm

end Runs

end Libraft.Startup
