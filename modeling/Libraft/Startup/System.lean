import Libraft.Foundation.CString
import Libraft.Foundation.Scheduled

/-!
# Starting the Raft process

`raft_init` up to its return, for any number of client processes on one file
system: `shm_init` of the client and of the Raft side, `run_raft` with
`build_raft_argv`, `wait_for_raft`, and `watch_raft_proc`, which decides what
becomes of the client when its Raft process ends.

## Implementation notes

Every client process starts the library once. A file is named by the client
which has created it, and files which were there before by nobody; an unlinked
file lives on in the processes which have mapped it. The Raft side is the child
of its client. It maps the file which its command line names, and then says that
it is running; it may end at any time. The operating system may refuse any of
the operations on files, `execvp`, `fork` and `waitpid`, for reasons which are
not modelled. What is printed is left out.

`is_raft_running` is not initialised by the constructor of the scoreboard. It
is zero because the pages of a new file are.
-/

namespace Libraft.Startup

open Libraft.Foundation

/-- How a process has ended, as `waitpid` reports it. -/
inductive Status
  | exited (code : UInt8)
  | signaled (signal : ℕ)
  deriving DecidableEq, Repr

/-- Where the client stands in `raft_init`. -/
inductive Client
  /-- before the call -/
  | idle
  /-- `stat(path, &shm_stat)` -/
  | stat
  /-- `unlink(path)` -/
  | unlink
  /-- `managed_mapped_file(create_only, path, shm_size)` -/
  | create
  /-- the construction of the scoreboard and of the shared configuration -/
  | construct
  /-- `run_raft` -/
  | fork
  | waitForRaft
  /-- `raft_init` has returned -/
  | running
  /-- `exit(1)` in `shm_init`: the file to be removed is gone, or there is one again -/
  | failed
  /-- `exit(1)` in `shm_init`: the system has refused an operation -/
  | refused
  /-- `exit(1)` in `run_raft` or in the watcher -/
  | ended
  deriving DecidableEq, Repr

/-- The end of a Raft process. All but the status is history. -/
structure Death (ι : Type*) where
  status : Status
  /-- its own `shm_init` has not found what its client has made -/
  misled : Bool
  /-- the client in whose scoreboard it has set `is_raft_running` -/
  ran : Option ι
  /-- `shutdown_requested` at that time -/
  requested : Bool
  /-- `raft_killed` at that time -/
  killed : Bool
  deriving DecidableEq

/-- Where the Raft process stands; a file is given by its creator. -/
inductive Child (ι : Type*)
  /-- behind `fork`, before `execvp` -/
  | exec
  /-- `managed_mapped_file(open_only, path)` -/
  | openFile (path : CString)
  /-- `unlink(path)` -/
  | unlink (path : CString) (file : Option ι)
  /-- the search for the configuration and the scoreboard -/
  | find (file : Option ι)
  /-- before it sets `is_raft_running` -/
  | attached (owner : ι)
  | running (owner : ι)
  | dead (death : Death ι)
  deriving DecidableEq

/-- Where the watcher stands in `watch_raft_proc`. -/
inductive Watcher
  /-- the thread has not been started -/
  | absent
  /-- `waitpid(raft_pid, &status, 0)` -/
  | waiting
  /-- `shutdown_requested && WIFEXITED(status) && WEXITSTATUS(status) == 0` -/
  | clean (status : Status)
  /-- `shutdown_requested` of the second condition -/
  | requested (status : Status)
  /-- `raft_killed` -/
  | killed (status : Status)
  | returned
  /-- `exit(1)` -/
  | exited
  /-- `exit(1)` because `waitpid` has failed -/
  | waitFailed
  deriving DecidableEq, Repr

/-- The shared segment: the flags of the scoreboard, and `shm_path` of the
configuration once both are constructed. -/
structure Segment where
  isRaftRunning : Bool
  shutdownRequested : Bool
  raftKilled : Bool
  shmPath : Option CString
  deriving DecidableEq

/-- The pages of a new file. -/
def Segment.zero : Segment := ⟨false, false, false, none⟩

/-- A client, the segment in the file it creates, its Raft process and its watcher. -/
structure Party (ι : Type*) where
  client : Client
  segment : Segment
  child : Option (Child ι)
  watcher : Watcher

/-- The file system and the clients. -/
structure State (ι : Type*) where
  files : CString → Option (Option ι)
  party : ι → Party ι

/-- Some files are left from earlier runs. -/
def initial {ι : Type*} (stale : CString → Bool) : State ι where
  files := fun p => if stale p then some none else none
  party := fun _ => ⟨.idle, .zero, none, .absent⟩

/-- `"raft_if"`. -/
def raftIf : CString := .ascii "raft_if".toList

/-- `"--shm-path"`. -/
def shmPathFlag : CString := .ascii "--shm-path".toList

/-- `build_raft_argv`. -/
def buildRaftArgv (shmPath : CString) : List (Option CString) :=
  [some raftIf, some shmPathFlag, some shmPath, none]

/-- The argument behind `--shm-path`, with which the Raft process calls `shm_init`. -/
def shmPathArg : List (Option CString) → Option CString
  | some flag :: some arg :: rest =>
      if flag = shmPathFlag then some arg else shmPathArg (some arg :: rest)
  | _ => none

inductive Act (ι : Type*)
  /-- `raft_init` is called -/
  | init (i : ι)
  /-- the next statement of the client -/
  | client (i : ι)
  /-- the system refuses what the client asks for in `shm_init` -/
  | refuse (i : ι)
  /-- `fork` fails -/
  | forkFails (i : ι)
  /-- the next statement of the Raft process -/
  | child (i : ι)
  /-- the system refuses what the child asks for in `run_raft` and in `shm_init` -/
  | refuseChild (i : ι)
  /-- the Raft process ends for a reason of its own -/
  | die (i : ι) (status : Status)
  /-- the next statement of the watcher -/
  | watcher (i : ι)
  /-- `waitpid` fails -/
  | waitFails (i : ι)
  /-- `raft_shutdown` -/
  | shutdown (i : ι)
  /-- `kill_raft_` -/
  | kill (i : ι)
  deriving DecidableEq

section Step
variable {ι : Type*} [DecidableEq ι]

def State.modify (s : State ι) (i : ι) (f : Party ι → Party ι) : State ι :=
  { s with party := Function.update s.party i (f (s.party i)) }

theorem modify_party_self (s : State ι) (i : ι) (f : Party ι → Party ι) :
    (s.modify i f).party i = f (s.party i) :=
  Function.update_self ..

theorem modify_party_of_ne {s : State ι} {i k : ι} (hk : k ≠ i) (f : Party ι → Party ι) :
    (s.modify i f).party k = s.party k :=
  Function.update_of_ne hk ..

/-- What held of a party still holds after a step of party `k`, if it holds of the new party `k`
as well. -/
theorem of_modify {P : Party ι → Prop} {s : State ι} {i k : ι} {f : Party ι → Party ι}
    (hself : k = i → P (f (s.party i))) (hold : P (s.party i)) : P ((s.modify k f).party i) := by
  by_cases hki : k = i
  · subst hki
    rw [modify_party_self]
    exact hself rfl
  · rwa [modify_party_of_ne (Ne.symm hki)]

/-- A store to the segment in the file of a client. -/
def State.store (s : State ι) (i : ι) (f : Segment → Segment) : State ι :=
  s.modify i fun p => { p with segment := f p.segment }

/-- The client goes on. -/
def State.goto (s : State ι) (i : ι) (client : Client) : State ι :=
  s.modify i fun p => { p with client := client }

/-- The Raft process goes on. -/
def State.become (s : State ι) (i : ι) (child : Child ι) : State ι :=
  s.modify i fun p => { p with child := some child }

/-- The watcher goes on. -/
def State.watch (s : State ι) (i : ι) (watcher : Watcher) : State ι :=
  s.modify i fun p => { p with watcher := watcher }

/-- The watcher ends the process. -/
def State.exit (s : State ι) (i : ι) (watcher : Watcher) : State ι :=
  s.modify i fun p => { p with client := .ended, watcher := watcher }

/-- The client in whose scoreboard the process has set `is_raft_running`. -/
def Child.ran : Child ι → Option ι
  | .running owner => some owner
  | .dead d => d.ran
  | .exec | .openFile _ | .unlink _ _ | .find _ | .attached _ => none

/-- The Raft process ends. -/
def State.bury (s : State ι) (i : ι) (status : Status) (misled : Bool) : State ι :=
  s.modify i fun p => { p with child := some (.dead ⟨status, misled, p.child.bind Child.ran,
    p.segment.shutdownRequested, p.segment.raftKilled⟩) }

def State.setFile (s : State ι) (path : CString) (file : Option (Option ι)) : State ι :=
  { s with files := Function.update s.files path file }

/-- `SIGABRT`, of a failed assertion or an exception which nobody catches. -/
def abort : Status := .signaled 6

/-- The next statement of `raft_init`. -/
def clientStep (path : ι → CString) (s : State ι) (i : ι) : Option (State ι) :=
  match (s.party i).client with
  | .stat => some (s.goto i (if (s.files (path i)).isSome then .unlink else .create))
  | .unlink =>
      some (if (s.files (path i)).isSome then (s.setFile (path i) none).goto i .create
        else s.goto i .failed)
  | .create =>
      some (if (s.files (path i)).isSome then s.goto i .failed
        else (s.setFile (path i) (some (some i))).modify i fun p =>
          { p with client := .construct, segment := .zero })
  | .construct =>
      some (s.modify i fun p =>
        { p with
          client := .fork
          segment := { p.segment with
            shutdownRequested := false, raftKilled := false, shmPath := some (path i) } })
  | .fork =>
      some (s.modify i fun p =>
        { p with client := .waitForRaft, child := some .exec, watcher := .waiting })
  | .waitForRaft => if (s.party i).segment.isRaftRunning then some (s.goto i .running) else none
  | .idle | .running | .failed | .refused | .ended => none

/-- The system refuses `stat`, `unlink` or the creation of the file. -/
def refuseStep (s : State ι) (i : ι) : Option (State ι) :=
  match (s.party i).client with
  | .stat | .unlink | .create => some (s.goto i .refused)
  | .idle | .construct | .fork | .waitForRaft | .running | .failed | .refused | .ended => none

/-- The next statement of the Raft process: the end of `run_raft` and `shm_init`. -/
def childStep (s : State ι) (i : ι) : Option (State ι) :=
  match (s.party i).child with
  | some .exec =>
      match (s.party i).segment.shmPath.bind fun p => shmPathArg (buildRaftArgv p) with
      | some path => some (s.become i (.openFile path))
      | none => some (s.bury i abort false)
  | some (.openFile path) =>
      match s.files path with
      | some file => some (s.become i (.unlink path file))
      | none => some (s.bury i abort true)
  | some (.unlink path file) =>
      some (if (s.files path).isSome then (s.setFile path none).become i (.find file)
        else s.bury i (.exited 1) true)
  | some (.find file) =>
      match file.filter fun j => (s.party j).segment.shmPath.isSome with
      | some j => some (s.become i (.attached j))
      | none => some (s.bury i abort true)
  | some (.attached j) =>
      some ((s.store j fun seg => { seg with isRaftRunning := true }).become i (.running j))
  | some (.running _) | some (.dead _) | none => none

/-- The system refuses `execvp`, the mapping of the file or `unlink`. -/
def refuseChildStep (s : State ι) (i : ι) : Option (State ι) :=
  match (s.party i).child with
  | some .exec | some (.unlink _ _) => some (s.bury i (.exited 1) false)
  | some (.openFile _) => some (s.bury i abort false)
  | some (.find _) | some (.attached _) | some (.running _) | some (.dead _) | none => none

/-- The next statement of `watch_raft_proc`. A process which was stopped is waited for again. -/
def watcherStep (s : State ι) (i : ι) : Option (State ι) :=
  match (s.party i).watcher with
  | .waiting =>
      match (s.party i).child with
      | some (.dead d) => some (s.watch i (.clean d.status))
      | _ => none
  | .clean status =>
      some (s.watch i (if (s.party i).segment.shutdownRequested ∧ status = .exited 0 then .returned
        else .requested status))
  | .requested status =>
      some (if (s.party i).segment.shutdownRequested then s.watch i (.killed status)
        else s.exit i .exited)
  | .killed _ =>
      some (if (s.party i).segment.raftKilled then s.watch i .returned else s.exit i .exited)
  | .absent | .returned | .exited | .waitFailed => none

def step (path : ι → CString) (s : State ι) : Act ι → Option (State ι)
  | .init i => if (s.party i).client = .idle then some (s.goto i .stat) else none
  | .client i => clientStep path s i
  | .forkFails i => if (s.party i).client = .fork then some (s.goto i .ended) else none
  | .refuse i => refuseStep s i
  | .child i => childStep s i
  | .refuseChild i => refuseChildStep s i
  | .die i status =>
      match (s.party i).child with
      | none | some (.dead _) => none
      | some _ => some (s.bury i status false)
  | .watcher i => watcherStep s i
  | .waitFails i =>
      if (s.party i).watcher = .waiting then some (s.exit i .waitFailed) else none
  | .shutdown i =>
      if (s.party i).client = .running then
        some (s.store i fun seg => { seg with shutdownRequested := true })
      else none
  | .kill i =>
      if (s.party i).client = .running then
        some (s.store i fun seg => { seg with raftKilled := true })
      else none

/-- The clients and their Raft processes as a scheduled system. -/
def system (path : ι → CString) (stale : CString → Bool) : Scheduled (State ι) (Act ι) where
  init := initial stale
  step := step path

end Step

section Trans
variable {ι : Type*} [DecidableEq ι]

/-- The transitions, by what they do to the files and to the party `i`. -/
inductive Trans (path : ι → CString) (s : State ι) : Act ι → State ι → Prop
  | init {i} (hc : (s.party i).client = .idle) : Trans path s (.init i) (s.goto i .stat)
  | found {i} (hc : (s.party i).client = .stat) (hf : (s.files (path i)).isSome = true) :
      Trans path s (.client i) (s.goto i .unlink)
  | absent {i} (hc : (s.party i).client = .stat) (hf : s.files (path i) = none) :
      Trans path s (.client i) (s.goto i .create)
  | unlinked {i} (hc : (s.party i).client = .unlink) :
      Trans path s (.client i) ((s.setFile (path i) none).goto i .create)
  | unlinkFails {i} (hc : (s.party i).client = .unlink) (hf : s.files (path i) = none) :
      Trans path s (.client i) (s.goto i .failed)
  | created {i} (hc : (s.party i).client = .create) :
      Trans path s (.client i) ((s.setFile (path i) (some (some i))).modify i fun p =>
        { p with client := .construct, segment := .zero })
  | createFails {i} (hc : (s.party i).client = .create)
      (hf : (s.files (path i)).isSome = true) : Trans path s (.client i) (s.goto i .failed)
  | constructed {i} (hc : (s.party i).client = .construct) :
      Trans path s (.client i) (s.modify i fun p =>
        { p with
          client := .fork
          segment := { p.segment with
            shutdownRequested := false, raftKilled := false, shmPath := some (path i) } })
  | forked {i} (hc : (s.party i).client = .fork) :
      Trans path s (.client i) (s.modify i fun p =>
        { p with client := .waitForRaft, child := some .exec, watcher := .waiting })
  | refused {i} (hc : (s.party i).client = .stat ∨ (s.party i).client = .unlink ∨
      (s.party i).client = .create) : Trans path s (.refuse i) (s.goto i .refused)
  | forkFails {i} (hc : (s.party i).client = .fork) :
      Trans path s (.forkFails i) (s.goto i .ended)
  | returned {i} (hc : (s.party i).client = .waitForRaft)
      (hr : (s.party i).segment.isRaftRunning = true) :
      Trans path s (.client i) (s.goto i .running)
  | exec {i p} (hc : (s.party i).child = some .exec) (hp : (s.party i).segment.shmPath = some p) :
      Trans path s (.child i) (s.become i (.openFile p))
  | execFails {i} (hc : (s.party i).child = some .exec)
      (hp : (s.party i).segment.shmPath = none) : Trans path s (.child i) (s.bury i abort false)
  | opened {i p file} (hc : (s.party i).child = some (.openFile p))
      (hf : s.files p = some file) : Trans path s (.child i) (s.become i (.unlink p file))
  | openFails {i p} (hc : (s.party i).child = some (.openFile p)) (hf : s.files p = none) :
      Trans path s (.child i) (s.bury i abort true)
  | childUnlinked {i p file} (hc : (s.party i).child = some (.unlink p file)) :
      Trans path s (.child i) ((s.setFile p none).become i (.find file))
  | childUnlinkFails {i p file} (hc : (s.party i).child = some (.unlink p file))
      (hf : s.files p = none) : Trans path s (.child i) (s.bury i (.exited 1) true)
  | scoreboard {i j} (hc : (s.party i).child = some (.find (some j))) :
      Trans path s (.child i) (s.become i (.attached j))
  | noScoreboard {i file} (hc : (s.party i).child = some (.find file))
      (hf : file.filter (fun j => (s.party j).segment.shmPath.isSome) = none) :
      Trans path s (.child i) (s.bury i abort true)
  | started {i j} (hc : (s.party i).child = some (.attached j)) :
      Trans path s (.child i)
        ((s.store j fun seg => { seg with isRaftRunning := true }).become i (.running j))
  | refusedChild {i c status} (hc : (s.party i).child = some c) (hd : ∀ d, c ≠ .dead d) :
      Trans path s (.refuseChild i) (s.bury i status false)
  | died {i c status} (hc : (s.party i).child = some c) (hd : ∀ d, c ≠ .dead d) :
      Trans path s (.die i status) (s.bury i status false)
  | reaped {i d} (hw : (s.party i).watcher = .waiting) (hc : (s.party i).child = some (.dead d)) :
      Trans path s (.watcher i) (s.watch i (.clean d.status))
  | cleanExit {i} (hw : (s.party i).watcher = .clean (.exited 0))
      (hr : (s.party i).segment.shutdownRequested = true) :
      Trans path s (.watcher i) (s.watch i .returned)
  | otherExit {i status} (hw : (s.party i).watcher = .clean status)
      (hr : ¬((s.party i).segment.shutdownRequested = true ∧ status = .exited 0)) :
      Trans path s (.watcher i) (s.watch i (.requested status))
  | afterRequest {i status} (hw : (s.party i).watcher = .requested status)
      (hr : (s.party i).segment.shutdownRequested = true) :
      Trans path s (.watcher i) (s.watch i (.killed status))
  | unrequested {i status} (hw : (s.party i).watcher = .requested status)
      (hr : (s.party i).segment.shutdownRequested = false) :
      Trans path s (.watcher i) (s.exit i .exited)
  | afterKill {i status} (hw : (s.party i).watcher = .killed status)
      (hk : (s.party i).segment.raftKilled = true) :
      Trans path s (.watcher i) (s.watch i .returned)
  | notKilled {i status} (hw : (s.party i).watcher = .killed status)
      (hk : (s.party i).segment.raftKilled = false) : Trans path s (.watcher i) (s.exit i .exited)
  | waitFailed {i} (hw : (s.party i).watcher = .waiting) :
      Trans path s (.waitFails i) (s.exit i .waitFailed)
  | shutdown {i} (hc : (s.party i).client = .running) :
      Trans path s (.shutdown i) (s.store i fun seg => { seg with shutdownRequested := true })
  | kill {i} (hc : (s.party i).client = .running) :
      Trans path s (.kill i) (s.store i fun seg => { seg with raftKilled := true })

variable {path : ι → CString} {s s' : State ι} {i : ι}

theorem trans_of_clientStep (h : clientStep path s i = some s') :
    Trans path s (.client i) s' := by
  unfold clientStep at h
  split at h
  case h_1 hc =>
      split_ifs at h with hf <;> cases h
      · exact .found hc hf
      · exact .absent hc (by simpa using hf)
  case h_2 hc =>
      split_ifs at h with hf <;> cases h
      · exact .unlinked hc
      · exact .unlinkFails hc (by simpa using hf)
  case h_3 hc =>
      split_ifs at h with hf <;> cases h
      · exact .createFails hc hf
      · exact .created hc
  case h_4 hc => cases h; exact .constructed hc
  case h_5 hc => cases h; exact .forked hc
  case h_6 hc =>
      split_ifs at h with hr
      cases h
      exact .returned hc hr
  case h_7 | h_8 | h_9 | h_10 | h_11 => cases h

theorem shmPathArg_buildRaftArgv (p : CString) : shmPathArg (buildRaftArgv p) = some p := by
  have hne : raftIf ≠ shmPathFlag := by decide
  simp [buildRaftArgv, shmPathArg, hne]

theorem trans_of_childStep (h : childStep s i = some s') : Trans path s (.child i) s' := by
  unfold childStep at h
  split at h
  case h_1 hc =>
      cases hp : (s.party i).segment.shmPath with
      | none =>
          simp only [hp, Option.bind_none] at h
          cases h
          exact .execFails hc hp
      | some p =>
          simp only [hp, Option.bind_some, shmPathArg_buildRaftArgv] at h
          cases h
          exact .exec hc hp
  case h_2 p hc =>
      split at h <;> cases h
      · exact .opened hc ‹_›
      · exact .openFails hc ‹_›
  case h_3 p file hc =>
      split_ifs at h with hf <;> cases h
      · exact .childUnlinked hc
      · exact .childUnlinkFails hc (by simpa using hf)
  case h_4 file hc =>
      split at h
      · next j hj =>
          cases h
          rw [Option.filter_eq_some_iff] at hj
          exact .scoreboard (hj.1 ▸ hc)
      · next hf => cases h; exact .noScoreboard hc hf
  case h_5 j hc => cases h; exact .started hc
  case h_6 | h_7 | h_8 => cases h

theorem trans_of_watcherStep (h : watcherStep s i = some s') : Trans path s (.watcher i) s' := by
  unfold watcherStep at h
  split at h
  case h_1 hw =>
      split at h
      · next d hc => cases h; exact .reaped hw hc
      · cases h
  case h_2 status hw =>
      split_ifs at h with hr <;> cases h
      · exact .cleanExit (hr.2 ▸ hw) hr.1
      · exact .otherExit hw hr
  case h_3 status hw =>
      split_ifs at h with hr <;> cases h
      · exact .afterRequest hw hr
      · exact .unrequested hw (by simpa using hr)
  case h_4 status hw =>
      split_ifs at h with hk <;> cases h
      · exact .afterKill hw hk
      · exact .notKilled hw (by simpa using hk)
  case h_5 | h_6 | h_7 | h_8 => cases h

theorem trans_of_refuseStep (h : refuseStep s i = some s') : Trans path s (.refuse i) s' := by
  unfold refuseStep at h
  split at h
  case h_1 hc => cases h; exact .refused (.inl hc)
  case h_2 hc => cases h; exact .refused (.inr (.inl hc))
  case h_3 hc => cases h; exact .refused (.inr (.inr hc))
  all_goals cases h

theorem trans_of_refuseChildStep (h : refuseChildStep s i = some s') :
    Trans path s (.refuseChild i) s' := by
  unfold refuseChildStep at h
  split at h
  case h_1 hc | h_2 hc | h_3 hc => cases h; exact .refusedChild hc (by simp)
  all_goals cases h

/-- Everything one step can do. -/
theorem trans_of_step {a : Act ι} (h : step path s a = some s') : Trans path s a s' := by
  cases a with
  | init i =>
      rw [step] at h
      split_ifs at h with hc
      cases h
      exact .init hc
  | client i => exact trans_of_clientStep h
  | refuse i => exact trans_of_refuseStep h
  | forkFails i =>
      rw [step] at h
      split_ifs at h with hc
      cases h
      exact .forkFails hc
  | child i => exact trans_of_childStep h
  | refuseChild i => exact trans_of_refuseChildStep h
  | die i status =>
      simp only [step] at h
      split at h
      case h_1 | h_2 => cases h
      case h_3 c hd hc => cases h; exact .died hc hd
  | watcher i => exact trans_of_watcherStep h
  | waitFails i =>
      rw [step] at h
      split_ifs at h with hw
      cases h
      exact .waitFailed hw
  | shutdown i =>
      rw [step] at h
      split_ifs at h with hc
      cases h
      exact .shutdown hc
  | kill i =>
      rw [step] at h
      split_ifs at h with hc
      cases h
      exact .kill hc

end Trans

end Libraft.Startup
