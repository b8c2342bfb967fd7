import Libraft.Pool.Accounting
import Libraft.Pool.Futures
import Libraft.Pool.Reuse

/-!
# The main thread of the example client

`main`, `run_auto`, `run_interactive`, `send_command` and `take_snapshot` of
`raft_client.c`, over the pool of calls and beside everything else which uses
it. In whatever order the Raft side, the collector and the main thread take
their steps, the client gives back its command buffers and its futures, except
for the last two.

## Implementation notes

The main thread is the only client thread, so `Unit` names it. A session is
given the list of its tasks, which is what the options and the lines read from
the terminal determine. The texts of the commands and the sleeping between them
are left out. The loop variable of `run_auto` is an `int`, which is taken to
reach `runs`. Of `raft_cleanup` only the end of the queue of orphans is a step
here. Nobody but the main thread allocates calls or buffers, so the counters are
those of the client's own calls and buffers.
-/

namespace Libraft.Client

open Libraft.Foundation Libraft.Calls
open Libraft.Pool

/-- What one round of `run_auto` or `run_interactive` does. -/
inductive Task
  | command
  | snapshot
  deriving DecidableEq, Repr

/-- The static variables which the options set, as far as they decide the tasks. -/
structure Options where
  runs : UInt32
  snapshotPeriod : UInt32
  interactive : Bool

/-- The round of `run_auto` with `i = n + 1`. -/
def autoRound (period n : ℕ) : List Task :=
  .command :: if period ≠ 0 ∧ (n + 1) % period = 0 then [.snapshot] else []

def runAuto (o : Options) : List Task :=
  (List.range o.runs.toNat).flatMap (autoRound o.snapshotPeriod.toNat)

/-- What `run_interactive` compares: the line up to its end. -/
def lineText (line : List UInt8) : List UInt8 :=
  (line.takeWhile (· ≠ 10)).takeWhile (· ≠ 0)

/-- `run_interactive`, when `fgets` returns these lines and then `NULL`. -/
def runInteractive : List (List UInt8) → List Task
  | [] => []
  | line :: rest =>
      -- "S" and "Q" in either case
      if lineText line = [83] ∨ lineText line = [115] then .snapshot :: runInteractive rest
      else if lineText line = [81] ∨ lineText line = [113] then []
      else .command :: runInteractive rest

example : runInteractive [[104, 105, 10], [83, 10], [113, 10], [104, 105, 10]] =
    [.command, .snapshot] := by decide

def Options.plan (o : Options) (lines : List (List UInt8)) : List Task :=
  if o.interactive then runInteractive lines else runAuto o

/-- The calls which the client makes. -/
inductive Job
  /-- `send_command(buf)` -/
  | command (b : ℕ)
  /-- `take_snapshot()` -/
  | snapshot
  | stats
  | shutdown
  deriving DecidableEq, Repr

def Job.tag : Job → CallTag
  | .command _ => .apply
  | .snapshot => .snapshot
  | .stats => .stats
  | .shutdown => .shutdown

def Job.buf : Job → Option ℕ
  | .command b => some b
  | _ => none

/-- `raft_future_wait`, or `raft_future_get_stats`. -/
def Job.op : Job → Op
  | .stats => .getStats true
  | _ => .wait

/-- The jobs whose future the client disposes of. -/
def Job.isTask : Job → Bool
  | .command _ | .snapshot => true
  | .stats | .shutdown => false

/-- Where the main thread stands with its future. -/
inductive Stage
  /-- inside `send_api_request` -/
  | sending
  /-- inside `raft_future_wait` or `raft_future_get_stats` -/
  | waiting
  /-- before `raft_future_get_fsm_reply` -/
  | reading
  /-- inside `raft_future_get_fsm_reply` -/
  | fetching
  /-- before `raft_future_dispose` -/
  | dispose
  /-- inside `raft_future_dispose` -/
  | disposing
  /-- an assertion has failed, or an exception has left `raft_future_dispose` -/
  | aborted
  deriving DecidableEq, Repr

/-- Where the main thread stands. -/
inductive Prog
  /-- before the next task -/
  | loop
  /-- the text of a command has been written to its buffer -/
  | filled (b : ℕ)
  | on (j : Job) (c : ℕ) (stage : Stage)
  /-- before `free_raft_buffer` -/
  | free (b : ℕ)
  /-- before `raft_shutdown` -/
  | shutdown
  | cleanup
  /-- `main` has returned 0, or 1 -/
  | exited (ok : Bool)
  deriving DecidableEq, Repr

/-- The error code which an operation on the future returns. -/
def errorOf : Result → Option RaftError
  | .waited err | .got err _ | .refused err => some err
  | .polled _ | .assertFailed => none

/-- `cur_count_p` after `raft_future_get_fsm_reply`. -/
def pointerOf : Result → UInt64
  | .got _ (some val) => val
  | _ => 0

/-- What the client does with the error code. -/
def Job.answered (j : Job) (c : ℕ) : Option RaftError → Prog
  | none => .on j c .aborted
  | some err =>
      match j with
      | .command b => .on (.command b) c (if err = .success then .reading else .dispose)
      | .snapshot => .on .snapshot c .dispose
      | .stats => if err = .success then .shutdown else .exited false
      | .shutdown => if err = .success then .cleanup else .exited false

/-- What follows `raft_future_dispose`. -/
def Job.disposed : Job → Prog
  | .command b => .free b
  | _ => .loop

structure Session (ρ : Type*) where
  pool : State Unit ρ
  prog : Prog
  todo : List Task

inductive SessionAct (ρ : Type*)
  /-- the next statement of the main thread -/
  | go
  | pool (a : Act Unit ρ)

section Step
variable {ρ : Type*}

/-- The steps of the pool which are not the beginning or the end of a call by the
main thread; nobody else allocates anything. -/
def foreign : Act Unit ρ → Bool
  | .create _ _ _ | .closeOrphans | .allocBuffer | .freeBuffer _ => false
  | .call _ (.start _ _) | .call _ (.leave _) | .call _ .dispose => false
  | _ => true

theorem future_of_foreign {a : Act Unit ρ} (h : foreign a = true) : a.future = none := by
  unfold foreign at h
  split at h <;> simp_all [Act.future]

variable [DecidableEq ρ]

/-- A step of the pool after which the main thread stands at `prog`. -/
def Session.move (s : Session ρ) (a : Act Unit ρ) (prog : Prog) (todo : List Task) :
    Option (Session ρ) :=
  (Pool.step s.pool a).map fun p => ⟨p, prog, todo⟩

/-- `send_api_request` is called. The buffers of `alloc_raft_buffer` lie in the
segment, so `raft_apply` sends its call. -/
def Session.send (s : Session ρ) (j : Job) (todo : List Task) : Option (Session ρ) :=
  s.move (.create j.tag j.buf none) (.on j s.pool.next .sending) todo

def Session.go (s : Session ρ) : Option (Session ρ) :=
  match s.prog with
  | .loop =>
      match s.todo with
      | .command :: rest => s.move .allocBuffer (.filled s.pool.buffers) rest
      | .snapshot :: rest => s.send .snapshot rest
      | [] => s.send .stats []
  | .filled b => s.send (.command b) s.todo
  | .on j c .sending =>
      if (s.pool.calls c).life = .held then
        s.move (.call c (.start () j.op)) (.on j c .waiting) s.todo
      else none
  | .on j c .waiting =>
      match (s.pool.calls c).uses () with
      | .done _ _ res => s.move (.call c (.leave ())) (j.answered c (errorOf res)) s.todo
      | _ => none
  | .on j c .reading =>
      s.move (.call c (.start () (.getFsmReply true))) (.on j c .fetching) s.todo
  | .on j c .fetching =>
      match (s.pool.calls c).uses () with
      | .done _ _ res =>
          -- `assert(cur_count_p)`
          s.move (.call c (.leave ()))
            (.on j c (if pointerOf res = 0 then .aborted else .dispose)) s.todo
      | _ => none
  | .on j c .dispose => s.move (.call c .dispose) (.on j c .disposing) s.todo
  | .on j c .disposing =>
      match (s.pool.calls c).life with
      | .orphaned | .gone => some { s with prog := j.disposed }
      | .thrown => some { s with prog := .on j c .aborted }
      | _ => none
  | .free b => s.move (.freeBuffer b) .loop s.todo
  | .shutdown => s.send .shutdown s.todo
  | .cleanup => s.move .closeOrphans (.exited true) s.todo
  | .on _ _ .aborted | .exited _ => none

def Session.step (s : Session ρ) : SessionAct ρ → Option (Session ρ)
  | .go => s.go
  | .pool a =>
      if foreign a then (Pool.step s.pool a).map fun p => { s with pool := p } else none

/-- A client with the given tasks as a scheduled system. -/
def session (plan : List Task) : Scheduled (Session ρ) (SessionAct ρ) where
  init := ⟨initial, .loop, plan⟩
  step := Session.step

end Step

section Plans

theorem length_autoRounds (period n : ℕ) :
    ((List.range n).flatMap (autoRound period)).length = n + n / period := by
  induction n with
  | zero => simp
  | succ n ih =>
      rw [List.range_succ, List.flatMap_append, List.length_append, ih, Nat.succ_div]
      by_cases hdvd : period ∣ n + 1
      · have hpos : period ≠ 0 := by
          rintro rfl
          simp at hdvd
        simp [autoRound, hpos, Nat.mod_eq_zero_of_dvd hdvd, hdvd]
        omega
      · have hmod : (n + 1) % period ≠ 0 := fun h => hdvd (Nat.dvd_of_mod_eq_zero h)
        simp [autoRound, hmod, hdvd]
        omega

/-- `run_auto` sends `runs` commands and asks for a snapshot after each period. -/
theorem length_runAuto (o : Options) :
    (runAuto o).length = o.runs.toNat + o.runs.toNat / o.snapshotPeriod.toNat :=
  length_autoRounds _ _

theorem count_autoRounds (period n : ℕ) :
    ((List.range n).flatMap (autoRound period)).count .command = n := by
  induction n with
  | zero => rfl
  | succ n ih =>
      rw [List.range_succ, List.flatMap_append, List.count_append, ih]
      simp only [List.flatMap_singleton, autoRound, List.count_cons_self]
      split <;> simp

/-- Every round of `run_auto` allocates one buffer. -/
theorem count_runAuto (o : Options) : (runAuto o).count .command = o.runs.toNat :=
  count_autoRounds _ _

end Plans

/-- The Raft side has answered with a value, and the client knows. -/
structure Answered (call : Call Unit) : Prop where
  held : call.life = .held
  waited : call.waitCalled = true
  completed : call.completed = true
  outcome : ∃ val, call.outcome = some (.success, val)

/-- What the main thread may rely on. -/
def Stage.Holds (j : Job) (call : Call Unit) : Stage → Prop
  | .sending => call.life = .held ∨ ∃ pc, call.life = .creating pc
  | .waiting => call.life = .held ∧ works j.op (call.uses ()) = true ∧
      (j.isTask = true → call.waitCalled = true)
  | .reading => j.tag = .apply ∧ Answered call
  | .fetching => j.tag = .apply ∧ Answered call ∧
      works (.getFsmReply true) (call.uses ()) = true
  | .dispose => j.isTask = true ∧ call.life = .held ∧ call.waitCalled = true
  | .disposing => j.isTask = true ∧ call.client = .observed ∧ call.life.ending = true
  | .aborted => call.life = .held ∧ call.completed = true ∧
      ∃ err, call.outcome = some (err, 0) ∧ (j = .stats ∨ j.tag = .apply ∧ err = .success)

section Keep
variable {ρ : Type*} [DecidableEq ρ] {p p' : State Unit ρ} {a : Act Unit ρ} {c : ℕ}

theorem Answered.keep (h : Answered (p.calls c)) (ht : Trans p a p') (hi : Inv p)
    (hc : c < p.next) (ha : a ≠ .call c .dispose) : Answered (p'.calls c) := by
  obtain ⟨hd, ho⟩ := ht.outcome_kept hi h.completed
  exact ⟨ht.held hi h.held ha, waited_of_change (ht.callChange hi hc) h.held h.waited, hd,
    ho ▸ h.outcome⟩

theorem Job.isTask_of_tag (j : Job) (h : j.tag = .apply) : j.isTask = true := by
  cases j with
  | command b => rfl
  | snapshot | stats | shutdown => cases h

theorem Job.suits_op (j : Job) : suits j.tag j.op = true := by
  cases j <;> rfl

/-- The other threads leave the main thread what it relies on. -/
theorem Stage.Holds.keep {j : Job} {stage : Stage} (h : stage.Holds j (p.calls c))
    (htag : (p.calls c).tag = j.tag) (ht : Trans p a p') (hi : Inv p) (hc : c < p.next)
    (ha : a.future ≠ some c) : stage.Holds j (p'.calls c) := by
  have hne : a ≠ .call c .dispose := by
    rintro rfl
    exact ha rfl
  cases stage with
  | sending => exact sending_of_change (ht.callChange hi hc) h hne
  | waiting =>
      obtain ⟨hl, hop, hw⟩ := h
      exact ⟨ht.held hi hl hne, works_of_trans ht hc ha (htag ▸ j.suits_op) hop,
        fun hj => waited_of_change (ht.callChange hi hc) hl (hw hj)⟩
  | reading => exact ⟨h.1, h.2.keep ht hi hc hne⟩
  | fetching =>
      refine ⟨h.1, h.2.1.keep ht hi hc hne, works_of_trans ht hc ha ?_ h.2.2⟩
      simp [suits, htag, h.1]
  | dispose =>
      obtain ⟨hj, hl, hw⟩ := h
      exact ⟨hj, ht.held hi hl hne, waited_of_change (ht.callChange hi hc) hl hw⟩
  | disposing => exact ⟨h.1, ending_of_change (ht.callChange hi hc) hi h.2.1 h.2.2⟩
  | aborted =>
      obtain ⟨hl, hd, hout⟩ := h
      obtain ⟨hd', ho⟩ := ht.outcome_kept hi hd
      exact ⟨ht.held hi hl hne, hd', ho ▸ hout⟩

end Keep

/-- The call which the main thread works on. -/
def Prog.call : Prog → Option ℕ
  | .on _ c _ => some c
  | _ => none

/-- The command buffer which the client has to give back. -/
def Prog.buf : Prog → Option ℕ
  | .filled b | .free b => some b
  | .on j _ _ => j.buf
  | _ => none

/-- The calls which are not created yet, held, or on the direct way to their end. -/
def direct : Life → Bool
  | .unborn | .creating _ | .held => true
  | life => life.ending

/-- The collector has nothing to do. -/
structure Quiet {ρ : Type*} (p : State Unit ρ) : Prop where
  orphans : p.orphans = []
  backlog : p.backlog = []
  gc : p.gc = .loop ∨ p.gc = .stopped

/-- The accounts of the command buffers, of which the client holds `cur`. -/
structure BufferOk {ρ : Type*} (p : State Unit ρ) (cur : Option ℕ) : Prop where
  lt : ∀ b ∈ cur, b < p.buffers
  frees : ∀ b, p.frees b = ⟨if b < p.buffers ∧ cur ≠ some b then 1 else 0, 0⟩
  alloc : p.bufferAlloc = UInt64.ofNat p.buffers
  free : p.bufferAlloc = p.bufferFree + if cur.isSome then 1 else 0

/-- How a call ends which the main thread has done with, in a session of `n` tasks. -/
def Past (n c : ℕ) (call : Call Unit) : Prop :=
  if c < n then call.life = .gone ∧ call.client = .observed else call.life = .held

/-- The number of the call is determined by what is left to do. -/
def Job.At (n : ℕ) (todo : List Task) (c : ℕ) : Job → Prop
  | .command _ | .snapshot => c + 1 + todo.length = n
  | .stats => todo = [] ∧ c = n
  | .shutdown => todo = [] ∧ c = n + 1

/-- How many calls there are at a point of a session of `n` tasks. -/
def Prog.At (n : ℕ) (todo : List Task) (next : ℕ) : Prog → Prop
  | .loop | .free _ => next + todo.length = n
  | .filled _ => next + 1 + todo.length = n
  | .on j c _ => next = c + 1 ∧ j.At n todo c
  | .shutdown => todo = [] ∧ next = n + 1
  | .cleanup | .exited true => todo = [] ∧ next = n + 2
  | .exited false => True

section Pool
variable {ρ : Type*} [DecidableEq ρ] {p p' : State Unit ρ} {a : Act Unit ρ} {c n : ℕ}

omit [DecidableEq ρ] in
theorem Quiet.lateRelease_eq_none (h : Quiet p) (a : Act Unit ρ) : p.lateRelease a = none := by
  by_contra hne
  obtain ⟨d, hd⟩ := Option.ne_none_iff_exists'.mp hne
  obtain ⟨-, entry, hg⟩ := attempt_of_lateRelease hd
  rcases h.gc with hgc | hgc <;> simp [hg] at hgc

/-- Without orphans there is no work for the collector. -/
theorem Quiet.trans (h : Quiet p) (ht : Trans p a p')
    (hd : ∀ c, direct (p.calls c).life = true) : Quiet p' := by
  have hgc {gc : Gc} (hg : p.gc = gc) (hl : gc ≠ .loop) (hs : gc ≠ .stopped) : Quiet p' := by
    rcases h.gc with hgc | hgc
    · exact absurd (hg.symm.trans hgc) hl
    · exact absurd (hg.symm.trans hgc) hs
  cases ht with
  | @track d byGc hl _ =>
      have hdir := hd d
      cases byGc <;> simp [hl, direct, Life.ending] at hdir
  | gcTake hg ho hc => simp [h.orphans] at ho
  | gcTimeout hg hb => exact absurd h.backlog hb
  | gcStop hg hc => exact ⟨h.orphans, h.backlog, .inr rfl⟩
  | tryLock hg _ | tryFail hg _ | testDone hg _ | testPending hg _ | disposed hg _ | release hg
  | scan hg _ | scanEnd hg _ | check hg _ => exact hgc hg (by simp) (by simp)
  | _ => exact ⟨h.orphans, h.backlog, h.gc⟩

/-- The buffers are freed by nobody else. -/
theorem BufferOk.trans {cur : Option ℕ} (h : BufferOk p cur) (ht : Trans p a p')
    (hd : ∀ c, direct (p.calls c).life = true) (hq : Quiet p)
    (ha : a ≠ .allocBuffer) (hf : ∀ b, a ≠ .freeBuffer b) : BufferOk p' cur := by
  cases ht with
  | @cleanup d byGc hl =>
      have hdir := hd d
      cases byGc <;> simp [hl, direct, Life.ending] at hdir
  | allocBuffer => exact absurd rfl ha
  | freeBuffer => exact absurd rfl (hf _)
  | release hg => rcases hq.gc with hgc | hgc <;> simp [hg] at hgc
  | _ => exact ⟨h.lt, h.frees, h.alloc, h.free⟩

omit [DecidableEq ρ] in
/-- `alloc_raft_buffer` -/
theorem BufferOk.alloc_buffer (h : BufferOk p none) :
    BufferOk { p with buffers := p.buffers + 1, bufferAlloc := p.bufferAlloc + 1 }
      (some p.buffers) where
  lt := by
    rintro b ⟨⟩
    exact Nat.lt_succ_self _
  frees := by
    intro b
    have hiff : (b < p.buffers + 1 ∧ some p.buffers ≠ some b) ↔
        (b < p.buffers ∧ none ≠ some b) := by
      simp only [ne_eq, Option.some.injEq, reduceCtorEq, not_false_eq_true, and_true]
      omega
    simp only [h.frees b, hiff]
  alloc := by
    rw [h.alloc, UInt64.ofNat_add]
    rfl
  free := by
    have hfree := h.free
    simp only [Option.isSome_none, Bool.false_eq_true, if_false, UInt64.add_zero] at hfree
    simp [hfree]

omit [DecidableEq ρ] in
/-- `free_raft_buffer` -/
theorem BufferOk.free_buffer {b : ℕ} (h : BufferOk p (some b)) :
    BufferOk { p with
      frees := Function.update p.frees b { p.frees b with byClient := (p.frees b).byClient + 1 }
      bufferFree := p.bufferFree + 1 } none where
  lt := nofun
  frees := by
    intro d
    by_cases hd : d = b
    · subst hd
      simp [h.frees d, h.lt d rfl]
    · simp [h.frees d, hd, Ne.symm hd]
  alloc := h.alloc
  free := by simpa using h.free

theorem past_of_le {call : Call Unit} (hn : n ≤ c) (hl : call.life = .held) : Past n c call := by
  unfold Past
  rw [if_neg (not_lt.mpr hn)]
  exact hl

theorem Past.keep (h : Past n c (p.calls c)) (ht : Trans p a p') (hi : Inv p) (hc : c < p.next)
    (ha : a ≠ .call c .dispose) : Past n c (p'.calls c) := by
  unfold Past at h ⊢
  split at h <;> rename_i hn
  · rw [if_pos hn]
    exact ⟨gone_of_change (ht.callChange hi hc) h.1,
      (ending_of_change (ht.callChange hi hc) hi h.2 (by rw [h.1]; rfl)).1⟩
  · rw [if_neg hn]
    exact ht.held hi h ha

end Pool

section Session
variable {ρ : Type*} [DecidableEq ρ] {plan : List Task} {s s' : Session ρ}

/-- The invariant of a session. -/
structure SessionOk (plan : List Task) (s : Session ρ) : Prop where
  reach : system.Reach HarmlessRelease s.pool
  quiet : Quiet s.pool
  at_ : s.prog.At plan.length s.todo s.pool.next
  stage : ∀ j c stage, s.prog = .on j c stage →
    (s.pool.calls c).tag = j.tag ∧ stage.Holds j (s.pool.calls c)
  past : ∀ c < s.pool.next, s.prog.call ≠ some c → Past plan.length c (s.pool.calls c)
  buffers : BufferOk s.pool s.prog.buf
  made : s.pool.buffers + s.todo.count .command = plan.count .command

theorem sessionOk_initial : SessionOk plan (⟨initial, .loop, plan⟩ : Session ρ) where
  reach := .init
  quiet := ⟨rfl, rfl, .inl rfl⟩
  at_ := Nat.zero_add _
  stage := nofun
  past := nofun
  buffers := ⟨nofun, fun _ => rfl, rfl, rfl⟩
  made := Nat.zero_add _

theorem SessionOk.inv (h : SessionOk plan s) : Inv s.pool := inv_of_reachable h.reach.reachable

omit [DecidableEq ρ] in
theorem Stage.Holds.direct {j : Job} {stage : Stage} {call : Call Unit} (h : stage.Holds j call) :
    direct call.life = true := by
  cases stage with
  | sending =>
      rcases h with hl | ⟨pc, hl⟩
      · simp [hl, Client.direct]
      · simp [hl, Client.direct]
  | waiting => simp [h.1, Client.direct]
  | reading => simp [h.2.held, Client.direct]
  | fetching => simp [h.2.1.held, Client.direct]
  | dispose => simp [h.2.1, Client.direct]
  | disposing =>
      have hend := h.2.2
      cases hl : call.life <;> simp_all [Client.direct]
  | aborted => simp [h.1, Client.direct]

theorem SessionOk.direct (h : SessionOk plan s) (c : ℕ) :
    direct (s.pool.calls c).life = true := by
  by_cases hc : c < s.pool.next
  · by_cases hcall : s.prog.call = some c
    · cases hprog : s.prog with
      | on j d stage =>
          obtain rfl : d = c := by simpa [hprog, Prog.call] using hcall
          exact (h.stage j d stage hprog).2.direct
      | _ => simp [hprog, Prog.call] at hcall
    · have hpast := h.past c hc hcall
      unfold Past at hpast
      split at hpast
      · simp [hpast.1, Client.direct, Life.ending]
      · simp [hpast, Client.direct]
  · simp [h.inv.api.born c (not_lt.mp hc), Client.direct]

/-- A step of the pool, after which the main thread stands at `prog`. -/
theorem SessionOk.next (h : SessionOk plan s) {a : Act Unit ρ} {p : State Unit ρ} {prog : Prog}
    {todo : List Task} (hp : Pool.step s.pool a = some p)
    (hat : prog.At plan.length todo p.next)
    (hstage : ∀ j c stage, prog = .on j c stage →
      (p.calls c).tag = j.tag ∧ stage.Holds j (p.calls c))
    (hpast : ∀ c < p.next, prog.call ≠ some c → Past plan.length c (p.calls c))
    (hbuf : BufferOk p prog.buf)
    (hmade : p.buffers + todo.count .command = plan.count .command) :
    SessionOk plan ⟨p, prog, todo⟩ where
  reach := .step h.reach hp (by simp [HarmlessRelease, h.quiet.lateRelease_eq_none a])
  quiet := h.quiet.trans (trans_of_step hp) h.direct
  at_ := hat
  stage := hstage
  past := hpast
  buffers := hbuf
  made := hmade

/-- The calls which the main thread has done with stay as they are. -/
theorem SessionOk.past_keep (h : SessionOk plan s) {a : Act Unit ρ} {p : State Unit ρ}
    (ht : Trans s.pool a p) {c : ℕ} (hc : c < s.pool.next) (hcall : s.prog.call ≠ some c)
    (ha : a ≠ .call c .dispose) : Past plan.length c (p.calls c) :=
  (h.past c hc hcall).keep ht h.inv hc ha

theorem next_of_trans {a : Act Unit ρ} {p p' : State Unit ρ} (ht : Trans p a p')
    (ha : ∀ tag buf err, a ≠ .create tag buf err) : p'.next = p.next := by
  cases ht with
  | create he hb => exact absurd rfl (ha _ _ _)
  | release hg => simp
  | _ => rfl

theorem buffers_of_trans {a : Act Unit ρ} {p p' : State Unit ρ} (ht : Trans p a p')
    (ha : a ≠ .allocBuffer) : p'.buffers = p.buffers := by
  cases ht with
  | allocBuffer => exact absurd rfl ha
  | release hg =>
      rw [released_eq]
  | _ => rfl

/-- A step of another thread. -/
theorem SessionOk.foreign (h : SessionOk plan s) {a : Act Unit ρ} {p : State Unit ρ}
    (hf : foreign a = true) (hp : Pool.step s.pool a = some p) :
    SessionOk plan { s with pool := p } := by
  have ht : Trans s.pool a p := trans_of_step hp
  have hcreate : ∀ tag buf err, a ≠ .create tag buf err := by
    rintro tag buf err rfl
    cases hf
  have halloc : a ≠ .allocBuffer := by
    rintro rfl
    cases hf
  have hnext := next_of_trans ht hcreate
  refine h.next hp (hnext ▸ h.at_) (fun j c stage hprog => ?_) (fun c hc hcall => ?_) ?_ ?_
  · have hlt : c < s.pool.next := by
      have hat := h.at_
      rw [hprog] at hat
      exact hat.1 ▸ Nat.lt_succ_self c
    obtain ⟨htag, hst⟩ := h.stage j c stage hprog
    exact ⟨(ht.tag_eq hlt).2.trans htag,
      hst.keep htag ht h.inv hlt (by simp [future_of_foreign hf])⟩
  · refine h.past_keep ht (hnext ▸ hc) hcall ?_
    rintro rfl
    cases hf
  · refine h.buffers.trans ht h.direct h.quiet halloc ?_
    rintro b rfl
    cases hf
  · rw [buffers_of_trans ht halloc]
    exact h.made

/-- The main thread sends a call. -/
theorem SessionOk.send (h : SessionOk plan s) {j : Job} {todo : List Task}
    (hs : s.send j todo = some s') (hcall : s.prog.call = none)
    (hat : j.At plan.length todo s.pool.next) (hbuf : s.prog.buf = j.buf)
    (hmade : s.pool.buffers + todo.count .command = plan.count .command) :
    SessionOk plan s' := by
  obtain ⟨p, hp, rfl⟩ := Option.map_eq_some_iff.mp hs
  have ht : Trans s.pool (.create j.tag j.buf none) p := trans_of_step hp
  have hb : BufferOk p j.buf := hbuf ▸ h.buffers.trans ht h.direct h.quiet (by simp) (by simp)
  cases ht with
  | create he hb' =>
      refine h.next hp ⟨rfl, hat⟩ ?_ (fun c hc hne => ?_) hb hmade
      · rintro j' c stage ⟨⟩
        simp only [State.setCall_calls, Function.update_self]
        exact ⟨rfl, .inr ⟨_, rfl⟩⟩
      · have hc' : c ≠ s.pool.next := fun he' => hne (he' ▸ rfl)
        exact h.past_keep (.create he hb') (by dsimp only at hc; omega) (by simp [hcall]) (by simp)

/-- The main thread takes a step on its own call. -/
theorem SessionOk.use (h : SessionOk plan s) {j : Job} {c : ℕ} {stage : Stage}
    (hprog : s.prog = .on j c stage) {b : CallAct Unit} {prog : Prog}
    (hs : s.move (.call c b) prog s.todo = some s') (hbuf : prog.buf = j.buf)
    (hnew : ∀ call slot, CallTrans c (s.pool.calls c) (s.pool.slot c) b call slot →
      (∃ stage', prog = .on j c stage' ∧ stage'.Holds j call) ∨
        prog.call = none ∧ prog.At plan.length s.todo (c + 1) ∧ Past plan.length c call) :
    SessionOk plan s' := by
  obtain ⟨p, hp, rfl⟩ := Option.map_eq_some_iff.mp hs
  have ht : Trans s.pool (.call c b) p := trans_of_step hp
  obtain ⟨hnext, hat⟩ : (Prog.on j c stage).At plan.length s.todo s.pool.next := hprog ▸ h.at_
  have hlt : c < s.pool.next := hnext ▸ Nat.lt_succ_self c
  have hb : BufferOk p prog.buf := by
    have hold : s.prog.buf = prog.buf := by
      rw [hprog, hbuf]
      rfl
    exact hold ▸ h.buffers.trans ht h.direct h.quiet (by simp) (by simp)
  have hothers : ∀ d < s.pool.next, d ≠ c → Past plan.length d (p.calls d) := by
    intro d hd hdc
    refine h.past_keep ht hd ?_ ?_
    · rw [hprog]
      exact fun he => hdc (Option.some.inj he).symm
    · rintro ⟨⟩
      exact hdc rfl
  have htag := (ht.tag_eq hlt).2.trans (h.stage j c stage hprog).1
  cases ht with
  | @call _ _ call slot hcall hr =>
      have hself : ((s.pool.setSlot c slot).setCall c call).calls c = call := by simp
      rcases hnew call slot hcall with ⟨stage', rfl, hst⟩ | ⟨hnone, hat', hpast⟩
      · refine h.next hp ⟨hnext, hat⟩ ?_ (fun d hd hne => ?_) hb h.made
        · rintro _ _ _ ⟨⟩
          exact ⟨htag, hself.symm ▸ hst⟩
        · exact hothers d hd fun he => hne (he ▸ rfl)
      · refine h.next hp (hnext ▸ hat') ?_ (fun d hd _ => ?_) hb h.made
        · rintro _ _ _ rfl
          cases hnone
        · by_cases hdc : d = c
          · rw [hdc, hself]
            exact hpast
          · exact hothers d hd hdc

omit [DecidableEq ρ] in
/-- How the first operation on a future ends. -/
theorem Stage.Holds.ended {j : Job} {call : Call Unit} {op : Op} {fast : Bool} {res : Result}
    (h : Stage.waiting.Holds j call) (htag : call.tag = j.tag) (hok : UseOk call (call.uses ()))
    (hu : call.uses () = .done op fast res) :
    call.completed = true ∧
      (j ≠ .stats ∧ (∃ err val, res = .waited err ∧ call.outcome = some (err, val)) ∨
        j = .stats ∧ ((∃ err val, res = .got err val) ∨
          res = .assertFailed ∧ ∃ err, call.outcome = some (err, 0))) := by
  obtain ⟨-, hw, -⟩ := h
  rw [hu] at hw hok
  cases res with
  | waited err =>
      obtain ⟨-, hd, val, hout⟩ := hok
      refine ⟨hd, .inl ⟨?_, err, val, rfl, hout⟩⟩
      rintro rfl
      obtain ⟨rfl, hwait⟩ : op = Job.stats.op ∧ op = .wait := by simpa [works] using hw
      cases hwait
  | got err val =>
      obtain ⟨hd, -⟩ := hok
      refine ⟨hd, .inr ⟨?_, .inl ⟨err, val, rfl⟩⟩⟩
      obtain ⟨rfl, hne⟩ : op = j.op ∧ op ≠ .wait := by simpa [works] using hw
      cases j with
      | stats => rfl
      | _ => exact absurd rfl hne
  | assertFailed =>
      obtain ⟨hd, err, val, hout, hres⟩ := hok
      obtain ⟨hop, rfl⟩ : op = j.op ∧ op = .getStats true := by simpa [works] using hw
      obtain rfl : j = .stats := by cases j <;> first | rfl | cases hop
      refine ⟨hd, .inr ⟨rfl, .inr ⟨rfl, err, ?_⟩⟩⟩
      -- only the assertion on the handle can fail
      have hzero : val = 0 := by
        by_contra hne
        simp only [Op.report, htag, Job.tag, Op.isGet, Op.result, futureGetResult,
          CallTag.hasRet, Op.checksHandle, hne] at hres
        split at hres <;> simp at hres
      rw [hout, hzero]
  | polled b | refused err => cases hw

omit [DecidableEq ρ] in
/-- `raft_future_get_fsm_reply` gives the value with which the call was answered. -/
theorem Stage.Holds.fetched {j : Job} {call : Call Unit} {op : Op} {fast : Bool} {res : Result}
    (h : Stage.fetching.Holds j call) (htag : call.tag = j.tag) (hok : UseOk call (call.uses ()))
    (hu : call.uses () = .done op fast res) :
    call.outcome = some (.success, pointerOf res) := by
  obtain ⟨hj, ⟨-, -, -, val, hout⟩, hw⟩ := h
  rw [hu] at hw hok
  cases res with
  | got err v =>
      obtain ⟨rfl, -⟩ : op = .getFsmReply true ∧ op ≠ .wait := by simpa [works] using hw
      obtain ⟨-, err', val', hout', hres⟩ := hok
      obtain ⟨rfl, rfl⟩ : err' = .success ∧ val' = val := by
        simpa [hout] using hout'.symm
      rw [hout, hres, htag, hj]
      rfl
  | waited err =>
      obtain ⟨rfl, hwait⟩ : op = .getFsmReply true ∧ op = .wait := by simpa [works] using hw
      cases hwait
  | assertFailed =>
      obtain ⟨rfl, hstats⟩ : op = .getFsmReply true ∧ op = .getStats true := by
        simpa [works] using hw
      cases hstats
  | polled b | refused err => cases hw

theorem buf_answered (j : Job) (c : ℕ) (err : Option RaftError) :
    (j.answered c err).buf = j.buf := by
  cases err with
  | none => rfl
  | some err =>
      cases j with
      | command b | snapshot => rfl
      | stats | shutdown =>
          simp only [Job.answered]
          split <;> rfl

/-- The main thread comes back from its first operation on the future. -/
theorem SessionOk.answered (h : SessionOk plan s) {j : Job} {c : ℕ}
    (hprog : s.prog = .on j c .waiting) {op : Op} {fast : Bool} {res : Result}
    (hu : (s.pool.calls c).uses () = .done op fast res)
    (hs : s.move (.call c (.leave ())) (j.answered c (errorOf res)) s.todo = some s') :
    SessionOk plan s' := by
  obtain ⟨htag, hst⟩ := h.stage j c .waiting hprog
  obtain ⟨-, hat⟩ : (Prog.on j c .waiting).At plan.length s.todo s.pool.next := hprog ▸ h.at_
  obtain ⟨hd, hend⟩ := hst.ended htag ((h.inv.calls c).usage.use ()) hu
  refine h.use hprog hs (buf_answered j c _) fun call slot hcall => ?_
  cases hcall with
  | leave _ =>
      rcases hend with ⟨hne, err, val, rfl, hout⟩ | ⟨rfl, ⟨err, val, rfl⟩ | ⟨rfl, err, hout⟩⟩
      · cases j with
        | command b =>
            refine .inl ⟨_, rfl, ?_⟩
            split
            case isTrue herr => exact ⟨rfl, hst.1, hst.2.2 rfl, hd, val, herr ▸ hout⟩
            case isFalse => exact ⟨rfl, hst.1, hst.2.2 rfl⟩
        | snapshot => exact .inl ⟨_, rfl, rfl, hst.1, hst.2.2 rfl⟩
        | stats => exact absurd rfl hne
        | shutdown =>
            obtain ⟨htodo, rfl⟩ := hat
            refine .inr ?_
            simp only [errorOf, Job.answered]
            split
            · exact ⟨rfl, ⟨htodo, rfl⟩, past_of_le (by omega) hst.1⟩
            · exact ⟨rfl, trivial, past_of_le (by omega) hst.1⟩
      · obtain ⟨htodo, rfl⟩ := hat
        refine .inr ?_
        simp only [errorOf, Job.answered]
        split
        · exact ⟨rfl, ⟨htodo, rfl⟩, past_of_le le_rfl hst.1⟩
        · exact ⟨rfl, trivial, past_of_le le_rfl hst.1⟩
      · exact .inl ⟨_, rfl, hst.1, hd, err, hout, .inl rfl⟩

/-- `raft_future_dispose` has returned. -/
theorem SessionOk.disposed (h : SessionOk plan s) {j : Job} {c : ℕ}
    (hprog : s.prog = .on j c .disposing) (hl : (s.pool.calls c).life = .gone) :
    SessionOk plan { s with prog := j.disposed } := by
  obtain ⟨-, hj, hobs, -⟩ := h.stage j c .disposing hprog
  obtain ⟨hnext, hat⟩ : (Prog.on j c .disposing).At plan.length s.todo s.pool.next :=
    hprog ▸ h.at_
  have hjat : c + 1 + s.todo.length = plan.length := by
    cases j with
    | command b | snapshot => exact hat
    | stats | shutdown => cases hj
  have hbuf : s.prog.buf = j.disposed.buf := by
    rw [hprog]
    cases j <;> rfl
  refine ⟨h.reach, h.quiet, ?_, ?_, fun d hd _ => ?_, hbuf ▸ h.buffers, h.made⟩
  · cases j <;> exact (hnext ▸ hjat :)
  · cases j <;> exact nofun
  · by_cases hdc : d = c
    · subst hdc
      simp only [Past]
      rw [if_pos (by omega)]
      exact ⟨hl, hobs⟩
    · refine h.past d hd ?_
      rw [hprog]
      exact fun he => hdc (Option.some.inj he).symm

/-- The main thread takes its next task. -/
theorem SessionOk.loop (h : SessionOk plan s) (hprog : s.prog = .loop) (hs : s.go = some s') :
    SessionOk plan s' := by
  have hcall : s.prog.call = none := by rw [hprog]; rfl
  have hbuf : s.prog.buf = none := by rw [hprog]; rfl
  have hat : s.pool.next + s.todo.length = plan.length := (hprog ▸ h.at_ :)
  have hmade := h.made
  simp only [Session.go, hprog] at hs
  split at hs <;> rename_i htodo <;> rw [htodo] at hat hmade
  case h_1 rest =>
      obtain ⟨p, hp, rfl⟩ := Option.map_eq_some_iff.mp hs
      have ht : Trans s.pool .allocBuffer p := trans_of_step hp
      have hpast : ∀ c < s.pool.next, Past plan.length c (p.calls c) := fun c hc =>
        h.past_keep ht hc (by simp [hcall]) (by simp)
      cases ht with
      | allocBuffer =>
          refine h.next hp ?_ nofun (fun c hc _ => hpast c hc)
            (hbuf ▸ h.buffers :).alloc_buffer ?_
          · simp only [List.length_cons] at hat
            simp only [Prog.At]
            omega
          · simp only [List.count_cons_self] at hmade
            dsimp only
            omega
  case h_2 rest =>
      refine h.send hs hcall ?_ hbuf (by simpa using hmade)
      simp only [List.length_cons] at hat
      simp only [Job.At]
      omega
  case h_3 => exact h.send hs hcall ⟨rfl, by simpa using hat⟩ hbuf hmade

/-- A statement of the main thread. -/
theorem SessionOk.go (h : SessionOk plan s) (hs : s.go = some s') : SessionOk plan s' := by
  cases hprog : s.prog with
  | loop => exact h.loop hprog hs
  | filled b =>
      simp only [Session.go, hprog] at hs
      exact h.send hs (by rw [hprog]; rfl) (hprog ▸ h.at_ :) (by rw [hprog]; rfl) h.made
  | free b =>
      simp only [Session.go, hprog] at hs
      obtain ⟨p, hp, rfl⟩ := Option.map_eq_some_iff.mp hs
      have ht : Trans s.pool (.freeBuffer b) p := trans_of_step hp
      have hpast : ∀ c < s.pool.next, Past plan.length c (p.calls c) := fun c hc =>
        h.past_keep ht hc (by rw [hprog]; nofun) (by simp)
      have hbuf : BufferOk s.pool (some b) := (hprog ▸ h.buffers :)
      cases ht with
      | freeBuffer =>
          exact h.next hp (hprog ▸ h.at_ :) nofun (fun c hc _ => hpast c hc) hbuf.free_buffer h.made
  | shutdown =>
      simp only [Session.go, hprog] at hs
      exact h.send hs (by rw [hprog]; rfl) (hprog ▸ h.at_ :) (by rw [hprog]; rfl) h.made
  | cleanup =>
      simp only [Session.go, hprog] at hs
      obtain ⟨p, hp, rfl⟩ := Option.map_eq_some_iff.mp hs
      have ht : Trans s.pool .closeOrphans p := trans_of_step hp
      have hpast : ∀ c < s.pool.next, Past plan.length c (p.calls c) := fun c hc =>
        h.past_keep ht hc (by rw [hprog]; nofun) (by simp)
      have hbuf : BufferOk p none :=
        (hprog ▸ h.buffers :).trans ht h.direct h.quiet (by simp) (by simp)
      cases ht with
      | closeOrphans =>
          exact h.next hp (hprog ▸ h.at_ :) nofun (fun c hc _ => hpast c hc) hbuf h.made
  | exited ok => simp [Session.go, hprog] at hs
  | on j c stage =>
      obtain ⟨htag, hst⟩ := h.stage j c stage hprog
      have huse : UseOk (s.pool.calls c) ((s.pool.calls c).uses ()) :=
        (h.inv.calls c).usage.use ()
      cases stage with
      | sending =>
          simp only [Session.go, hprog] at hs
          split at hs
          · refine h.use hprog hs rfl fun call slot hcall => ?_
            cases hcall with
            | start hl hu =>
                refine .inl ⟨_, rfl, hl, ?_, fun hj => ?_⟩
                · simpa [Call.setUse, htag] using works_first j.suits_op
                · cases j <;> simp_all [Job.isTask, Job.op]
          · cases hs
      | waiting =>
          simp only [Session.go, hprog] at hs
          split at hs
          · exact h.answered hprog ‹_› hs
          · cases hs
      | reading =>
          simp only [Session.go, hprog] at hs
          refine h.use hprog hs rfl fun call slot hcall => ?_
          obtain ⟨hj, hans⟩ := hst
          cases hcall with
          | start hl hu =>
              refine .inl ⟨_, rfl, hj, ⟨hl, ?_, hans.completed, hans.outcome⟩, ?_⟩
              · simp [hans.waited]
              · have hsuits : suits j.tag (.getFsmReply true) = true := by simp [suits, hj]
                simpa [Call.setUse, htag] using works_first hsuits
      | fetching =>
          simp only [Session.go, hprog] at hs
          split at hs
          case h_1 op fast res hu =>
              have hout := hst.fetched htag huse hu
              obtain ⟨hj, hans, -⟩ := hst
              refine h.use hprog hs rfl fun call slot hcall => .inl ⟨_, rfl, ?_⟩
              cases hcall with
              | leave _ =>
                  split <;> rename_i hzero
                  · exact ⟨hans.held, hans.completed, .success, by rw [hout, hzero], .inr ⟨hj, rfl⟩⟩
                  · exact ⟨j.isTask_of_tag hj, hans.held, hans.waited⟩
          case h_2 => cases hs
      | dispose =>
          simp only [Session.go, hprog] at hs
          obtain ⟨hj, hl, hw⟩ := hst
          refine h.use hprog hs rfl fun call slot hcall => .inl ⟨_, rfl, ?_⟩
          cases hcall with
          | dispose _ hact =>
              have hobs := (h.inv.calls c).usage.observed_of_entered hact
                (by simp [Call.entered, hw])
              exact ⟨hj, hobs, rfl⟩
      | disposing =>
          simp only [Session.go, hprog] at hs
          obtain ⟨-, -, hl⟩ := hst
          split at hs <;> rename_i hlife
          · simp [hlife, Life.ending] at hl
          · cases hs
            exact h.disposed hprog hlife
          · simp [hlife, Life.ending] at hl
          · cases hs
      | aborted => simp [Session.go, hprog] at hs

theorem SessionOk.step (h : SessionOk plan s) {a : SessionAct ρ} (hs : s.step a = some s') :
    SessionOk plan s' := by
  cases a with
  | go => exact h.go hs
  | pool a =>
      simp only [Session.step] at hs
      split at hs <;> rename_i hf
      · obtain ⟨p, hp, rfl⟩ := Option.map_eq_some_iff.mp hs
        exact h.foreign hf hp
      · cases hs

theorem sessionOk_of_reachable (h : (session plan).Reachable s) : SessionOk plan s :=
  h.invariant sessionOk_initial fun _ _ _ _ hs ht _ => hs.step ht

/-- As long as the guard of the collector does not outlive a slot, slots and mutexes
are used properly. -/
theorem slotSafe_of_excl {p p' : State Unit ρ} {a : Act Unit ρ} (he : Excl p) (hi : Inv p)
    (ht : Trans p a p') (hn : p.lateRelease a = none) : SlotSafe p a p' := by
  refine ⟨fun c hc => he.pool_of_touches hi ht hn hc, fun c x hc => ?_⟩
  have hpool := he.pool_of_touches hi ht hn (touches_of_unlocks hc)
  have hheld := he.held c ((hi.pool _ c).mp hpool).1
  exact ⟨hpool, (hheld x).mpr (inside_of_unlocks ht hn hc)⟩

/-- At any time of a session, no slot is touched after its deallocation and no mutex is
unlocked for somebody else. Apart from those in use, every command buffer has been freed
once, by the client, and the slot of every command and snapshot has been deallocated once,
without the collector. -/
theorem client_gives_back (plan : List Task) (h : (session plan).Reachable s) :
    (∀ a p, Pool.step s.pool a = some p → SlotSafe s.pool a p) ∧
      (∀ b < s.pool.buffers, s.pool.frees b = if s.prog.buf = some b then ⟨0, 0⟩ else ⟨1, 0⟩) ∧
      ∀ c < s.pool.next, s.prog.call ≠ some c → c < plan.length →
        (s.pool.calls c).frees = 1 ∧ (s.pool.calls c).handed = false := by
  have hok := sessionOk_of_reachable h
  refine ⟨fun a p hp => ?_, fun b hb => ?_, fun c hc hcall hn => ?_⟩
  · exact slotSafe_of_excl (excl_of_reach hok.reach) hok.inv (trans_of_step hp)
      (hok.quiet.lateRelease_eq_none a)
  · rw [hok.buffers.frees b]
    split <;> simp_all
  · obtain ⟨hl, hobs⟩ : (s.pool.calls c).life = .gone ∧ (s.pool.calls c).client = .observed := by
      simpa [Past, hn] using hok.past c hc hcall
    exact (hok.inv.calls c).freed_of_gone hl hobs

/-- At the end of a session which returns 0, the futures of `raft_stats` and of
`raft_shutdown` are the only ones which the client has not disposed of, and all command
buffers have been freed: the counters say so, as far as they count the client's own calls
and buffers. -/
theorem counters_at_exit (o : Options) (lines : List (List UInt8))
    (h : (session (o.plan lines)).Reachable s) (he : s.prog = .exited true) :
    (∀ c < s.pool.next, (s.pool.calls c).life = .gone ↔ c < (o.plan lines).length) ∧
      s.pool.callAlloc = UInt64.ofNat ((o.plan lines).length + 2) ∧
      s.pool.callFree = UInt64.ofNat (o.plan lines).length ∧
      s.pool.bufferAlloc = UInt64.ofNat ((o.plan lines).count .command) ∧
      s.pool.bufferFree = s.pool.bufferAlloc ∧
      (o.interactive = false →
        s.pool.callFree = UInt64.ofNat (o.runs.toNat + o.runs.toNat / o.snapshotPeriod.toNat) ∧
        s.pool.bufferFree = UInt64.ofNat o.runs.toNat) := by
  have hok := sessionOk_of_reachable h
  obtain ⟨htodo, hnext⟩ : s.todo = [] ∧ s.pool.next = (o.plan lines).length + 2 :=
    (he ▸ hok.at_ :)
  have hgone : ∀ c < s.pool.next, (s.pool.calls c).life = .gone ↔ c < (o.plan lines).length := by
    intro c hc
    have hpast := hok.past c hc (by rw [he]; nofun)
    unfold Past at hpast
    split at hpast <;> simp_all
  have hcount := counters_of_reachable hok.reach.reachable
  have hcard : s.pool.gone = Finset.range (o.plan lines).length := by
    ext c
    simp only [State.gone, Finset.mem_filter, Finset.mem_range]
    constructor
    · rintro ⟨hc, hl⟩
      exact (hgone c hc).mp hl
    · intro hc
      have hlt : c < s.pool.next := by omega
      exact ⟨hlt, (hgone c hlt).mpr hc⟩
  have hfree : s.pool.callFree = UInt64.ofNat (o.plan lines).length := by
    rw [hcount.free, hcard, Finset.card_range]
  have halloc : s.pool.bufferAlloc = UInt64.ofNat ((o.plan lines).count .command) := by
    have hmade := hok.made
    rw [htodo, List.count_nil, Nat.add_zero] at hmade
    rw [hok.buffers.alloc, hmade]
  have hbuf : s.pool.bufferFree = s.pool.bufferAlloc := by
    have hf := hok.buffers.free
    simp only [he, Prog.buf, Option.isSome_none, Bool.false_eq_true, if_false,
      UInt64.add_zero] at hf
    exact hf.symm
  refine ⟨hgone, hnext ▸ hcount.alloc, hfree, halloc, hbuf, fun hauto => ?_⟩
  have hplan : o.plan lines = runAuto o := by simp [Options.plan, hauto]
  rw [hbuf, hfree, halloc, hplan, length_runAuto, count_runAuto]
  exact ⟨rfl, rfl⟩

/-- The assertions which the main thread meets fail only if a command was answered with a
null pointer, or the call of `raft_stats` was completed without a handle. -/
theorem assertion_fails_on_null (plan : List Task) (h : (session plan).Reachable s) {j : Job}
    {c : ℕ} (ha : s.prog = .on j c .aborted) :
    (s.pool.calls c).tag = j.tag ∧ (s.pool.calls c).completed = true ∧
      ∃ err, (s.pool.calls c).outcome = some (err, 0) ∧
        (j = .stats ∨ j.tag = .apply ∧ err = .success) := by
  obtain ⟨htag, -, hd, hout⟩ := (sessionOk_of_reachable h).stage j c .aborted ha
  exact ⟨htag, hd, hout⟩

end Session

section Runs

/-- Call `c` is sent, taken by the Raft side and answered, and the main thread comes back
from its first operation on the future, which has `n` statements. -/
def callRun (c n : ℕ) (val : UInt64) : List (SessionAct Unit) :=
  [SessionAct.go] ++ ([Act.allocate c 0, Act.enqueue c] ++
    List.replicate 4 (Act.api (.step (.inl c) none)) ++ [Act.sent c] ++
    [Act.api (.call (.inr ()) .take)] ++ List.replicate 4 (Act.api (.step (.inr ()) none)) ++
    [Act.api (.leave (.inr ())), Act.call c .raftLock,
      Act.call c (.raftReply (some val) .success)] ++
    List.replicate 5 (Act.call c (.raft none)) ++ [Act.call c .raftUnlock]).map SessionAct.pool ++
    [SessionAct.go] ++ List.replicate n (SessionAct.pool (.call c (.use ()))) ++ [SessionAct.go]

/-- The main thread disposes of call `c`. -/
def disposeCallRun (c : ℕ) : List (SessionAct Unit) :=
  [SessionAct.go, SessionAct.pool (.call c .disposeStep), SessionAct.pool (.dispose c),
    SessionAct.pool (.dispose c), SessionAct.go]

/-- The main thread sends a command for which call 0 is created, and reads the answer. -/
def commandRun (val : UInt64) : List (SessionAct Unit) :=
  [SessionAct.go] ++ callRun 0 5 val ++ [SessionAct.go, SessionAct.pool (.call 0 (.use ())),
    SessionAct.pool (.call 0 (.use ())), SessionAct.go]

/-- One run with a snapshot. -/
def shortOptions : Options := ⟨1, 1, false⟩

/-- A session with these options. -/
def shortRun : List (SessionAct Unit) :=
  commandRun 8 ++ disposeCallRun 0 ++ [SessionAct.go] ++ callRun 1 5 0 ++ disposeCallRun 1 ++
    callRun 2 2 9 ++ callRun 3 5 0 ++ [SessionAct.go]

theorem client_gives_back_command :
    ∃ s : Session Unit, s.prog = .exited true ∧ s.pool.buffers = 1 ∧ s.pool.frees 0 = ⟨1, 0⟩ ∧
      (s.pool.calls 0).frees = 1 := by
  obtain ⟨s, hs, hprog, hbuf, hnext⟩ := Scheduled.exists_reachable_of_run
    (session (shortOptions.plan [])) shortRun
    (fun s => s.prog = .exited true ∧ s.pool.buffers = 1 ∧ s.pool.next = 4) (by decide +kernel)
  obtain ⟨-, hfrees, hcalls⟩ := client_gives_back _ hs
  refine ⟨s, hprog, hbuf, ?_, ?_⟩
  · rw [hfrees 0 (by omega), hprog]
    rfl
  · exact (hcalls 0 (by omega) (by rw [hprog]; nofun) (by decide)).1

theorem counters_at_exit_short :
    ∃ s : Session Unit, s.prog = .exited true ∧ s.pool.callAlloc = 4 ∧ s.pool.callFree = 2 ∧
      s.pool.bufferFree = 1 := by
  obtain ⟨s, hs, hprog⟩ := Scheduled.exists_reachable_of_run
    (session (shortOptions.plan [])) shortRun (fun s => s.prog = .exited true)
    (by decide +kernel)
  obtain ⟨-, halloc, hfree, -, -, hauto⟩ := counters_at_exit shortOptions [] hs hprog
  exact ⟨s, hprog, halloc, hfree, (hauto rfl).2⟩

/-- The Raft side answers a command with a null pointer. -/
theorem assertion_fails_on_null_command :
    ∃ s : Session Unit, s.prog = .on (.command 0) 0 .aborted ∧
      ∃ err, (s.pool.calls 0).outcome = some (err, 0) := by
  obtain ⟨s, hs, hprog⟩ := Scheduled.exists_reachable_of_run
    (session (shortOptions.plan [])) (commandRun 0)
    (fun s => s.prog = .on (.command 0) 0 .aborted) (by decide +kernel)
  obtain ⟨-, -, err, hout, -⟩ := assertion_fails_on_null _ hs hprog
  exact ⟨s, hprog, err, hout⟩

end Runs

end Libraft.Client
