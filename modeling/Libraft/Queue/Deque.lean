import Libraft.Foundation.Scheduled
import Libraft.Foundation.CondVar
import Mathlib.Tactic.Simps.Basic

/-!
# The unbounded blocking queue

`Deque` of `queue.h`: a double-ended queue behind one mutex and one condition
variable. Any number of threads call `put`, `emplace`, `take`, `poll_until`,
`close` and `reset`. Every operation begins with the acquisition of the mutex;
that of `poll_until` gives up at its deadline, and so does its wait.

## Implementation notes

A thread is interrupted before and after the acquisition of the mutex, at
`check_closed`, at the loop test, while it is blocked, and after it has woken
up. All members are guarded by the mutex, so the statements of `close`, of
`reset`, and those behind the last test of the other operations run as one
step. Deadlines are the scheduler's: `late` says that the time of a
`poll_until` is over, be it in front of the mutex or when `wait_until` has
returned. A thread which times out in its wait leaves it like one which wakes
up without a notification.

`accepted` and `delivered` are history: the values stored and the values
returned since the last `reset`.
-/

namespace Libraft.Queue.Deque

open Libraft.Foundation

variable {T ι : Type*}

inductive Op (T : Type*)
  | put (val : T)
  | emplace (val : T)
  | take
  | pollUntil
  | close
  | reset
  deriving DecidableEq

/-- The operations which pass through the waiting loop. -/
def Op.consumes : Op T → Bool
  | .take | .pollUntil => true
  | _ => false

/-- How an operation ends. -/
inductive Outcome (T : Type*)
  | returned
  | value (val : T)
  /-- `{ false, T() }` -/
  | timedOut
  /-- `queue_closed` was thrown -/
  | queueClosed
  deriving DecidableEq

/-- Where a thread stands. -/
inductive Pc (T : Type*)
  | idle
  /-- before the acquisition of the mutex -/
  | lock (op : Op T)
  /-- holds the mutex, before the first `check_closed` -/
  | check (op : Op T)
  /-- holds the mutex, before the loop test -/
  | loop (op : Op T)
  /-- blocked in `ready.wait` or `ready.wait_until` -/
  | wait (op : Op T)
  /-- holds the mutex again, behind the wait -/
  | recheck (op : Op T)
  /-- holds the mutex, behind the last test -/
  | body (op : Op T)
  | done (out : Outcome T)
  deriving DecidableEq

/-- The positions between acquiring and releasing the mutex. -/
def Pc.holds : Pc T → Bool
  | .check _ | .loop _ | .recheck _ | .body _ => true
  | _ => false

/-- Where an operation stands once it has the mutex: `close` and `reset` test nothing. -/
def Op.entered : Op T → Pc T
  | .close => .body .close
  | .reset => .body .reset
  | op => .check op

/-- Where an operation stands once the queue is known to be open. -/
def Op.checked (op : Op T) : Pc T := if op.consumes then .loop op else .body op

structure State (T ι : Type*) where
  deque : List T
  closed : Bool
  mutex : Option ι
  ready : CondVar ι
  pc : ι → Pc T
  accepted : List T
  delivered : List T

def initial : State T ι where
  deque := []
  closed := false
  mutex := none
  ready := .empty
  pc := fun _ => .idle
  accepted := []
  delivered := []

/-- What the scheduler decides. `step t w` runs the next step of `t`; when
that step is a `notify_one`, it wakes `w`. -/
inductive Act (T ι : Type*)
  | call (t : ι) (op : Op T)
  | step (t : ι) (w : Option ι)
  /-- the deadline of the `poll_until` of `t` has passed -/
  | late (t : ι)
  /-- a wakeup without notification -/
  | spurious (t : ι)
  /-- the caller goes on with the outcome -/
  | leave (t : ι)

section Step
variable [DecidableEq ι]

@[simps] def State.goto (s : State T ι) (t : ι) (p : Pc T) : State T ι :=
  { s with pc := Function.update s.pc t p }

/-- The operation of `t` ends, and with it the scope of its lock. -/
@[simps] def State.finish (s : State T ι) (t : ι) (out : Outcome T) : State T ι :=
  { s with mutex := none, pc := Function.update s.pc t (.done out) }

/-- `deque.push_back(val); ready.notify_one()`. -/
def State.store (s : State T ι) (w : Option ι) (val : T) : Option (State T ι) :=
  (s.ready.notifyOne w).map fun c =>
    { s with deque := s.deque ++ [val], ready := c, accepted := s.accepted ++ [val] }

/-- `val = std::move(deque.front()); deque.pop_front()`. -/
def State.remove (s : State T ι) (t : ι) : Option (State T ι) :=
  match s.deque with
  | [] => none
  | val :: rest =>
      some ({ s with deque := rest, delivered := s.delivered ++ [val] }.finish t (.value val))

/-- The statements behind the last test of an operation. -/
def body (s : State T ι) (t : ι) (w : Option ι) : Op T → Option (State T ι)
  | .put val | .emplace val => (s.store w val).map fun s' => s'.finish t .returned
  | .take | .pollUntil => s.remove t
  | .close => some ({ s with closed := true, ready := s.ready.notifyAll }.finish t .returned)
  | .reset =>
      some ({ s with
        closed := false, deque := [], ready := s.ready.notifyAll
        accepted := [], delivered := [] }.finish t .returned)

/-- The next step of thread `t`. -/
def next (s : State T ι) (t : ι) (w : Option ι) : Option (State T ι) :=
  match s.pc t with
  | .idle | .done _ => none
  | .lock op =>
      if s.mutex.isNone then some ({ s with mutex := some t }.goto t op.entered) else none
  | .check op => some (if s.closed then s.finish t .queueClosed else s.goto t op.checked)
  | .loop op =>
      some (if s.deque.isEmpty then
        { s with mutex := none, ready := s.ready.wait t }.goto t (.wait op)
      else s.goto t (.body op))
  | .wait op =>
      if s.mutex.isNone ∧ t ∈ s.ready.notified then
        some ({ s with mutex := some t, ready := s.ready.resume t }.goto t (.recheck op))
      else none
  | .recheck op => some (if s.closed then s.finish t .queueClosed else s.goto t (.loop op))
  | .body op => body s t w op

def step (s : State T ι) : Act T ι → Option (State T ι)
  | .call t op =>
      match s.pc t with
      | .idle => some (s.goto t (.lock op))
      | _ => none
  | .step t w => next s t w
  | .late t =>
      match s.pc t with
      | .lock .pollUntil => some (s.goto t (.done .timedOut))
      | .recheck .pollUntil => some (s.finish t .timedOut)
      | _ => none
  | .spurious t => if t ∈ s.ready.waiting then some { s with ready := s.ready.wake t } else none
  | .leave t =>
      match s.pc t with
      | .done _ => some (s.goto t .idle)
      | _ => none

/-- The queue with all its threads as a scheduled system. -/
def system : Scheduled (State T ι) (Act T ι) where
  init := initial
  step := step

end Step

section Trans
variable [DecidableEq ι]

/-- The transitions of the queue, one constructor for each branch of the source. -/
inductive Trans (s : State T ι) : Act T ι → State T ι → Prop
  | call {t op} (h : s.pc t = .idle) : Trans s (.call t op) (s.goto t (.lock op))
  | lock {t w op} (h : s.pc t = .lock op) (hm : s.mutex = none) :
      Trans s (.step t w) ({ s with mutex := some t }.goto t op.entered)
  | checkClosed {t w op} (h : s.pc t = .check op) (hc : s.closed = true) :
      Trans s (.step t w) (s.finish t .queueClosed)
  | checkOpen {t w op} (h : s.pc t = .check op) (hc : s.closed = false) :
      Trans s (.step t w) (s.goto t op.checked)
  | block {t w op} (h : s.pc t = .loop op) (hb : s.deque = []) :
      Trans s (.step t w) ({ s with mutex := none, ready := s.ready.wait t }.goto t (.wait op))
  | pass {t w op} (h : s.pc t = .loop op) (hb : s.deque ≠ []) :
      Trans s (.step t w) (s.goto t (.body op))
  | wakeUp {t w op} (h : s.pc t = .wait op) (hm : s.mutex = none) (hn : t ∈ s.ready.notified) :
      Trans s (.step t w)
        ({ s with mutex := some t, ready := s.ready.resume t }.goto t (.recheck op))
  | recheckClosed {t w op} (h : s.pc t = .recheck op) (hc : s.closed = true) :
      Trans s (.step t w) (s.finish t .queueClosed)
  | recheckOpen {t w op} (h : s.pc t = .recheck op) (hc : s.closed = false) :
      Trans s (.step t w) (s.goto t (.loop op))
  | store {t w op val c} (h : s.pc t = .body op) (ho : op = .put val ∨ op = .emplace val)
      (hn : s.ready.notifyOne w = some c) :
      Trans s (.step t w)
        ({ s with deque := s.deque ++ [val], ready := c, accepted := s.accepted ++ [val] }.finish t
          .returned)
  | remove {t w op val rest} (h : s.pc t = .body op) (ho : op.consumes = true)
      (hd : s.deque = val :: rest) :
      Trans s (.step t w)
        ({ s with deque := rest, delivered := s.delivered ++ [val] }.finish t (.value val))
  | close {t w} (h : s.pc t = .body .close) :
      Trans s (.step t w)
        ({ s with closed := true, ready := s.ready.notifyAll }.finish t .returned)
  | reset {t w} (h : s.pc t = .body .reset) :
      Trans s (.step t w)
        ({ s with
          closed := false, deque := [], ready := s.ready.notifyAll
          accepted := [], delivered := [] }.finish t .returned)
  | lateLock {t} (h : s.pc t = .lock .pollUntil) :
      Trans s (.late t) (s.goto t (.done .timedOut))
  | lateWait {t} (h : s.pc t = .recheck .pollUntil) : Trans s (.late t) (s.finish t .timedOut)
  | spurious {t} (h : t ∈ s.ready.waiting) :
      Trans s (.spurious t) { s with ready := s.ready.wake t }
  | leave {t out} (h : s.pc t = .done out) : Trans s (.leave t) (s.goto t .idle)

variable {s s' : State T ι} {t : ι} {w : Option ι}

theorem trans_of_store {op : Op T} {val : T} (hpc : s.pc t = .body op)
    (ho : op = .put val ∨ op = .emplace val)
    (h : (s.store w val).map (fun s' => s'.finish t .returned) = some s') :
    Trans s (.step t w) s' := by
  obtain ⟨s₁, h₁, rfl⟩ := Option.map_eq_some_iff.mp h
  obtain ⟨c, hc, rfl⟩ := Option.map_eq_some_iff.mp h₁
  exact .store hpc ho hc

theorem trans_of_remove {op : Op T} (hpc : s.pc t = .body op) (ho : op.consumes = true)
    (h : s.remove t = some s') : Trans s (.step t w) s' := by
  unfold State.remove at h
  split at h <;> cases h
  exact .remove hpc ho ‹_›

theorem trans_of_body {op : Op T} (hpc : s.pc t = .body op) (h : body s t w op = some s') :
    Trans s (.step t w) s' := by
  cases op with
  | put val => exact trans_of_store hpc (.inl rfl) h
  | emplace val => exact trans_of_store hpc (.inr rfl) h
  | take | pollUntil => exact trans_of_remove hpc rfl h
  | close => cases h; exact .close hpc
  | reset => cases h; exact .reset hpc

theorem trans_of_next (h : next s t w = some s') : Trans s (.step t w) s' := by
  unfold next at h
  split at h
  case h_1 | h_2 => cases h
  case h_3 op hpc =>
      split at h <;> rename_i hm <;> cases h
      exact .lock hpc (Option.isNone_iff_eq_none.mp hm)
  case h_4 op hpc =>
      split at h <;> rename_i hc <;> cases h
      · exact .checkClosed hpc hc
      · exact .checkOpen hpc (Bool.eq_false_iff.mpr hc)
  case h_5 op hpc =>
      split at h <;> rename_i hb <;> cases h
      · exact .block hpc (List.isEmpty_iff.mp hb)
      · exact .pass hpc fun he => hb (List.isEmpty_iff.mpr he)
  case h_6 op hpc =>
      split at h <;> rename_i hm <;> cases h
      exact .wakeUp hpc (Option.isNone_iff_eq_none.mp hm.1) hm.2
  case h_7 op hpc =>
      split at h <;> rename_i hc <;> cases h
      · exact .recheckClosed hpc hc
      · exact .recheckOpen hpc (Bool.eq_false_iff.mpr hc)
  case h_8 op hpc => exact trans_of_body hpc h

/-- Everything one step can do. -/
theorem trans_of_step {a : Act T ι} (h : step s a = some s') : Trans s a s' := by
  cases a with
  | step t w => exact trans_of_next h
  | call t op =>
      simp only [step] at h
      split at h <;> rename_i hpc <;> cases h
      exact .call hpc
  | late t =>
      simp only [step] at h
      split at h <;> rename_i hpc <;> cases h
      · exact .lateLock hpc
      · exact .lateWait hpc
  | spurious t =>
      simp only [step] at h
      split at h <;> rename_i ht <;> cases h
      exact .spurious ht
  | leave t =>
      simp only [step] at h
      split at h <;> rename_i hpc <;> cases h
      exact .leave hpc

end Trans

/-- The positions of a thread blocked on `ready`. -/
def Pc.waits : Pc T → Prop
  | .wait _ => True
  | _ => False

/-- The mutex and the condition variable agree with the positions of the threads. -/
structure Sound (s : State T ι) : Prop where
  holder : HeldAt Pc.holds s.mutex s.pc
  blocked : BlockedAt Pc.waits s.ready s.pc

theorem sound_initial : Sound (initial : State T ι) where
  holder := by intro t; simp [initial, Pc.holds]
  blocked := BlockedAt.empty fun _ => id

section Sound
variable [DecidableEq ι] {s s' : State T ι} {a : Act T ι}

theorem Op.entered_holds (op : Op T) : op.entered.holds = true ∧ ¬ op.entered.waits := by
  cases op <;> simp [Op.entered, Pc.holds, Pc.waits]

theorem Op.checked_holds (op : Op T) : op.checked.holds = true ∧ ¬ op.checked.waits := by
  unfold Op.checked
  split <;> simp [Pc.holds, Pc.waits]

theorem Sound.trans (hs : Sound s) (h : Trans s a s') : Sound s' := by
  obtain ⟨hh, hb⟩ := hs
  cases h with
  | call h | pass h hd | recheckOpen h hc | lateLock h | leave h =>
      exact ⟨hh.keep (by simp [h, Pc.holds]), hb.keep (by simp [h, Pc.waits])⟩
  | @lock t w op h hm =>
      exact ⟨(hm ▸ hh).acquire op.entered_holds.1,
        hb.keep (iff_of_false op.entered_holds.2 (by simp [h, Pc.waits]))⟩
  | @checkOpen t w op h hc =>
      exact ⟨hh.keep (by rw [op.checked_holds.1, h]; rfl),
        hb.keep (iff_of_false op.checked_holds.2 (by simp [h, Pc.waits]))⟩
  | block h hd =>
      exact ⟨hh.release (by simp [h, Pc.holds]) rfl, hb.wait trivial⟩
  | wakeUp h hm hn => exact ⟨(hm ▸ hh).acquire rfl, hb.resume hn id⟩
  | checkClosed h hc | recheckClosed h hc | remove h ho hd | lateWait h =>
      exact ⟨hh.release (by simp [h, Pc.holds]) rfl, hb.keep (by simp [h, Pc.waits])⟩
  | store h ho hn =>
      exact ⟨hh.release (by simp [h, Pc.holds]) rfl,
        (hb.notifyOne hn).keep (by simp [h, Pc.waits])⟩
  | close h | reset h =>
      exact ⟨hh.release (by simp [h, Pc.holds]) rfl, hb.notifyAll.keep (by simp [h, Pc.waits])⟩
  | spurious h => exact ⟨hh, hb.wake h⟩

theorem sound_of_reachable (h : (system : Scheduled (State T ι) (Act T ι)).Reachable s) :
    Sound s :=
  Scheduled.Reach.invariant h sound_initial fun _ _ _ _ hs ht _ => hs.trans (trans_of_step ht)

end Sound

end Libraft.Queue.Deque
