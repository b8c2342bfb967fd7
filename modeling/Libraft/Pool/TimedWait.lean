import Libraft.Pool.Results
import Libraft.Pool.Uses

/-!
# Timed waits

`raft_future_wait_for` with a clock: `make_ptime` computes the deadline,
`timed_lock` waits for the slot's mutex until then, and the state of the slot
is tested once under the mutex. Nobody waits for the condition variable, so a
timed wait for a call which is still queued, or whose answer is not under way,
finds the mutex free and gives up at once.

## Implementation notes

The clock counts microseconds in the representation of `ptime`. Every call of
`raft_future_wait_for` has a timer, which records when it was called and when
it returned. With a duration of zero the function is `poll`. Sums and products
are computed in 64 bits, and wrap around.
-/

namespace Libraft.Pool

open Libraft.Foundation Libraft.Calls

variable {τ ρ : Type*}

/-- What `wait_for` knows, and when it was called and returned. -/
structure Timer where
  waitMs : UInt64
  called : ℕ
  /-- the result of `make_ptime` -/
  deadline : Option Int64
  returned : Option ℕ
  deriving DecidableEq

/-- The moment before which the wait is not to give up. -/
def Timer.due (timer : Timer) : ℕ := timer.called + 1000 * timer.waitMs.toNat

/-- `make_ptime(milliseconds(wait_ms))`. -/
def makePtime (waitMs : UInt64) (now : ℕ) : Int64 := Int64.ofNat now + waitMs.toInt64 * 1000

structure Timed (τ ρ : Type*) where
  pool : State τ ρ
  now : ℕ
  timers : ℕ → τ → Option Timer

inductive TimedAct (τ ρ : Type*)
  | tick (us : ℕ)
  /-- `raft_future_wait_for` is called -/
  | waitFor (c : ℕ) (t : τ) (waitMs : UInt64)
  | makePtime (c : ℕ) (t : τ)
  | pool (a : Act τ ρ)

section Step
variable [DecidableEq τ] [DecidableEq ρ]

def Timed.setTimer (s : Timed τ ρ) (c : ℕ) (t : τ) (timer : Timer) : ℕ → τ → Option Timer :=
  Function.update s.timers c (Function.update (s.timers c) t (some timer))

/-- `timed_lock` returns when it can have the mutex, or when its time is over. -/
def Timed.mayLock (s : Timed τ ρ) (c : ℕ) (t : τ) : Bool :=
  match s.timers c t with
  | some ⟨_, _, some deadline, _⟩ => (s.pool.slot c).owned.isNone || deadline.toInt ≤ s.now
  | _ => false

/-- The steps of the pool which have nothing to do with the clock, and those of
`timed_lock` when it may return. -/
def Timed.mayStep (s : Timed τ ρ) : Act τ ρ → Bool
  | .call _ (.start _ op) => op ≠ .waitFor
  | .call c (.use t) =>
      (s.pool.calls c).uses t ≠ .polling .waitFor .tryLock || s.mayLock c t
  | _ => true

/-- The timer of a wait which comes to the position `use`. -/
def Timer.after (timer : Timer) (now : ℕ) : Use → Timer
  | .done .waitFor _ _ => { timer with returned := some now }
  | _ => timer

/-- The timers after a step which leads to the pool `p`. -/
def Timed.recordReturn (s : Timed τ ρ) (p : State τ ρ) : Act τ ρ → ℕ → τ → Option Timer
  | .call c (.use t) =>
      match s.timers c t with
      | some timer => s.setTimer c t (timer.after s.now ((p.calls c).uses t))
      | none => s.timers
  | _ => s.timers

def Timed.step (s : Timed τ ρ) : TimedAct τ ρ → Option (Timed τ ρ)
  | .tick us => some { s with now := s.now + us }
  | .waitFor c t waitMs =>
      if waitMs ≠ 0 then
        (Pool.step s.pool (.call c (.start t .waitFor))).map fun p =>
          { s with pool := p, timers := s.setTimer c t ⟨waitMs, s.now, none, none⟩ }
      else none
  | .makePtime c t =>
      match s.timers c t with
      | some ⟨waitMs, called, none, returned⟩ =>
          some { s with
            timers := s.setTimer c t
              ⟨waitMs, called, some (Pool.makePtime waitMs s.now), returned⟩ }
      | _ => none
  | .pool a =>
      if s.mayStep a then
        (Pool.step s.pool a).map fun p =>
          { s with pool := p, timers := s.recordReturn p a }
      else none

/-- The pool with a clock as a scheduled system. -/
def timed : Scheduled (Timed τ ρ) (TimedAct τ ρ) where
  init := ⟨initial, 0, fun _ _ => none⟩
  step := Timed.step

/-- What the steps with a clock do. -/
inductive TimedTrans (s : Timed τ ρ) : TimedAct τ ρ → Timed τ ρ → Prop
  | tick {us} : TimedTrans s (.tick us) { s with now := s.now + us }
  | waitFor {c t waitMs p} (hp : Pool.step s.pool (.call c (.start t .waitFor)) = some p) :
      TimedTrans s (.waitFor c t waitMs)
        { s with pool := p, timers := s.setTimer c t ⟨waitMs, s.now, none, none⟩ }
  | makePtime {c t waitMs called returned}
      (htimer : s.timers c t = some ⟨waitMs, called, none, returned⟩) :
      TimedTrans s (.makePtime c t)
        { s with
          timers := s.setTimer c t
            ⟨waitMs, called, some (Pool.makePtime waitMs s.now), returned⟩ }
  | pool {a p} (hp : Pool.step s.pool a = some p) (hm : s.mayStep a = true) :
      TimedTrans s (.pool a) { s with pool := p, timers := s.recordReturn p a }

theorem timedTrans_of_step {s s' : Timed τ ρ} {a : TimedAct τ ρ} (h : timed.step s a = some s') :
    TimedTrans s a s' := by
  simp only [timed, Timed.step] at h
  split at h
  case h_1 =>
      cases h
      exact .tick
  case h_2 =>
      split at h
      · obtain ⟨p, hp, rfl⟩ := Option.map_eq_some_iff.mp h
        exact .waitFor hp
      · cases h
  case h_3 =>
      split at h <;> rename_i htimer <;> cases h
      exact .makePtime htimer
  case h_4 =>
      split at h <;> rename_i hm
      · obtain ⟨p, hp, rfl⟩ := Option.map_eq_some_iff.mp h
        exact .pool hp hm
      · cases h

/-- The wait whose deadline is computed in the step. -/
def TimedAct.computing : TimedAct τ ρ → Option (ℕ × τ)
  | .makePtime c t => some (c, t)
  | _ => none

/-- The wait which gets the mutex in the step. -/
def Timed.acquiring (s : Timed τ ρ) : TimedAct τ ρ → Option (ℕ × τ)
  | .pool (.call c (.use t)) =>
      if (s.pool.calls c).uses t = .polling .waitFor .tryLock ∧ (s.pool.slot c).owned.isNone then
        some (c, t)
      else none
  | _ => none

/-- The clock does not run out of its range before the deadline, and `timed_lock`
gets the mutex of a slot without a result only when the time is over. -/
def Patient (s : Timed τ ρ) (a : TimedAct τ ρ) (_ : Timed τ ρ) : Prop :=
  (∀ x ∈ a.computing, ∀ timer ∈ s.timers x.1 x.2, s.now + 1000 * timer.waitMs.toNat < 2 ^ 63) ∧
    ∀ x ∈ s.acquiring a, isTerminal (s.pool.slot x.1).state = true ∨
      ∀ timer ∈ s.timers x.1 x.2, timer.due ≤ s.now

instance (s : Timed τ ρ) (a : TimedAct τ ρ) (s' : Timed τ ρ) : Decidable (Patient s a s') :=
  inferInstanceAs (Decidable (_ ∧ _))

end Step

section Deadlines

/-- Without an overflow the deadline is what it should be. -/
theorem toInt_makePtime {waitMs : UInt64} {now : ℕ} (h : now + 1000 * waitMs.toNat < 2 ^ 63) :
    (makePtime waitMs now).toInt = now + 1000 * waitMs.toNat := by
  have hms : waitMs.toInt64.toInt = waitMs.toNat := by
    rw [← Int64.toInt_ofNat_of_lt (show waitMs.toNat < 2 ^ 63 by omega),
      ← UInt64.toInt64_ofNat', UInt64.ofNat_toNat]
  have hprod : (waitMs.toInt64 * 1000).toInt = 1000 * waitMs.toNat := by
    rw [Int64.toInt_mul, hms, Int.bmod_eq_of_le (by simp; omega) (by simp; omega)]
    simp [mul_comm]
  rw [makePtime, Int64.toInt_add, hprod, Int64.toInt_ofNat_of_lt (by omega),
    Int.bmod_eq_of_le (by omega) (by omega)]

end Deadlines

section Punctual

/-- The positions of a timed wait, its end included. -/
def Use.timed : Use → Bool
  | .polling .waitFor _ | .done .waitFor _ (.polled _) => true
  | _ => false

/-- What a timed wait knows about the time at each position. -/
def TimerOk (timer : Timer) (now : ℕ) (completed : Bool) : Use → Prop
  | .polling .waitFor .tryLock => ∀ d ∈ timer.deadline, timer.due ≤ d.toInt
  | .polling .waitFor .test => completed = true ∨ timer.due ≤ now
  | .polling .waitFor (.unlock false) => timer.due ≤ now
  | .done .waitFor _ (.polled false) => ∃ r ∈ timer.returned, timer.due ≤ r
  | _ => True

/-- A timed wait has a timer, and keeps to it. -/
def OnTime (timer : Option Timer) (now : ℕ) (completed : Bool) (use : Use) : Prop :=
  use.timed = true →
    ∃ timer', timer = some timer' ∧ timer'.called ≤ now ∧ TimerOk timer' now completed use

theorem OnTime.mono {timer : Option Timer} {now now' : ℕ} {completed completed' : Bool}
    {use : Use} (h : OnTime timer now completed use) (hnow : now ≤ now')
    (hc : completed = true → completed' = true) : OnTime timer now' completed' use := by
  intro htimed
  obtain ⟨timer', htimer, hcalled, hok⟩ := h htimed
  refine ⟨timer', htimer, hcalled.trans hnow, ?_⟩
  unfold TimerOk at hok ⊢
  split <;> simp only at hok
  · exact hok
  · exact hok.imp hc (le_trans · hnow)
  · exact hok.trans hnow
  · exact hok
  · trivial

theorem timed_first {op : Op} {tag : CallTag} (h : (op.first tag).timed = true) :
    op = .waitFor := by
  cases op with
  | waitFor => rfl
  | getFsmReply res =>
      simp only [Op.first] at h
      split at h <;> cases h
  | getStats res =>
      simp only [Op.first] at h
      split at h
      · split at h <;> cases h
      · cases h
  | wait | poll | futureGet | leader => cases h

theorem timed_polling {op : Op} {pc : Poll} (h : (Use.polling op pc).timed = true) :
    op = .waitFor := by
  cases op <;> first | rfl | cases h

theorem timed_done {op : Op} {fast : Bool} {res : Result}
    (h : (Use.done op fast res).timed = true) : op = .waitFor ∧ ∃ b, res = .polled b := by
  cases op <;> cases res <;> first | exact ⟨rfl, _, rfl⟩ | cases h

/-- Only a timed wait leads to a position of a timed wait. -/
theorem UseTrans.polling_of_timed [DecidableEq τ] {tag : CallTag} {slot slot' : BaseSlot (Actor τ)}
    {t : τ} {use use' : Use} (h : UseTrans tag slot t use use' slot')
    (htimed : use'.timed = true) : ∃ pc, use = .polling .waitFor pc := by
  cases h with
  | tryLock ho | pollTest => exact ⟨_, by rw [timed_polling htimed]⟩
  | tryFail ho | pollUnlock => exact ⟨_, by rw [(timed_done htimed).1]⟩
  | @unlock op => cases op <;> cases htimed
  | @readError op =>
      simp only [Op.withError] at htimed
      split at htimed
      · split at htimed <;> cases op <;> cases htimed
      · cases op <;> cases htimed
  | @value op fast =>
      obtain ⟨rfl, b, hb⟩ := timed_done htimed
      simp only [Op.result, futureGetResult] at hb
      split at hb
      · split at hb <;> cases hb
      · cases hb
  | _ => cases htimed

/-- A step of a timed wait. It gets the mutex for a result or when the time is over,
and it does not get it when the time is over. -/
theorem OnTime.use [DecidableEq τ] {timer : Timer} {now : ℕ} {completed : Bool} {tag : CallTag}
    {slot slot' : BaseSlot (Actor τ)} {t : τ} {use use' : Use}
    (h : OnTime (some timer) now completed use) (hu : UseTrans tag slot t use use' slot')
    (hterm : isTerminal slot.state = completed)
    (hlock : use = .polling .waitFor .tryLock → slot.owned = none →
      completed = true ∨ timer.due ≤ now)
    (hfail : use = .polling .waitFor .tryLock → slot.owned ≠ none →
      ∃ d ∈ timer.deadline, d.toInt ≤ now) :
    OnTime (some (timer.after now use')) now completed use' := by
  intro htimed
  obtain ⟨pc, rfl⟩ := hu.polling_of_timed htimed
  obtain ⟨_, ⟨⟩, hcalled, hok⟩ := h rfl
  cases hu with
  | tryLock ho => exact ⟨_, rfl, hcalled, hlock rfl ho⟩
  | tryFail ho =>
      obtain ⟨d, hd, hnow⟩ := hfail rfl ho
      have hdue : timer.due ≤ now := by
        have hle : (timer.due : ℤ) ≤ d.toInt := hok d hd
        omega
      exact ⟨_, rfl, hcalled, now, rfl, hdue⟩
  | pollTest =>
      refine ⟨_, rfl, hcalled, ?_⟩
      rw [hterm]
      cases completed with
      | true => trivial
      | false => exact hok.resolve_left nofun
  | @pollUnlock _ b =>
      refine ⟨_, rfl, hcalled, ?_⟩
      cases b with
      | true => trivial
      | false => exact ⟨now, rfl, hok⟩

section Steps
variable [DecidableEq τ] [DecidableEq ρ] {s s' : Timed τ ρ}

/-- Every timed wait is on time. -/
def Punctual (s : Timed τ ρ) : Prop :=
  ∀ c t, OnTime (s.timers c t) s.now (s.pool.calls c).completed ((s.pool.calls c).uses t)

omit [DecidableEq ρ] in
@[simp] theorem setTimer_self (c : ℕ) (t : τ) (timer : Timer) :
    s.setTimer c t timer c t = some timer := by
  simp [Timed.setTimer]

omit [DecidableEq ρ] in
theorem setTimer_of_ne {c d : ℕ} {t u : τ} (h : ¬ (d = c ∧ u = t)) (timer : Timer) :
    s.setTimer c t timer d u = s.timers d u := by
  by_cases hd : d = c
  · have hu : u ≠ t := fun hu => h ⟨hd, hu⟩
    simp [Timed.setTimer, hd, hu]
  · simp [Timed.setTimer, hd]

omit [DecidableEq ρ] in
/-- Other threads and other calls. -/
theorem Punctual.keep (h : Punctual s) {a : Act τ ρ} {p : State τ ρ} {c : ℕ} {t : τ}
    (hp : UseChange s.pool c t a p) (hs : ∀ op, a = .call c (.start t op) → op ≠ .waitFor)
    (hu : a ≠ .call c (.use t)) :
    OnTime (s.timers c t) s.now (p.calls c).completed ((p.calls c).uses t) := by
  cases hp with
  | keep _ hkeep hc =>
      rw [hkeep]
      exact (h c t).mono le_rfl hc
  | idle _ hidle =>
      rw [hidle]
      exact nofun
  | start ha hstart =>
      rw [hstart]
      exact fun htimed => absurd (timed_first htimed) (hs _ ha)
  | use ha _ _ => exact absurd ha hu

theorem Punctual.waitFor (h : Punctual s) {c : ℕ} {t : τ} {waitMs : UInt64} {p : State τ ρ}
    (hp : Pool.step s.pool (.call c (.start t .waitFor)) = some p) :
    Punctual { s with pool := p, timers := s.setTimer c t ⟨waitMs, s.now, none, none⟩ } := by
  intro d u
  by_cases hdu : d = c ∧ u = t
  · obtain ⟨rfl, rfl⟩ := hdu
    have huse : (p.calls d).uses u = .polling .waitFor .tryLock := by
      cases trans_of_step hp with
      | call ht hr =>
          cases ht with
          | start hl hu => simp [Call.setUse, Op.first]
    simp only [huse, setTimer_self]
    exact fun _ => ⟨_, rfl, le_rfl, by simp [TimerOk]⟩
  · simp only [setTimer_of_ne hdu]
    refine h.keep ((trans_of_step hp).useChange d u) ?_ (by simp)
    rintro op ⟨⟩
    exact absurd ⟨rfl, rfl⟩ hdu

omit [DecidableEq ρ] in
theorem Punctual.makePtime (h : Punctual s) {c : ℕ} {t : τ} {waitMs : UInt64} {called : ℕ}
    {returned : Option ℕ} (ht : s.timers c t = some ⟨waitMs, called, none, returned⟩)
    (hlt : s.now + 1000 * waitMs.toNat < 2 ^ 63) :
    Punctual { s with
      timers := s.setTimer c t
        ⟨waitMs, called, some (Pool.makePtime waitMs s.now), returned⟩ } := by
  intro d u
  by_cases hdu : d = c ∧ u = t
  · obtain ⟨rfl, rfl⟩ := hdu
    simp only [setTimer_self]
    intro htimed
    obtain ⟨timer, htimer, hcalled, hok⟩ := h d u htimed
    obtain rfl := Option.some.inj (ht.symm.trans htimer)
    refine ⟨_, rfl, hcalled, ?_⟩
    generalize (s.pool.calls d).uses u = use at hok
    unfold TimerOk at hok ⊢
    split <;> simp only at hok
    · have hdue : called + 1000 * waitMs.toNat ≤ (Pool.makePtime waitMs s.now).toInt := by
        rw [toInt_makePtime hlt]
        simp only at hcalled
        omega
      rintro deadline ⟨⟩
      exact_mod_cast hdue
    · exact hok
    · exact hok
    · exact hok
    · trivial
  · simp only [setTimer_of_ne hdu]
    exact h d u

/-- The wait which takes the step. -/
theorem Punctual.use (h : Punctual s) (hi : Inv s.pool) {c : ℕ} {t : τ} {p : State τ ρ}
    (hp : Pool.step s.pool (.call c (.use t)) = some p) (hm : s.mayStep (.call c (.use t)) = true)
    (hg : Patient s (.pool (.call c (.use t))) s') :
    OnTime (s.recordReturn p (.call c (.use t)) c t) s.now (p.calls c).completed
      ((p.calls c).uses t) := by
  cases (trans_of_step hp).useChange c t with
  | keep ha _ _ => exact absurd rfl ha
  | idle _ hidle =>
      rw [hidle]
      exact nofun
  | start ha _ => cases ha
  | use _ hu hc =>
      intro htimed
      obtain ⟨pc, hpc⟩ := hu.polling_of_timed htimed
      obtain ⟨timer, htimer, -⟩ := h c t (by rw [hpc]; rfl)
      have hterm := (hi.coh_of_use (t := t) (by rw [hpc]; nofun)).terminal
      have hrecord : s.recordReturn p (.call c (.use t)) c t =
          some (timer.after s.now ((p.calls c).uses t)) := by
        simp [Timed.recordReturn, htimer]
      have htime := h c t
      rw [htimer] at htime
      rw [hrecord, hc]
      refine htime.use hu hterm (fun hlock ho => ?_) (fun hfail ho => ?_) htimed
      · have hacq := hg.2 (c, t) (by simp [Timed.acquiring, hlock, ho])
        rw [hterm] at hacq
        exact hacq.imp_right fun hdue => hdue timer htimer
      · have hmay : s.mayLock c t = true := by
          simpa [Timed.mayStep, hfail] using hm
        unfold Timed.mayLock at hmay
        rw [htimer] at hmay
        split at hmay
        · rename_i d _ heq
          cases heq
          exact ⟨d, rfl, by simpa [ho] using hmay⟩
        · cases hmay

theorem Punctual.pool (h : Punctual s) (hi : Inv s.pool) {a : Act τ ρ} {p : State τ ρ}
    (hp : Pool.step s.pool a = some p) (hm : s.mayStep a = true) (hg : Patient s (.pool a) s') :
    Punctual { s with pool := p, timers := s.recordReturn p a } := by
  intro c t
  by_cases ha : a = .call c (.use t)
  · subst ha
    exact h.use hi hp hm hg
  · have hsame : s.recordReturn p a c t = s.timers c t := by
      unfold Timed.recordReturn
      split
      case h_1 d u =>
          cases s.timers d u with
          | none => rfl
          | some timer =>
              refine setTimer_of_ne (fun hdu => ha ?_) _
              rw [hdu.1, hdu.2]
      case h_2 => rfl
    have hstart : ∀ op, a = .call c (.start t op) → op ≠ .waitFor := by
      rintro op rfl
      simpa [Timed.mayStep] using hm
    have hkeep := h.keep ((trans_of_step hp).useChange c t) hstart ha
    rw [← hsame] at hkeep
    exact hkeep

theorem Punctual.step (h : Punctual s) (hi : Inv s.pool) {a : TimedAct τ ρ}
    (ht : TimedTrans s a s') (hg : Patient s a s') : Punctual s' := by
  cases ht with
  | tick => exact fun c t => (h c t).mono (Nat.le_add_right _ _) id
  | waitFor hp => exact h.waitFor hp
  | @makePtime c t _ _ _ htimer => exact h.makePtime htimer (hg.1 (c, t) rfl _ htimer)
  | pool hp hm => exact h.pool hi hp hm hg

/-- The clock can be forgotten. -/
theorem reachable_pool {guard : Timed τ ρ → TimedAct τ ρ → Timed τ ρ → Prop}
    (h : timed.Reach guard s) : system.Reachable s.pool := by
  refine Scheduled.Reach.invariant (I := fun s : Timed τ ρ => system.Reachable s.pool) h .init ?_
  intro s a s' _ hs ht _
  cases timedTrans_of_step ht with
  | tick | makePtime htimer => exact hs
  | @waitFor c t _ _ hp => exact hs.next (a := .call c (.start t .waitFor)) hp
  | @pool a _ hp hm => exact hs.next (a := a) hp

theorem punctual_of_reach (h : timed.Reach Patient s) : Punctual s := by
  refine h.invariant (I := Punctual) (fun c t => nofun) ?_
  exact fun s a s' hs hp ht hg =>
    hp.step (inv_of_reachable (reachable_pool hs)) (timedTrans_of_step ht) hg

/-- A timed wait which has returned true has seen a result. -/
theorem terminal_of_timed_wait {guard : Timed τ ρ → TimedAct τ ρ → Timed τ ρ → Prop}
    (h : timed.Reach guard s) {c : ℕ} {t : τ} {fast : Bool}
    (hdone : (s.pool.calls c).uses t = .done .waitFor fast (.polled true)) :
    isTerminal (s.pool.slot c).state = true := by
  have hi := inv_of_reachable (reachable_pool h)
  have huse : UseOk (s.pool.calls c) ((s.pool.calls c).uses t) := (hi.calls c).usage.use t
  rw [(hi.coh_of_use (t := t) (by rw [hdone]; nofun)).terminal]
  rw [hdone] at huse
  exact huse.2 rfl

/-- A timed wait returns true only for a call with a result, and false only when its time
is over, in every run in which it never gets the mutex too early. -/
theorem timed_wait_not_early (h : timed.Reach Patient s) (c : ℕ) (t : τ) (fast b : Bool)
    (hdone : (s.pool.calls c).uses t = .done .waitFor fast (.polled b)) :
    (b = true → isTerminal (s.pool.slot c).state = true) ∧
      (b = false → ∃ timer returned, s.timers c t = some timer ∧
        timer.returned = some returned ∧
        timer.called + 1000 * timer.waitMs.toNat ≤ returned) := by
  constructor
  · rintro rfl
    exact terminal_of_timed_wait h hdone
  · rintro rfl
    obtain ⟨timer, htimer, -, hok⟩ := punctual_of_reach h c t (by rw [hdone]; rfl)
    rw [hdone] at hok
    obtain ⟨r, hr, hdue⟩ := hok
    exact ⟨timer, r, htimer, hr, hdue⟩

end Steps

end Punctual

/-- Thread `t` waits for call 0; the clock goes on before `timed_lock` returns. -/
def waitForRun (t : Fin 2) (waitMs : UInt64) (us n : ℕ) : List (TimedAct (Fin 2) (Fin 2)) :=
  [TimedAct.waitFor 0 t waitMs, TimedAct.makePtime 0 t, TimedAct.tick us] ++
    List.replicate n (TimedAct.pool (.call 0 (.use t)))

/-- The Raft side keeps the mutex until the time is over. -/
theorem timed_wait_not_early_taken :
    ∃ s : Timed (Fin 2) (Fin 2), ∃ timer returned,
      (s.pool.calls 0).uses 0 = .done .waitFor false (.polled false) ∧
      s.timers 0 0 = some timer ∧ timer.returned = some returned ∧
      timer.called + 1000 * timer.waitMs.toNat ≤ returned := by
  have hinit : timed.Reach Patient (⟨initial, 0, fun _ _ => none⟩ : Timed (Fin 2) (Fin 2)) := .init
  obtain ⟨s, hs, hdone⟩ := hinit.exists_of_run
    ((sendRun 0 0 .barrier none ++ takeRun 0).map .pool ++ waitForRun 0 5 5000 1)
    (by decide +kernel)
    (fun s => (s.pool.calls 0).uses 0 = .done .waitFor false (.polled false)) (by decide +kernel)
  obtain ⟨timer, returned, h⟩ := (timed_wait_not_early hs 0 0 false false hdone).2 rfl
  exact ⟨s, timer, returned, hdone, h⟩

/-- A wait of five milliseconds for a call which is still queued returns at once, since
its mutex is free. So does a wait of `UINT64_MAX` milliseconds for a call which the Raft
side has locked, since its deadline has passed. -/
theorem timed_wait_gives_up_at_once :
    (∃ s : Timed (Fin 2) (Fin 2), timed.Reachable s ∧
      (s.pool.calls 0).uses 0 = .done .waitFor false (.polled false) ∧
      s.timers 0 0 = some ⟨5, 0, some 5000, some 0⟩ ∧ (s.pool.slot 0).state = .pending) ∧
    ∃ s : Timed (Fin 2) (Fin 2), timed.Reachable s ∧
      (s.pool.calls 0).uses 0 = .done .waitFor false (.polled false) ∧
      s.timers 0 0 = some ⟨18446744073709551615, 0, some (-1000), some 0⟩ ∧
      (s.pool.slot 0).owned = some (.raft 0) := by
  constructor
  · exact Scheduled.exists_reachable_of_run timed
      ((sendRun 0 0 .barrier none).map .pool ++ waitForRun 0 5 0 3)
      (fun s => (s.pool.calls 0).uses 0 = .done .waitFor false (.polled false) ∧
        s.timers 0 0 = some ⟨5, 0, some 5000, some 0⟩ ∧ (s.pool.slot 0).state = .pending)
      (by decide +kernel)
  · exact Scheduled.exists_reachable_of_run timed
      ((sendRun 0 0 .barrier none ++ takeRun 0).map .pool ++
        waitForRun 0 18446744073709551615 0 1)
      (fun s => (s.pool.calls 0).uses 0 = .done .waitFor false (.polled false) ∧
        s.timers 0 0 = some ⟨18446744073709551615, 0, some (-1000), some 0⟩ ∧
        (s.pool.slot 0).owned = some (.raft 0))
      (by decide +kernel)

end Libraft.Pool
