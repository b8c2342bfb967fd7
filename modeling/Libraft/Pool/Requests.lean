import Libraft.Pool.System

/-!
# Requests which fail to be sent

`send_request` with both queues in mind: `throw_ok` says whether `queue_closed`
goes on to the caller, as in `send_fsm_request`. Counting the call, allocating
its node, constructing the slot and putting its record into the queue are
separate effects, and an exception behind any of them undoes none of the
earlier ones.

## Implementation notes

Every request has a name of its own and is made once. `Undisturbed` lets all
other threads do what they like, as long as the slots, the contents of the
queue and the counters are not changed by them. Otherwise it would make no
sense to compare the state after a request with the state before.
-/

namespace Libraft.Pool

open Libraft.Foundation Libraft.Calls
open Libraft.Queue

variable {τ ρ : Type*}

/-- The ways in which a request can throw. -/
inductive Thrown
  | badAlloc
  | queueClosed
  deriving DecidableEq, Repr

/-- Where `send_request` stands. -/
inductive Request
  | idle
  /-- before `stats->call_alloc.inc()` -/
  | count (tag : CallTag) (throwOk : Bool)
  /-- before `allocate_one` -/
  | allocate (tag : CallTag) (throwOk : Bool)
  /-- before `queue.put(slot->rec())` -/
  | enqueue (slot : Addr) (throwOk : Bool)
  /-- inside `queue.put` -/
  | put (slot : Addr) (throwOk : Bool)
  /-- `slot->error = RAFT_E_IN_SHUTDOWN` -/
  | setError (slot : Addr)
  /-- `slot->state = CallState::Error` -/
  | setState (slot : Addr)
  | returned (slot : Addr)
  | threw (e : Thrown)
  deriving DecidableEq, Repr

structure Requests (τ ρ : Type*) where
  queue : ArrayBlockingQueue.State (CallTag × Addr) (τ ⊕ ρ)
  /-- the slots which have been constructed, by their nodes -/
  slots : Addr → Option (BaseSlot (Actor τ))
  callAlloc : UInt64
  callFree : UInt64
  pc : τ → Request

inductive RequestAct (τ ρ : Type*)
  /-- `send_request` is called -/
  | send (r : τ) (tag : CallTag) (throwOk : Bool)
  /-- the next statement of `send_request`; `allocate_one` returns the node `n` -/
  | step (r : τ) (n : ℕ)
  /-- `allocate_one` throws, since the segment is full -/
  | full (r : τ)
  /-- a step inside the queue -/
  | queue (a : ArrayBlockingQueue.Act (CallTag × Addr) (τ ⊕ ρ))
  /-- somebody disposes of a slot -/
  | dispose (slot : Addr)

section Step
variable [DecidableEq τ] [DecidableEq ρ] (cap : UInt32)

@[simps] def Requests.goto (s : Requests τ ρ) (r : τ) (pc : Request) : Requests τ ρ :=
  { s with pc := Function.update s.pc r pc }

@[simps] def Requests.setSlot (s : Requests τ ρ) (p : Addr) (slot : Option (BaseSlot (Actor τ))) :
    Requests τ ρ :=
  { s with slots := Function.update s.slots p slot }

/-- The statements of `send_request`. -/
def Requests.next (s : Requests τ ρ) (r : τ) (n : ℕ) : Option (Requests τ ρ) :=
  match s.pc r with
  | .count tag throwOk =>
      some ({ s with callAlloc := s.callAlloc + 1 }.goto r (.allocate tag throwOk))
  | .allocate tag throwOk =>
      if (s.slots (tag, n)).isNone then
        some ((s.setSlot (tag, n) (some (.new tag))).goto r (.enqueue (tag, n) throwOk))
      else none
  | .enqueue p throwOk =>
      (ArrayBlockingQueue.step cap s.queue (.call (.inl r) (.put (p.1, p)))).map fun q =>
        { s with queue := q }.goto r (.put p throwOk)
  | .put p throwOk =>
      match s.queue.pc (.inl r) with
      | .done (.putDone _) => some (s.goto r (.returned p))
      | .done (.putClosed _) =>
          some (s.goto r (if throwOk then .threw .queueClosed else .setError p))
      | _ => none
  | .setError p =>
      some ((s.setSlot p ((s.slots p).map fun b => { b with error := .inShutdown })).goto r
        (.setState p))
  | .setState p =>
      some ((s.setSlot p ((s.slots p).map fun b => { b with state := .error })).goto r
        (.returned p))
  | .idle | .returned _ | .threw _ => none

/-- What may happen in the queue by itself: a request is only inside `put`. -/
def queueAllowed : ArrayBlockingQueue.Act (CallTag × Addr) (τ ⊕ ρ) → Bool
  | .call (.inl _) _ | .callClose (.inl _) | .leave (.inl _) => false
  | _ => true

def Requests.step (s : Requests τ ρ) : RequestAct τ ρ → Option (Requests τ ρ)
  | .send r tag throwOk =>
      match s.pc r with
      | .idle => some (s.goto r (.count tag throwOk))
      | _ => none
  | .step r n => s.next cap r n
  | .full r =>
      match s.pc r with
      | .allocate _ _ => some (s.goto r (.threw .badAlloc))
      | _ => none
  | .queue a =>
      if queueAllowed a then
        (ArrayBlockingQueue.step cap s.queue a).map fun q => { s with queue := q }
      else none
  | .dispose p =>
      if (s.slots p).isSome then
        some { s.setSlot p none with callFree := s.callFree + 1 }
      else none

/-- Requests for a queue of the given capacity as a scheduled system. -/
def requests (cells : ℕ → CallTag × Addr) : Scheduled (Requests τ ρ) (RequestAct τ ρ) where
  init := ⟨ArrayBlockingQueue.initial cells, fun _ => none, 0, 0, fun _ => .idle⟩
  step := Requests.step cap

/-- The transitions of the system. -/
inductive RequestTrans (s : Requests τ ρ) : RequestAct τ ρ → Requests τ ρ → Prop
  | send {r tag throwOk} (h : s.pc r = .idle) :
      RequestTrans s (.send r tag throwOk) (s.goto r (.count tag throwOk))
  | count {r n tag throwOk} (h : s.pc r = .count tag throwOk) :
      RequestTrans s (.step r n)
        ({ s with callAlloc := s.callAlloc + 1 }.goto r (.allocate tag throwOk))
  | allocate {r n tag throwOk} (h : s.pc r = .allocate tag throwOk) :
      RequestTrans s (.step r n)
        ((s.setSlot (tag, n) (some (.new tag))).goto r (.enqueue (tag, n) throwOk))
  | full {r tag throwOk} (h : s.pc r = .allocate tag throwOk) :
      RequestTrans s (.full r) (s.goto r (.threw .badAlloc))
  | enqueue {r n p throwOk q} (h : s.pc r = .enqueue p throwOk)
      (hq : ArrayBlockingQueue.Trans cap s.queue (.call (.inl r) (.put (p.1, p))) q) :
      RequestTrans s (.step r n) ({ s with queue := q }.goto r (.put p throwOk))
  | sent {r n p throwOk val} (h : s.pc r = .put p throwOk)
      (hq : s.queue.pc (.inl r) = .done (.putDone val)) :
      RequestTrans s (.step r n) (s.goto r (.returned p))
  | closed {r n p throwOk val} (h : s.pc r = .put p throwOk)
      (hq : s.queue.pc (.inl r) = .done (.putClosed val)) :
      RequestTrans s (.step r n)
        (s.goto r (if throwOk then .threw .queueClosed else .setError p))
  | setError {r n p} (h : s.pc r = .setError p) :
      RequestTrans s (.step r n)
        ((s.setSlot p ((s.slots p).map fun b => { b with error := .inShutdown })).goto r
          (.setState p))
  | setState {r n p} (h : s.pc r = .setState p) :
      RequestTrans s (.step r n)
        ((s.setSlot p ((s.slots p).map fun b => { b with state := .error })).goto r
          (.returned p))
  | queue {a q} (ha : queueAllowed a = true) (hq : ArrayBlockingQueue.Trans cap s.queue a q) :
      RequestTrans s (.queue a) { s with queue := q }
  | dispose {p} : RequestTrans s (.dispose p) { s.setSlot p none with callFree := s.callFree + 1 }

variable {cap} {s s' : Requests τ ρ}

theorem requestTrans_of_next {r : τ} {n : ℕ} (h : s.next cap r n = some s') :
    RequestTrans cap s (.step r n) s' := by
  unfold Requests.next at h
  split at h
  case h_1 hpc => cases h; exact .count hpc
  case h_2 hpc =>
      split at h <;> cases h
      exact .allocate hpc
  case h_3 hpc =>
      obtain ⟨q, hq, rfl⟩ := Option.map_eq_some_iff.mp h
      exact .enqueue hpc (ArrayBlockingQueue.trans_of_step hq)
  case h_4 hpc =>
      split at h <;> rename_i hq <;> cases h
      · exact .sent hpc hq
      · exact .closed hpc hq
  case h_5 hpc => cases h; exact .setError hpc
  case h_6 hpc => cases h; exact .setState hpc
  case h_7 | h_8 | h_9 => cases h

/-- Everything one step can do. -/
theorem requestTrans_of_step {a : RequestAct τ ρ} (h : s.step cap a = some s') :
    RequestTrans cap s a s' := by
  cases a with
  | send r tag throwOk =>
      simp only [Requests.step] at h
      split at h <;> rename_i hpc <;> cases h
      exact .send hpc
  | step r n => exact requestTrans_of_next h
  | full r =>
      simp only [Requests.step] at h
      split at h <;> rename_i hpc <;> cases h
      exact .full hpc
  | queue a =>
      simp only [Requests.step] at h
      split at h <;> rename_i ha
      · obtain ⟨q, hq, rfl⟩ := Option.map_eq_some_iff.mp h
        exact .queue ha (ArrayBlockingQueue.trans_of_step hq)
      · cases h
  | dispose p =>
      simp only [Requests.step] at h
      split at h <;> cases h
      exact .dispose

end Step

section Putting
variable {T ι : Type*} [DecidableEq ι] {cap : UInt32} {q q' : ArrayBlockingQueue.State T ι}

/-- The positions of a `put` which has not put anything. -/
def putting : ArrayBlockingQueue.Pc T → Bool
  | .check (.put _) | .lock (.put _) | .loop (.put _) | .wait (.put _) | .recheck (.put _)
  | .body (.put _) | .done (.putClosed _) => true
  | _ => false

/-- The positions outside every operation. -/
def resting : ArrayBlockingQueue.Pc T → Bool
  | .idle | .done _ => true
  | _ => false

theorem resting_step {t : ι} {w : Option ι} (h : ArrayBlockingQueue.Trans cap q (.step t w) q') :
    resting (q.pc t) = false := by
  cases h with
  | wakeUp hpc _ _ | put hpc _ | take hpc _ => simp [hpc, resting]
  | _ hpc => simp [hpc, resting]

/-- A `put` changes the ring in the step in which it returns. -/
theorem putting_step {t : ι} {w : Option ι} (h : ArrayBlockingQueue.Trans cap q (.step t w) q')
    (hp : putting (q.pc t) = true) :
    (putting (q'.pc t) = true ∧ q'.ring = q.ring) ∨ ∃ val, q'.pc t = .done (.putDone val) := by
  cases h with
  | @put _ _ val _ hpc hn => exact .inr ⟨val, by simp⟩
  | take hpc hn => simp [hpc, putting] at hp
  | @checkClosed _ _ op hpc _ | @checkOpen _ _ op hpc _ | @lock _ _ op hpc _
  | @block _ _ op hpc _ | @pass _ _ op hpc _ | @wakeUp _ _ op hpc _ _
  | @recheckClosed _ _ op hpc _ | @recheckOpen _ _ op hpc _ =>
      cases op with
      | put val => exact .inl ⟨by simp [putting, ArrayBlockingQueue.Op.thrown], rfl⟩
      | take => simp [hpc, putting] at hp
  | _ hpc => simp [hpc, putting] at hp

/-- The thread which an action of the queue moves. -/
def mover : ArrayBlockingQueue.Act T ι → Option ι
  | .call t _ | .callClose t | .step t _ | .leave t => some t
  | .spurious _ => none

theorem pc_of_mover_ne {a : ArrayBlockingQueue.Act T ι} (h : ArrayBlockingQueue.Trans cap q a q')
    {t : ι} (ht : mover a ≠ some t) : q'.pc t = q.pc t := by
  have hne {u : ι} (hu : some u ≠ some t) : t ≠ u := fun he => hu (congrArg some he.symm)
  cases h with
  | spuriousFull hw | spuriousEmpty hw => rfl
  | @block u _ op hpc _ | @wakeUp u _ op hpc _ _ =>
      cases op <;> simp [hne ht, ArrayBlockingQueue.State.setCond]
  | _ => simp [hne ht]

end Putting

/-- The slots, the queue and the difference of the counters are the same. -/
structure NothingLeft (cap : UInt32) (s u : Requests τ ρ) : Prop where
  live : ∀ p, (u.slots p).isSome = (s.slots p).isSome
  contents : u.queue.ring.contents cap = s.queue.ring.contents cap
  balance : u.callAlloc - u.callFree = s.callAlloc - s.callFree

/-- What a request leaves behind: the call is counted, and `slot` is its slot. -/
structure Left (cap : UInt32) (s u : Requests τ ρ) (slot : Option Addr) : Prop where
  live : ∀ p, (u.slots p).isSome = ((s.slots p).isSome || slot = some p)
  contents : u.queue.ring.contents cap = s.queue.ring.contents cap
  balance : u.callAlloc - u.callFree = s.callAlloc - s.callFree + 1

/-- The request has thrown. -/
def Request.hasThrown : Request → Bool
  | .threw _ => true
  | _ => false

/-- The steps of request `r`. -/
def RequestAct.by [DecidableEq τ] (r : τ) : RequestAct τ ρ → Bool
  | .send r' _ _ | .step r' _ | .full r' | .queue (.step (.inl r') _) => r' = r
  | _ => false

section Failing
variable {cap : UInt32} {s u v : Requests τ ρ}

theorem NothingLeft.refl (cap : UInt32) (s : Requests τ ρ) : NothingLeft cap s s :=
  ⟨fun _ => rfl, rfl, rfl⟩

theorem NothingLeft.trans (h : NothingLeft cap s u) (h' : NothingLeft cap u v) :
    NothingLeft cap s v where
  live := fun p => (h'.live p).trans (h.live p)
  contents := h'.contents.trans h.contents
  balance := h'.balance.trans h.balance

theorem Left.trans {slot : Option Addr} (h : Left cap s u slot) (h' : NothingLeft cap u v) :
    Left cap s v slot where
  live := fun p => (h'.live p).trans (h.live p)
  contents := h'.contents.trans h.contents
  balance := h'.balance.trans h.balance

/-- A request which has been counted has left something behind. -/
theorem Left.not_nothingLeft {slot : Option Addr} (h : Left cap s u slot) :
    ¬ NothingLeft cap s u := by
  intro hn
  have hone := h.balance.symm.trans hn.balance
  simp at hone

variable [DecidableEq τ] [DecidableEq ρ] {r : τ} {a : RequestAct τ ρ}

/-- Whatever the others do, they leave alone what the request is measured by. -/
def Undisturbed (cap : UInt32) (r : τ) (u : Requests τ ρ) (a : RequestAct τ ρ)
    (v : Requests τ ρ) : Prop :=
  a.by r = true ∨ NothingLeft cap u v

/-- The request does not throw in the step. -/
def NoThrow (r : τ) (_ : Requests τ ρ) (_ : RequestAct τ ρ) (v : Requests τ ρ) : Prop :=
  (v.pc r).hasThrown = false

instance (r : τ) (u : Requests τ ρ) (a : RequestAct τ ρ) (v : Requests τ ρ) :
    Decidable (NoThrow r u a v) :=
  inferInstanceAs (Decidable (_ = _))

/-- What has happened since the state `s` when the request stands at `pc`. -/
def RequestPhase (cap : UInt32) (r : τ) (s u : Requests τ ρ) : Request → Prop
  | .idle | .count _ _ => NothingLeft cap s u ∧ resting (u.queue.pc (.inl r)) = true
  | .allocate _ _ => Left cap s u none ∧ resting (u.queue.pc (.inl r)) = true
  | .enqueue p _ => Left cap s u (some p) ∧ resting (u.queue.pc (.inl r)) = true
  | .put p _ =>
      (Left cap s u (some p) ∧ putting (u.queue.pc (.inl r)) = true) ∨
        ∃ val, u.queue.pc (.inl r) = .done (.putDone val)
  | .threw _ => (∃ slot, Left cap s u slot) ∧ resting (u.queue.pc (.inl r)) = true
  | .setError _ | .setState _ | .returned _ => True

omit [DecidableEq τ] [DecidableEq ρ] in
theorem RequestPhase.keep {pc : Request} (h : RequestPhase cap r s u pc)
    (hn : NothingLeft cap u v) (hq : v.queue.pc (.inl r) = u.queue.pc (.inl r)) :
    RequestPhase cap r s v pc := by
  cases pc with
  | idle | count tag throwOk => exact ⟨h.1.trans hn, hq ▸ h.2⟩
  | allocate tag throwOk => exact ⟨h.1.trans hn, hq ▸ h.2⟩
  | enqueue p throwOk => exact ⟨h.1.trans hn, hq ▸ h.2⟩
  | put p throwOk =>
      simp only [RequestPhase, hq] at h ⊢
      exact h.imp_left fun hl => ⟨hl.1.trans hn, hl.2⟩
  | threw e =>
      obtain ⟨⟨slot, hl⟩, hr⟩ := h
      exact ⟨⟨slot, hl.trans hn⟩, hq ▸ hr⟩
  | setError p | setState p | returned p => trivial

/-- The others do not move the request. -/
theorem pc_of_not_by (ht : RequestTrans cap u a v) (ha : a.by r = false) :
    v.pc r = u.pc r ∧ v.queue.pc (.inl r) = u.queue.pc (.inl r) := by
  have hne {r' : τ} (h : decide (r' = r) = false) : r ≠ r' := fun he => by simp [he] at h
  cases ht with
  | send h | count h | allocate h | full h | sent h hq | closed h hq | setError h | setState h =>
      exact ⟨by simp [hne ha], rfl⟩
  | enqueue h hq =>
      refine ⟨by simp [hne ha], pc_of_mover_ne hq ?_⟩
      simpa [mover] using Ne.symm (hne ha)
  | queue hall hq =>
      refine ⟨rfl, pc_of_mover_ne hq fun hm => ?_⟩
      unfold mover at hm
      split at hm <;> cases hm <;> simp_all [queueAllowed, RequestAct.by]
  | dispose => exact ⟨rfl, rfl⟩

/-- A step of the request inside the queue. -/
theorem RequestPhase.put {w : Option (τ ⊕ ρ)} {pc : Request}
    {q : ArrayBlockingQueue.State (CallTag × Addr) (τ ⊕ ρ)} (h : RequestPhase cap r s u pc)
    (hq : ArrayBlockingQueue.Trans cap u.queue (.step (.inl r) w) q) :
    RequestPhase cap r s { u with queue := q } pc := by
  have hmoves := resting_step hq
  cases pc with
  | put p throwOk =>
      rcases h with ⟨hleft, hput⟩ | ⟨val, hdone⟩
      · refine (putting_step hq hput).imp_left fun ⟨hput', hring⟩ => ⟨hleft.trans ?_, hput'⟩
        exact ⟨fun _ => rfl, by rw [hring], rfl⟩
      · simp [hdone, resting] at hmoves
  | setError p | setState p | returned p => trivial
  | idle | count tag throwOk | allocate tag throwOk | enqueue p throwOk | threw e =>
      exact absurd (hmoves.symm.trans h.2) nofun

omit [DecidableEq ρ] in
theorem RequestPhase.goto {pc : Request} (h : RequestPhase cap r s u pc) :
    RequestPhase cap r s (u.goto r pc) ((u.goto r pc).pc r) := by
  have hpc : (u.goto r pc).pc r = pc := Function.update_self ..
  rw [hpc]
  exact h.keep ⟨fun _ => rfl, rfl, rfl⟩ rfl

/-- A step of the request itself. -/
theorem RequestPhase.own (h : RequestPhase cap r s u (u.pc r)) (ht : RequestTrans cap u a v)
    (ha : a.by r = true) : RequestPhase cap r s v (v.pc r) := by
  have heq {r' : τ} (h : decide (r' = r) = true) : r' = r := of_decide_eq_true h
  cases ht with
  | send hpc =>
      obtain rfl := heq ha
      rw [hpc] at h
      exact .goto h
  | count hpc =>
      obtain rfl := heq ha
      rw [hpc] at h
      refine .goto ⟨⟨by simpa using h.1.live, h.1.contents, ?_⟩, h.2⟩
      rw [← h.1.balance]
      exact add_sub_right_comm _ _ _
  | @allocate _ n tag throwOk hpc =>
      obtain rfl := heq ha
      rw [hpc] at h
      refine .goto ⟨⟨fun p => ?_, h.1.contents, h.1.balance⟩, h.2⟩
      have hp := h.1.live p
      by_cases hpn : p = (tag, n)
      · simp [hpn]
      · simpa [hpn, Ne.symm hpn] using hp
  | full hpc =>
      obtain rfl := heq ha
      rw [hpc] at h
      exact .goto ⟨⟨none, h.1⟩, h.2⟩
  | enqueue hpc hq =>
      obtain rfl := heq ha
      rw [hpc] at h
      cases hq with
      | call hidle =>
          exact .goto (.inl ⟨h.1.trans ⟨fun _ => rfl, rfl, rfl⟩, by simp [putting]⟩)
  | sent hpc hq =>
      obtain rfl := heq ha
      exact .goto trivial
  | @closed _ _ p throwOk val hpc hq =>
      obtain rfl := heq ha
      rw [hpc] at h
      refine .goto ?_
      cases throwOk with
      | false => trivial
      | true =>
          rcases h with h | ⟨val', hdone⟩
          · refine ⟨⟨some p, h.1⟩, ?_⟩
            simp [hq, resting]
          · rw [hq] at hdone
            cases hdone
  | setError hpc | setState hpc =>
      obtain rfl := heq ha
      exact .goto trivial
  | @queue b q hall hq =>
      obtain ⟨w, rfl⟩ : ∃ w, b = .step (.inl r) w := by
        unfold RequestAct.by at ha
        split at ha <;> simp_all
      exact h.put hq
  | dispose => cases ha

theorem RequestPhase.step (h : RequestPhase cap r s u (u.pc r)) (ht : RequestTrans cap u a v)
    (hu : Undisturbed cap r u a v) : RequestPhase cap r s v (v.pc r) := by
  cases ha : a.by r with
  | true => exact h.own ht ha
  | false =>
      have hn : NothingLeft cap u v := hu.resolve_left (by simp [ha])
      obtain ⟨hpc, hq⟩ := pc_of_not_by ht ha
      rw [hpc]
      exact h.keep hn hq

/-- A request which throws leaves nothing behind if, and only if, it does not throw: by then
the call has been counted. -/
theorem failed_request_leaves_nothing_iff (cells : ℕ → CallTag × Addr) (hidle : s.pc r = .idle)
    (hqueue : s.queue.pc (.inl r) = .idle) (sched : List (RequestAct τ ρ))
    (ha : (requests cap cells).Along (Undisturbed cap r) s sched) :
    (∀ u, (requests cap cells).Visits s sched u → (u.pc r).hasThrown = true →
      NothingLeft cap s u) ↔ (requests cap cells).Along (NoThrow r) s sched := by
  have hstart : RequestPhase cap r s s (s.pc r) := by
    rw [hidle]
    exact ⟨.refl cap s, by rw [hqueue]; rfl⟩
  have hphase : ∀ u, (requests cap cells).Visits s sched u → RequestPhase cap r s u (u.pc r) :=
    fun u hv => ha.visits_invariant (I := fun u => RequestPhase cap r s u (u.pc r))
      (fun _ _ _ h ht hu => h.step (requestTrans_of_step ht) hu) hstart hv
  have hnot : (s.pc r).hasThrown = false := by
    rw [hidle]
    rfl
  refine Iff.trans (forall₂_congr fun u hv => ?_)
    (Scheduled.along_iff_visits (P := fun u : Requests τ ρ => (u.pc r).hasThrown = false)
      hnot).symm
  have hu := hphase u hv
  cases hpc : u.pc r with
  | threw e =>
      rw [hpc] at hu
      obtain ⟨⟨slot, hleft⟩, -⟩ := hu
      simp [Request.hasThrown, hleft.not_nothingLeft]
  | _ => simp [Request.hasThrown]

end Failing

/-- Requests for the FSM queue, in memory which is full of zeros. -/
abbrev fsmRequests : Scheduled (Requests (Fin 2) (Fin 2)) (RequestAct (Fin 2) (Fin 2)) :=
  requests callQueueCapacity fun _ => (.invalid, (.invalid, 0))

/-- Thread `t` closes the queue. -/
def closeQueueRun (t : Fin 2) : List (RequestAct (Fin 2) (Fin 2)) :=
  RequestAct.queue (.callClose (.inr t)) ::
    List.replicate 5 (RequestAct.queue (.step (.inr t) none))

/-- Request `r` finds the queue closed and goes on for `n` statements. -/
def refusedRun (r : Fin 2) (throwOk : Bool) (n : ℕ) : List (RequestAct (Fin 2) (Fin 2)) :=
  [RequestAct.send r .fsmApply throwOk, RequestAct.step r 0, RequestAct.step r 0,
    RequestAct.step r 0, RequestAct.queue (.step (.inl r) none)] ++
    List.replicate n (RequestAct.step r 0)

/-- With `throw_ok` false a request to a closed queue returns a failed slot. -/
theorem refused_request_returns :
    ∃ s : Requests (Fin 2) (Fin 2), s.queue.closed = true ∧
      (fsmRequests.run s (refusedRun 0 false 3)).any
        (fun u => u.pc 0 = .returned (.fsmApply, 0)) = true ∧
      ∀ u, fsmRequests.Visits s (refusedRun 0 false 3) u → (u.pc 0).hasThrown = true →
        NothingLeft callQueueCapacity s u := by
  obtain ⟨s, -, hclosed, hpc, hq, hret, hno⟩ := Scheduled.exists_reachable_of_run fsmRequests
    (closeQueueRun 0) (fun s => s.queue.closed = true ∧ s.pc 0 = .idle ∧
      s.queue.pc (.inl 0) = .idle ∧ (fsmRequests.run s (refusedRun 0 false 3)).any
        (fun u => u.pc 0 = .returned (.fsmApply, 0)) = true ∧
      fsmRequests.Along (NoThrow 0) s (refusedRun 0 false 3)) (by decide +kernel)
  have hown : fsmRequests.Along (Undisturbed callQueueCapacity 0) s (refusedRun 0 false 3) :=
    Scheduled.along_of_forall (fun a ha _ _ => .inl (by revert a; decide)) s
  exact ⟨s, hclosed, hret, (failed_request_leaves_nothing_iff _ hpc hq _ hown).mpr hno⟩

/-- A request to the closed FSM queue throws and leaves its slot behind, counted and never to
be freed. A request for which there is no memory leaves the count behind. -/
theorem failed_request_leaves_slot :
    (∃ s : Requests (Fin 2) (Fin 2), fsmRequests.Reachable s ∧
      (s.pc 0 = .idle ∧ s.slots (.fsmApply, 0) = none ∧ s.callAlloc - s.callFree = 0) ∧
      (fsmRequests.run s (refusedRun 0 true 1)).any (fun u =>
        u.pc 0 = .threw .queueClosed ∧ (u.slots (.fsmApply, 0)).isSome = true ∧
        u.callAlloc - u.callFree = 1) = true) ∧
    ∃ s : Requests (Fin 2) (Fin 2), fsmRequests.Reachable s ∧
      s.pc 0 = .threw .badAlloc ∧ s.callAlloc - s.callFree = 1 := by
  constructor
  · exact Scheduled.exists_reachable_of_run fsmRequests (closeQueueRun 0)
      (fun s => (s.pc 0 = .idle ∧ s.slots (.fsmApply, 0) = none ∧
          s.callAlloc - s.callFree = 0) ∧
        (fsmRequests.run s (refusedRun 0 true 1)).any (fun u =>
          u.pc 0 = .threw .queueClosed ∧ (u.slots (.fsmApply, 0)).isSome = true ∧
          u.callAlloc - u.callFree = 1) = true) (by decide +kernel)
  · exact Scheduled.exists_reachable_of_run fsmRequests
      [.send 0 .fsmApply true, .step 0 0, .full 0]
      (fun s => s.pc 0 = .threw .badAlloc ∧ s.callAlloc - s.callFree = 1) (by decide +kernel)

end Libraft.Pool
