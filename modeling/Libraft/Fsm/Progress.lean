import Libraft.Fsm.Completion
import Libraft.Fsm.Refinement
import Libraft.Queue.Progress

/-!
# The FSM worker gets its work done

When no further requests are sent, the worker, the Raft-side threads and the
completions of snapshots run out of steps, however they are scheduled. As long
as the queue is open, every request which was sent has then been processed. A
Raft-side thread which is left waiting waits for a snapshot whose completion the
client still owes, or for a log entry which is not a command.

## Implementation notes

Three things wait for each other here: the threads in the queue, the worker for
the mutex of a slot, and the Raft side for the state of a slot. The measure
counts the statements which each of them has left. A request which has not left
the queue is worth all the statements which the worker makes for it. A thread
which wakes up without a notification looks at its condition and goes back to
sleep; such wakeups are not counted.
-/

namespace Libraft.Fsm

open Libraft.Foundation Libraft.Calls
open Libraft.Queue

/-- The statements left of a reply; a notification is worth four more. -/
def replyWeight : Reply → ℕ
  | .record => 1
  | .notify => 6
  | .state _ => 7
  | .error _ => 8
  | .retval _ => 9

/-- The statements left of `wait` until it returns or sleeps. -/
def waitWeight : Wait → ℕ
  | .unlock => 1
  | .observe => 2
  | .blocked => 3
  | .test => 4
  | .lock => 5

def Completion.weight : Completion → ℕ
  | .idle | .returned => 0
  | .unlock => 1
  | .replying r => 1 + replyWeight r
  | .lock _ => 10

/-- What the Raft side and the completion have left to do with a slot. -/
def Slot.weight (slot : Slot) : ℕ :=
  slot.wait.elim 0 waitWeight + slot.completion.weight + 4 * slot.base.retCond.notified.card

/-- What the worker has left to do around its `take`. -/
def takeWeight : ArrayBlockingQueue.Pc (CallTag × ℕ) → ℕ
  | .idle => 17
  | .done (.takeDone _) => 32
  | .done .takeClosed => 1
  | _ => 0

/-- What the worker has left to do until it sleeps in `take`. -/
def Worker.weight (p : ArrayBlockingQueue.Pc (CallTag × ℕ)) : Worker → ℕ
  | .take => takeWeight p
  | .lock _ _ => 31
  | .dispatch _ _ => 30
  | .invoke _ _ => 29
  | .running _ _ => 28
  | .replying _ r => 18 + replyWeight r
  | .unlock _ => 18
  | .stopped | .aborted => 0

/-- The steps by which work gets done which is already there. Left out are new
requests, calls of `wait`, of `close` and of `raft_fsm_snapshot_complete`, and
wakeups without notification. -/
def Act.working {ι : Type*} : Act ι → Bool
  | .queue (.step _ _) | .queue (.call none .take) => true
  | .worker _ | .waitStep _ | .completeStep _ _ => true
  | _ => false

section Slots
variable {slot slot' : Slot} {base base' : BaseSlot Actor} {w : Option Actor} {r : Reply}

theorem weight_of_reply {next : Option Reply} (h : base.reply w r = some (base', next)) :
    next.elim 0 replyWeight + 4 * base'.retCond.notified.card <
      replyWeight r + 4 * base.retCond.notified.card := by
  cases r with
  | retval val | error err | record =>
      cases h
      simp [replyWeight]
  | state err =>
      simp only [BaseSlot.reply] at h
      split at h <;> cases h
      simp [replyWeight]
  | notify =>
      obtain ⟨c, hn, hc⟩ := Option.map_eq_some_iff.mp h
      cases hc
      have hle := CondVar.card_notifyOne_le hn
      simp only [Option.elim_some, replyWeight]
      omega

theorem weight_of_wait {pc : Wait} {pc' : Option Wait}
    (h : base.wait .raft pc = some (base', pc')) :
    pc'.elim 0 waitWeight + 4 * base'.retCond.notified.card <
      waitWeight pc + 4 * base.retCond.notified.card := by
  cases pc with
  | lock =>
      simp only [BaseSlot.wait] at h
      split at h <;> cases h
      simp [waitWeight]
  | test =>
      simp only [BaseSlot.wait] at h
      split at h <;> cases h
      · simp [waitWeight]
      · have hle := base.retCond.card_wait_le .raft
        simp only [Option.elim_some, waitWeight]
        omega
  | blocked =>
      simp only [BaseSlot.wait] at h
      split at h <;> rename_i hn <;> cases h
      have hcard := CondVar.card_resume hn.2
      simp only [Option.elim_some, waitWeight]
      omega
  | observe | unlock =>
      cases h
      simp [waitWeight]

theorem weight_of_complete (h : slot.complete w = some slot') : slot'.weight < slot.weight := by
  unfold Slot.complete at h
  split at h
  case h_1 | h_2 => cases h
  case h_3 success hc =>
      split at h <;> cases h
      simp [Slot.weight, hc, Completion.weight, replyWeight]
  case h_4 r hc =>
      obtain ⟨⟨slot₁, r'⟩, hr, rfl⟩ := Option.map_eq_some_iff.mp h
      obtain ⟨⟨base, next⟩, hb, heq⟩ := Option.map_eq_some_iff.mp hr
      cases heq
      have hlt := weight_of_reply hb
      cases r' <;> simp only [Slot.weight, hc, Completion.weight, Option.elim_none,
        Option.elim_some] at hlt ⊢ <;> omega
  case h_5 hc =>
      cases h
      simp [Slot.weight, hc, Completion.weight]

/-- What the Raft-side thread of a slot relies on: it is blocked only while it is
on the condition variable, and it is there only until the slot has its state and
the notification has been made. -/
structure Slot.Attentive (slot : Slot) (notifying : Prop) : Prop where
  blocked : slot.wait = some .blocked → slot.base.retCond.Blocks .raft
  alert : .raft ∈ slot.base.retCond.waiting →
    isTerminal slot.base.state = false ∨ notifying ∨ slot.completion = .replying .notify

variable {notifying : Prop}

theorem blocks_of_reply {next : Option Reply} (h : base.reply w r = some (base', next))
    (hb : base.retCond.Blocks .raft) : base'.retCond.Blocks .raft := by
  cases r with
  | retval val | error err | record =>
      cases h
      exact hb
  | state err =>
      simp only [BaseSlot.reply] at h
      split at h <;> cases h
      exact hb
  | notify =>
      obtain ⟨c, hn, hc⟩ := Option.map_eq_some_iff.mp h
      cases hc
      exact hb.notifyOne hn

/-- Whoever still waits behind a statement of a reply is notified by one of the
next statements. -/
theorem waiting_of_reply {next : Option Reply} (h : base.reply w r = some (base', next))
    (honly : ∀ a ∈ base.retCond.waiting, a = .raft) (hw : .raft ∈ base'.retCond.waiting) :
    .raft ∈ base.retCond.waiting ∧ r ≠ .notify ∧
      (isTerminal base'.state = isTerminal base.state ∨ next = some .notify) := by
  cases r with
  | retval val | error err | record =>
      cases h
      exact ⟨hw, by simp, .inl rfl⟩
  | state err =>
      simp only [BaseSlot.reply] at h
      split at h <;> cases h
      exact ⟨hw, by simp, .inr rfl⟩
  | notify =>
      obtain ⟨c, hn, hc⟩ := Option.map_eq_some_iff.mp h
      cases hc
      rw [CondVar.waiting_eq_empty_of_notifyOne hn honly] at hw
      simp at hw

/-- The worker makes a statement of its reply. -/
theorem Slot.Attentive.reply {next : Option Reply} (h : slot.Attentive (r = .notify))
    (honly : ∀ a ∈ slot.base.retCond.waiting, a = .raft)
    (hr : slot.reply w r = some (slot', next)) : slot'.Attentive (next = some .notify) := by
  obtain ⟨⟨base, next'⟩, hb, heq⟩ := Option.map_eq_some_iff.mp hr
  cases heq
  refine ⟨fun hw => blocks_of_reply hb (h.blocked hw), fun hw => ?_⟩
  obtain ⟨hold, hne, hcase⟩ := waiting_of_reply hb honly hw
  rcases h.alert hold with hopen | hn | hc
  · rcases hcase with hsame | hnext
    · exact .inl (hsame.trans hopen)
    · exact .inr (.inl hnext)
  · exact absurd hn hne
  · exact .inr (.inr hc)

/-- The completion makes a statement. -/
theorem Slot.Attentive.complete (h : slot.Attentive notifying)
    (honly : ∀ a ∈ slot.base.retCond.waiting, a = .raft)
    (hs : slot.complete w = some slot') : slot'.Attentive notifying := by
  unfold Slot.complete at hs
  split at hs
  case h_1 | h_2 => cases hs
  case h_3 success hc =>
      split at hs <;> cases hs
      exact ⟨h.blocked, fun hw => (h.alert hw).imp_right (.imp_right (by simp [hc]))⟩
  case h_4 r hc =>
      obtain ⟨⟨slot₁, next⟩, hr, rfl⟩ := Option.map_eq_some_iff.mp hs
      obtain ⟨⟨base, next'⟩, hb, heq⟩ := Option.map_eq_some_iff.mp hr
      cases heq
      refine ⟨fun hw => blocks_of_reply hb (h.blocked hw), fun hw => ?_⟩
      obtain ⟨hold, hne, hcase⟩ := waiting_of_reply hb honly hw
      rcases h.alert hold with hopen | hn | hn
      · rcases hcase with hsame | rfl
        · exact .inl (hsame.trans hopen)
        · exact .inr (.inr rfl)
      · exact .inr (.inl hn)
      · rw [hc, Completion.replying.injEq] at hn
        exact absurd hn hne
  case h_5 hc =>
      cases hs
      exact ⟨h.blocked, fun hw => (h.alert hw).imp_right (.imp_right (by simp [hc]))⟩

/-- The Raft-side thread makes a statement of `wait`. -/
theorem Slot.Attentive.wait {pc : Wait} {pc' : Option Wait} (h : slot.Attentive notifying)
    (hs : slot.base.wait .raft pc = some (base, pc')) :
    ({ slot with base := base, wait := pc' } : Slot).Attentive notifying := by
  cases pc with
  | lock =>
      simp only [BaseSlot.wait] at hs
      split at hs <;> cases hs
      exact ⟨by simp, h.alert⟩
  | test =>
      simp only [BaseSlot.wait] at hs
      split at hs <;> rename_i hterm <;> cases hs
      · exact ⟨by simp, h.alert⟩
      · exact ⟨fun _ => .inl (by simp [CondVar.wait]),
          fun _ => .inl (Bool.eq_false_iff.mpr hterm)⟩
  | blocked =>
      simp only [BaseSlot.wait] at hs
      split at hs <;> cases hs
      exact ⟨by simp, h.alert⟩
  | observe | unlock =>
      cases hs
      exact ⟨by simp, h.alert⟩

/-- A wakeup without notification. -/
theorem Slot.Attentive.wake (h : slot.Attentive notifying) :
    ({ slot with base := { slot.base with retCond := slot.base.retCond.wake .raft } } :
      Slot).Attentive notifying :=
  ⟨fun hw => (h.blocked hw).wake .raft, fun hw => h.alert (Finset.mem_of_mem_erase hw)⟩

/-- What a step of the worker outside a reply leaves alone in a slot. -/
structure Slot.Same (slot slot' : Slot) : Prop where
  request : slot'.request = slot.request
  wait : slot'.wait = slot.wait
  completion : slot'.completion = slot.completion
  retCond : slot'.base.retCond = slot.base.retCond
  terminal : isTerminal slot'.base.state = isTerminal slot.base.state

theorem Slot.Same.refl (slot : Slot) : slot.Same slot := by
  constructor <;> rfl

theorem Slot.Same.trans {slot'' : Slot} (h : slot.Same slot') (h' : slot'.Same slot'') :
    slot.Same slot'' where
  request := h'.request.trans h.request
  wait := h'.wait.trans h.wait
  completion := h'.completion.trans h.completion
  retCond := h'.retCond.trans h.retCond
  terminal := h'.terminal.trans h.terminal

theorem Slot.Same.weight (h : slot.Same slot') : slot'.weight = slot.weight := by
  simp only [Slot.weight, h.wait, h.completion, h.retCond]

theorem Slot.Same.attentive {notifying' : Prop} (h : slot.Same slot')
    (ha : slot.Attentive notifying) (hn : notifying → notifying') :
    slot'.Attentive notifying' := by
  refine ⟨fun hw => ?_, fun hw => ?_⟩
  · rw [h.retCond]
    exact ha.blocked (h.wait ▸ hw)
  · rw [h.retCond] at hw
    rw [h.terminal, h.completion]
    exact (ha.alert hw).imp_right (.imp_left hn)

end Slots

section WorkerSteps
variable {S ι : Type*} {client : Client S} {s s' : State S ι} {w : Option Actor}

/-- A step of the worker outside a reply. -/
structure Plain [DecidableEq ι] (s s' : State S ι) : Prop where
  slots : ∀ k, (s.slots k).Same (s'.slots k)
  next : s'.next = s.next
  queue : s'.queue = s.queue ∨
    ∃ out, s.queue.pc none = .done out ∧ s'.queue = s.queue.goto none .idle
  lighter : s'.worker.weight (s'.queue.pc none) < s.worker.weight (s.queue.pc none)
  silent : ∀ k, s.worker ≠ .replying k .notify
  stopped : s'.worker = .stopped → s.queue.pc none = .done .takeClosed

theorem same_setSlot {k : ℕ} (slot : Slot) (h : (s.slots k).Same slot) (j : ℕ) :
    (s.slots j).Same ((s.setSlot k slot).slots j) := by
  by_cases hj : j = k
  · subst hj
    simpa using h
  · simpa [hj] using Slot.Same.refl (s.slots j)

theorem same_setBase {k : ℕ} (base : BaseSlot Actor)
    (hc : base.retCond = (s.slots k).base.retCond)
    (ht : isTerminal base.state = isTerminal (s.slots k).base.state) (j : ℕ) :
    (s.slots j).Same ((s.setBase k base).slots j) :=
  same_setSlot { s.slots k with base := base } ⟨rfl, rfl, rfl, hc, ht⟩ j

theorem same_finish (k j : ℕ) : (s.slots j).Same ((s.finish k).slots j) :=
  same_setSlot { s.slots k with processed := true } ⟨rfl, rfl, rfl, rfl, rfl⟩ j

variable [DecidableEq ι]

/-- The worker moves on and leaves the queue alone. -/
theorem plain_of_queue (hslots : ∀ k, (s.slots k).Same (s'.slots k)) (hnext : s'.next = s.next)
    (hq : s'.queue = s.queue)
    (hlt : s'.worker.weight (s.queue.pc none) < s.worker.weight (s.queue.pc none))
    (hsilent : ∀ k, s.worker ≠ .replying k .notify) (hstop : s'.worker ≠ .stopped) :
    Plain s s' :=
  ⟨hslots, hnext, .inl hq, by rwa [hq], hsilent, fun h => absurd h hstop⟩

theorem plain_dispatch {tag : CallTag} {k : ℕ} (hw : s.worker = .dispatch tag k) :
    Plain s (dispatch client s tag k) := by
  have hsilent : ∀ k, s.worker ≠ .replying k .notify := by simp [hw]
  have hgo {base : BaseSlot Actor} {worker : Worker}
      (hc : base.retCond = (s.slots k).base.retCond)
      (ht : isTerminal base.state = isTerminal (s.slots k).base.state)
      (hlt : worker.weight (s.queue.pc none) < 30) (hstop : worker ≠ .stopped) :
      Plain s ((s.setBase k base).goto worker) :=
    plain_of_queue (same_setBase _ hc ht) rfl rfl (by rw [hw]; exact hlt) hsilent hstop
  have hstay {worker : Worker} (hlt : worker.weight (s.queue.pc none) < 30)
      (hstop : worker ≠ .stopped) : Plain s (s.goto worker) :=
    plain_of_queue (fun _ => .refl _) rfl rfl (by rw [hw]; exact hlt) hsilent hstop
  have habort : Plain s (s.goto .aborted) := hstay (by simp [Worker.weight]) (by simp)
  unfold dispatch
  split
  case isFalse => exact habort
  case isTrue hp =>
      split
      case h_1 log hlog =>
          unfold dispatchFsmApply
          split
          case h_1 =>
              split
              · exact habort
              · exact hgo rfl (by simp [hp, isTerminal]) (by simp [Worker.weight]) (by simp)
          all_goals exact hstay (by simp [Worker.weight]) (by simp)
      case h_2 path hpath =>
          unfold dispatchFsmSnapshot
          split
          · exact hgo rfl rfl (by simp [Worker.weight]) (by simp)
          · exact hgo rfl rfl (by simp [Worker.weight]) (by simp)
      case h_3 path hpath =>
          unfold dispatchFsmRestore
          split
          · exact habort
          · exact hstay (by simp [Worker.weight]) (by simp)
      case h_4 => exact habort

/-- A step of the worker is a statement of its reply or a plain one. -/
theorem workerStep_cases (haway : s.worker ≠ .take → s.queue.pc none = .idle)
    (h : workerStep client s w = some s') :
    (∃ k r slot next, s.worker = .replying k r ∧ (s.slots k).reply w r = some (slot, next) ∧
      s' = (s.setSlot k slot).goto (next.elim (.unlock k) (.replying k))) ∨ Plain s s' := by
  unfold workerStep at h
  split at h
  case h_1 hw =>
      split at h <;> rename_i hp <;> cases h
      · refine .inr ⟨fun _ => .refl _, rfl, .inr ⟨_, hp, rfl⟩, ?_, by simp [hw], by simp⟩
        simp [hw, hp, Worker.weight, takeWeight]
      · refine .inr ⟨fun _ => .refl _, rfl, .inr ⟨_, hp, rfl⟩, ?_, by simp [hw], fun _ => hp⟩
        simp [hw, hp, Worker.weight, takeWeight]
  case h_2 tag j hw =>
      split at h <;> cases h
      exact .inr (plain_of_queue (same_setBase _ rfl rfl) rfl rfl (by simp [hw, Worker.weight])
        (by simp [hw]) (by simp))
  case h_3 tag j hw =>
      cases h
      exact .inr (plain_dispatch hw)
  case h_4 j cb hw =>
      cases h
      exact .inr (plain_of_queue (fun _ => .refl _) rfl rfl (by simp [hw, Worker.weight])
        (by simp [hw]) (by simp))
  case h_5 j cb hw =>
      split at h <;> rename_i hr <;> cases h
      · refine .inr (plain_of_queue (fun _ => .refl _) rfl rfl ?_ (by simp [hw]) (by simp))
        cases cb with
        | apply index term logType data len =>
            cases hr
            simp [hw, Worker.weight, replyWeight]
        | beginSnapshot path req => cases hr
        | restore path =>
            cases hr
            simp [hw, Worker.weight, replyWeight]
      · refine .inr (plain_of_queue (same_finish j) rfl rfl ?_ (by simp [hw]) (by simp))
        simp [hw, haway (by simp [hw]), Worker.weight, takeWeight]
  case h_6 j r hw =>
      obtain ⟨⟨slot, next⟩, hr, rfl⟩ := Option.map_eq_some_iff.mp h
      refine .inl ⟨j, r, slot, next, hw, hr, ?_⟩
      cases next <;> rfl
  case h_7 j hw =>
      cases h
      refine .inr (plain_of_queue (fun k => ?_) rfl rfl ?_ (by simp [hw]) (by simp))
      · refine Slot.Same.trans ?_ (same_finish j k)
        exact same_setBase { (s.slots j).base with owned := none } rfl rfl k
      · simp [hw, haway (by simp [hw]), Worker.weight, takeWeight]
  case h_8 | h_9 => cases h

end WorkerSteps

section Going
variable {S ι : Type*} [DecidableEq ι] {client : Client S} {s s' : State S ι} {a : Act ι}

/-- Nobody waits for the slot or completes it. -/
structure Slot.Unused (slot : Slot) : Prop where
  wait : slot.wait = none
  completion : slot.completion = .idle
  waiting : slot.base.retCond.waiting = ∅

/-- Nothing that has been started gets lost. -/
structure Going (s : State S ι) : Prop where
  unused : ∀ k, s.next ≤ k → (s.slots k).Unused
  attentive : ∀ k, (s.slots k).Attentive (s.worker = .replying k .notify)
  takes : (s.queue.pc none).takes
  stopped : s.worker = .stopped → s.queue.closed = true
  offered : ∀ k < s.next, s.queue.Offered ((s.slots k).request.tag, k)

omit [DecidableEq ι] in
theorem going_initial (fsm : S) : Going (initial fsm : State S ι) where
  unused := fun _ _ => ⟨rfl, rfl, rfl⟩
  attentive := fun _ => ⟨by simp [initial, Slot.new], by
    simp [initial, Slot.new, BaseSlot.new, CondVar.empty]⟩
  takes := .inl rfl
  stopped := by simp [initial]
  offered := fun _ hk => absurd hk (Nat.not_lt_zero _)

omit [DecidableEq ι] in
theorem Going.lt_of_used (hg : Going s) {k : ℕ} (hk : ¬ (s.slots k).Unused) : k < s.next := by
  by_contra hge
  exact hk (hg.unused k (Nat.le_of_not_lt hge))

omit [DecidableEq ι] in
/-- One slot which is in use changes. -/
theorem Going.setSlot (hg : Going s) {k : ℕ} {slot : Slot}
    (hslots : s'.slots = Function.update s.slots k slot) (hnext : s'.next = s.next)
    (hqueue : s'.queue = s.queue) (hreq : slot.request = (s.slots k).request)
    (hk : k < s.next) (hstop : s'.worker = .stopped → s.worker = .stopped)
    (hself : slot.Attentive (s'.worker = .replying k .notify))
    (hother : ∀ j, j ≠ k → s.worker = .replying j .notify → s'.worker = .replying j .notify) :
    Going s' where
  unused := by
    intro j hj
    rw [hnext] at hj
    rw [hslots, Function.update_of_ne (hk.trans_le hj).ne']
    exact hg.unused j hj
  attentive := by
    intro j
    by_cases hjk : j = k
    · subst hjk
      rw [hslots, Function.update_self]
      exact hself
    · rw [hslots, Function.update_of_ne hjk]
      exact (Slot.Same.refl _).attentive (hg.attentive j) (hother j hjk)
  takes := hqueue ▸ hg.takes
  stopped := fun h => hqueue ▸ hg.stopped (hstop h)
  offered := by
    intro j hj
    rw [hnext] at hj
    rw [hqueue, hslots]
    by_cases hjk : j = k
    · subst hjk
      rw [Function.update_self, hreq]
      exact hg.offered j hj
    · rw [Function.update_of_ne hjk]
      exact hg.offered j hj

/-- The slots stay, and something happens in the queue. -/
theorem Going.queue (hg : Going s) {b : ArrayBlockingQueue.Act (CallTag × ℕ) (Option ι)}
    {q : ArrayBlockingQueue.State (CallTag × ℕ) (Option ι)}
    (ha : queueAllowed s.worker b = true)
    (h : ArrayBlockingQueue.step callQueueCapacity s.queue b = some q) :
    Going { s with queue := q } := by
  have ht := ArrayBlockingQueue.trans_of_step h
  refine ⟨hg.unused, hg.attentive, ?_, fun hw => ?_, fun k hk => (hg.offered k hk).trans ht⟩
  · refine ArrayBlockingQueue.takes_of_trans ht hg.takes ?_ ?_
    · rintro val rfl
      simpa using (queueAllowed_call ha).2.1
    · rintro rfl
      simp [queueAllowed] at ha
  · exact ArrayBlockingQueue.closed_mono ht (hg.stopped hw)

theorem Going.send (hg : Going s) {t : ι} {req : Request}
    {q : ArrayBlockingQueue.State (CallTag × ℕ) (Option ι)}
    (h : ArrayBlockingQueue.step callQueueCapacity s.queue
      (.call (some t) (.put (req.tag, s.next))) = some q) :
    Going { s with queue := q, slots := Function.update s.slots s.next (.new req)
                   next := s.next + 1 } := by
  have ht := ArrayBlockingQueue.trans_of_step h
  refine ⟨fun k hk => ?_, fun k => ?_, ?_, fun hw => ?_, fun k hk => ?_⟩
  · have hlt : s.next < k := hk
    simpa [hlt.ne'] using hg.unused k hlt.le
  · by_cases hkn : k = s.next
    · subst hkn
      simp only [Function.update_self]
      exact ⟨by simp [Slot.new], by simp [Slot.new, BaseSlot.new, CondVar.empty]⟩
    · simpa [hkn] using hg.attentive k
  · exact ArrayBlockingQueue.takes_of_trans ht hg.takes (by simp) (by simp)
  · exact ArrayBlockingQueue.closed_mono ht (hg.stopped hw)
  · rcases Nat.lt_succ_iff_lt_or_eq.mp hk with hlt | rfl
    · simpa [hlt.ne] using (hg.offered k hlt).trans ht
    · refine .inr (.inr ⟨some t, ?_⟩)
      cases ht
      simp [Slot.new, ArrayBlockingQueue.Pc.runs]

theorem Plain.going (hp : Plain s s') (hg : Going s)
    (hreach : (ArrayBlockingQueue.system callQueueCapacity noRecords).Reachable s.queue) :
    Going s' := by
  have hslot (k : ℕ) := hp.slots k
  refine ⟨fun k hk => ?_, fun k => ?_, ?_, fun hw => ?_, fun k hk => ?_⟩
  · have hold := hg.unused k (hp.next ▸ hk)
    exact ⟨(hslot k).wait.trans hold.wait, (hslot k).completion.trans hold.completion,
      (congrArg CondVar.waiting (hslot k).retCond).trans hold.waiting⟩
  · exact (hslot k).attentive (hg.attentive k) fun h => absurd h (hp.silent k)
  · rcases hp.queue with hq | ⟨out, -, hq⟩
    · exact hq ▸ hg.takes
    · exact .inl (by simp [hq])
  · have hclosed := ArrayBlockingQueue.closed_of_thrown hreach .take (hp.stopped hw)
    rcases hp.queue with hq | ⟨out, -, hq⟩
    · rwa [hq]
    · rwa [hq]
  · rw [hp.next] at hk
    rw [(hslot k).request]
    have ho := hg.offered k hk
    rcases hp.queue with hq | ⟨out, hdone, hq⟩
    · rwa [hq]
    · have hleave : ArrayBlockingQueue.Trans callQueueCapacity s.queue (.leave none)
          (s.queue.goto none .idle) := .leave hdone
      rw [hq]
      exact ho.trans hleave

theorem Going.step (hg : Going s) (hw : Wired s) (ht : Tracked client s)
    (h : step client s a = some s') : Going s' := by
  cases a with
  | send t req =>
      obtain ⟨q, hq, rfl⟩ := Option.map_eq_some_iff.mp h
      exact hg.send hq
  | queue b =>
      simp only [Fsm.step] at h
      split at h <;> rename_i hb
      · obtain ⟨q, hq, rfl⟩ := Option.map_eq_some_iff.mp h
        exact hg.queue hb hq
      · cases h
  | worker w =>
      rcases workerStep_cases hw.away h with ⟨k, r, slot, next, hwk, hr, rfl⟩ | hp
      · have hk : k < s.next := hw.lt_of_delivered (hw.hand k (by simp [State.hand, hwk])).1
        have hold : (s.slots k).Attentive (r = .notify) :=
          (Slot.Same.refl _).attentive (hg.attentive k) (by simp [hwk])
        have hself := hold.reply (ht.waiting k) hr
        refine hg.setSlot rfl rfl rfl (request_of_reply hr).1 hk ?_ ?_ ?_
        · cases next <;> simp
        · refine (Slot.Same.refl _).attentive hself ?_
          rintro rfl
          rfl
        · intro j hj hworker
          rw [hwk, Worker.replying.injEq] at hworker
          exact absurd hworker.1.symm hj
      · exact hp.going hg hw.reach
  | wait k =>
      simp only [Fsm.step] at h
      split at h <;> rename_i hk <;> cases h
      exact hg.setSlot rfl rfl rfl rfl hk.1 id ⟨by simp, (hg.attentive k).alert⟩ fun _ _ => id
  | waitStep k =>
      obtain ⟨pc, hpc, hb⟩ := Option.bind_eq_some_iff.mp h
      obtain ⟨⟨base, pc'⟩, hwait, rfl⟩ := Option.map_eq_some_iff.mp hb
      exact hg.setSlot rfl rfl rfl rfl (hg.lt_of_used fun h => by simp [h.wait] at hpc) id
        ((hg.attentive k).wait hwait) fun _ _ => id
  | waitWake k =>
      simp only [Fsm.step] at h
      split at h <;> rename_i hk <;> cases h
      exact hg.setSlot rfl rfl rfl rfl (hg.lt_of_used fun h => by simp [h.waiting] at hk) id
        (hg.attentive k).wake fun _ _ => id
  | complete k success =>
      simp only [Fsm.step] at h
      split at h <;> rename_i hk <;> cases h
      obtain ⟨⟨e, he, rfl, -⟩, hidle⟩ := hk
      refine hg.setSlot rfl rfl rfl rfl (ht.own e he).1 id ?_ fun _ _ => id
      have hatt := hg.attentive e.slot
      exact ⟨hatt.blocked, fun hw => (hatt.alert hw).imp_right (.imp_right (by simp [hidle]))⟩
  | completeStep k w =>
      obtain ⟨slot, hslot, rfl⟩ := Option.map_eq_some_iff.mp h
      obtain ⟨hne, hquiet⟩ := quiet_complete hslot
      exact hg.setSlot rfl rfl rfl hquiet.request (hg.lt_of_used fun h => hne h.completion) id
        ((hg.attentive k).complete (ht.waiting k) hslot) fun _ _ => id

end Going

section Work
variable {S ι : Type*} [Fintype ι] {client : Client S} {s s' : State S ι} {a : Act ι}

/-- What bounds the steps of all threads. -/
def State.work (s : State S ι) : ℕ :=
  2 * s.queue.remaining + s.worker.weight (s.queue.pc none) +
    32 * (s.next - s.queue.delivered.length) + total (Finset.range s.next) Slot.weight s.slots

/-- One slot which is in use gets lighter. -/
theorem work_lt_of_slot {k : ℕ} {slot : Slot} (hk : k < s.next)
    (hslots : s'.slots = Function.update s.slots k slot) (hnext : s'.next = s.next)
    (hq : s'.queue = s.queue)
    (hlt : s'.worker.weight (s.queue.pc none) + slot.weight <
      s.worker.weight (s.queue.pc none) + (s.slots k).weight) : s'.work < s.work := by
  have hsum := total_update Slot.weight s.slots (Finset.mem_range.mpr hk) slot
  simp only [State.work, hslots, hnext, hq]
  omega

variable [DecidableEq ι]

theorem Plain.work_lt (hp : Plain s s') : s'.work < s.work := by
  have hslots : total (Finset.range s.next) Slot.weight s'.slots =
      total (Finset.range s.next) Slot.weight s.slots :=
    total_congr fun k _ => (hp.slots k).weight
  have hlt := hp.lighter
  rcases hp.queue with hq | ⟨out, hdone, hq⟩
  · simp only [State.work, hp.next, hq, hslots] at hlt ⊢
    omega
  · -- the worker leaves `take`, and both positions weigh nothing in the queue
    have hrem : s'.queue.remaining = s.queue.remaining := by
      have hsum := ArrayBlockingQueue.remaining_goto (s := s.queue) none .idle
      rwa [hdone, ← hq] at hsum
    have hdel : s'.queue.delivered = s.queue.delivered := by
      rw [hq]
      rfl
    simp only [State.work, hp.next, hrem, hdel, hslots]
    omega

omit [Fintype ι] [DecidableEq ι] in
/-- Each record is delivered once, and each was sent. -/
theorem Wired.length_delivered_le [DecidableEq ι] (hw : Wired s) :
    s.queue.delivered.length ≤ s.next := by
  have hsub : (s.queue.delivered.map Prod.snd) ⊆ List.range s.next := fun k hk =>
    List.mem_range.mpr (hw.lt_of_delivered hk)
  simpa using (hw.nodup_delivered.subperm hsub).length_le

omit [Fintype ι] [DecidableEq ι] in
theorem weight_take_le {p : ArrayBlockingQueue.Pc (CallTag × ℕ)} (hp : p ≠ .idle)
    (hin : p.inHand = none) : takeWeight p ≤ 1 := by
  unfold takeWeight
  split
  · exact absurd rfl hp
  · simp [ArrayBlockingQueue.Pc.inHand] at hin
  · exact le_rfl
  · exact Nat.zero_le 1

omit [Fintype ι] in
/-- What a step inside the queue adds to the work of the worker: the record it
has taken, or the news that the queue is closed. -/
theorem weight_of_queueStep (hw : Wired s) {t : Option ι} {w : Option (Option ι)}
    {q : ArrayBlockingQueue.State (CallTag × ℕ) (Option ι)}
    (h : ArrayBlockingQueue.Trans callQueueCapacity s.queue (.step t w) q) :
    (s.worker.weight (q.pc none) ≤ s.worker.weight (s.queue.pc none) + 1 ∧
      q.delivered = s.queue.delivered) ∨
    (s.worker.weight (q.pc none) ≤ 32 ∧ ∃ r, q.delivered = s.queue.delivered ++ [r]) := by
  rcases hw.consumer_step (b := .step t w) rfl h with ⟨hdel, hin⟩ | ⟨r, hwk, -, -, hdel⟩
  · refine .inl ⟨?_, hdel⟩
    by_cases ht : t = none
    · subst ht
      have hwk : s.worker = .take := by
        by_contra hne
        exact (ArrayBlockingQueue.pc_of_step h).1 (hw.away hne)
      have hnone : (s.queue.pc none).inHand = none := by
        unfold ArrayBlockingQueue.Pc.inHand
        split
        · exact absurd ‹_› ((ArrayBlockingQueue.pc_of_step h).2 _)
        · rfl
      rw [hwk]
      exact (weight_take_le (ArrayBlockingQueue.pc_ne_idle_of_step h)
        (hin.trans hnone)).trans (Nat.le_add_left 1 _)
    · rw [ArrayBlockingQueue.pc_of_ne h (Ne.symm ht)]
      exact Nat.le_succ _
  · refine .inr ⟨?_, r, hdel⟩
    rw [hwk]
    simp only [Worker.weight]
    unfold takeWeight
    split <;> omega

/-- A thread goes on inside the queue. -/
theorem work_of_queueStep (hw : Wired s) {t : Option ι} {w : Option (Option ι)}
    {q : ArrayBlockingQueue.State (CallTag × ℕ) (Option ι)}
    (h : ArrayBlockingQueue.step callQueueCapacity s.queue (.step t w) = some q) :
    ({ s with queue := q } : State S ι).work < s.work := by
  have ht := ArrayBlockingQueue.trans_of_step h
  have hrem := ArrayBlockingQueue.remaining_of_trans ht
  simp only [State.work]
  rcases weight_of_queueStep hw ht with ⟨hle, hdel⟩ | ⟨hle, r, hdel⟩
  · rw [hdel]
    omega
  · have hlen := (hw.queue (b := .step t w) rfl h).length_delivered_le
    simp only [hdel, List.length_append, List.length_singleton] at hlen ⊢
    omega

/-- The worker calls `take`. -/
theorem work_of_call (hwk : s.worker = .take) (hidle : s.queue.pc none = .idle) :
    ({ s with queue := s.queue.goto none (.check .take) } : State S ι).work < s.work := by
  have hrem := ArrayBlockingQueue.remaining_goto (s := s.queue) none (.check .take)
  have hdel : (s.queue.goto none (.check .take)).delivered = s.queue.delivered := rfl
  rw [hidle] at hrem
  simp only [State.work, hwk, hidle, hdel, Worker.weight, takeWeight,
    ArrayBlockingQueue.State.goto_pc, Function.update_self]
  simp only [ArrayBlockingQueue.Pc.weight] at hrem
  omega

/-- Every step by which work gets done leaves less of it. -/
theorem work_of_step (hg : Going s) (hw : Wired s) (ha : a.working = true)
    (h : step client s a = some s') : s'.work < s.work := by
  cases a with
  | send | wait | waitWake | complete => cases ha
  | queue b =>
      simp only [Fsm.step] at h
      split at h <;> rename_i hb
      · obtain ⟨q, hq, rfl⟩ := Option.map_eq_some_iff.mp h
        cases b with
        | step t w => exact work_of_queueStep hw hq
        | call t op =>
            obtain ⟨rfl, rfl, hwk⟩ := queueAllowed_call hb
            cases ArrayBlockingQueue.trans_of_step hq with
            | call hidle => exact work_of_call hwk hidle
        | callClose | spurious | leave => cases ha
      · cases h
  | worker w =>
      rcases workerStep_cases hw.away h with ⟨k, r, slot, next, hwk, hr, rfl⟩ | hp
      · have hk : k < s.next := hw.lt_of_delivered (hw.hand k (by simp [State.hand, hwk])).1
        obtain ⟨⟨base, next'⟩, hb, heq⟩ := Option.map_eq_some_iff.mp hr
        cases heq
        have hlt := weight_of_reply hb
        refine work_lt_of_slot hk rfl rfl rfl ?_
        cases next <;> simp only [State.goto_worker, Option.elim_none, Option.elim_some,
          Worker.weight, Slot.weight, hwk] at hlt ⊢ <;> omega
      · exact hp.work_lt
  | waitStep k =>
      obtain ⟨pc, hpc, hb⟩ := Option.bind_eq_some_iff.mp h
      obtain ⟨⟨base, pc'⟩, hwait, rfl⟩ := Option.map_eq_some_iff.mp hb
      have hlt := weight_of_wait hwait
      refine work_lt_of_slot (hg.lt_of_used fun h => by simp [h.wait] at hpc) rfl rfl rfl ?_
      simp only [State.setSlot_worker, Slot.weight, hpc, Option.elim_some]
      omega
  | completeStep k w =>
      obtain ⟨slot, hslot, rfl⟩ := Option.map_eq_some_iff.mp h
      have hlt := weight_of_complete hslot
      obtain ⟨hne, -⟩ := quiet_complete hslot
      exact work_lt_of_slot (hg.lt_of_used fun h => hne h.completion) rfl rfl rfl
        (Nat.add_lt_add_left hlt _)

end Work

/-- What has left the queue has been processed or is in the worker's hands, unless
a failed assertion has ended the worker. -/
def State.Accounted {S ι : Type*} (s : State S ι) : Prop :=
  ∀ k ∈ s.queue.delivered.map Prod.snd,
    (s.slots k).processed = true ∨ s.hand = some k ∨ s.worker = .aborted

section Accounted
variable {S ι : Type*} [DecidableEq ι] {client : Client S} {fsm : S} {s s' : State S ι} {a : Act ι}

omit [DecidableEq ι] in
theorem State.Accounted.keep (h : s.Accounted)
    (hd : s'.queue.delivered = s.queue.delivered)
    (hp : ∀ k, (s.slots k).processed = true → (s'.slots k).processed = true)
    (hh : ∀ k, s.hand = some k →
      (s'.slots k).processed = true ∨ s'.hand = some k ∨ s'.worker = .aborted)
    (hw : s.worker = .aborted → s'.worker = .aborted) : s'.Accounted := by
  intro k hk
  rw [hd] at hk
  rcases h k hk with hproc | hhand | habort
  · exact .inl (hp k hproc)
  · exact hh k hhand
  · exact .inr (.inr (hw habort))

theorem State.Accounted.queue (h : s.Accounted) (hw : Wired s)
    {q : ArrayBlockingQueue.State (CallTag × ℕ) (Option ι)}
    {b : ArrayBlockingQueue.Act (CallTag × ℕ) (Option ι)}
    (ha : queueAllowed s.worker b = true)
    (hs : ArrayBlockingQueue.step callQueueCapacity s.queue b = some q) :
    ({ s with queue := q } : State S ι).Accounted := by
  rcases hw.consumer_step ha (ArrayBlockingQueue.trans_of_step hs) with
    ⟨hdel, hin⟩ | ⟨r, htake, hnone, hin, hdel⟩
  · refine h.keep hdel (fun _ => id) (fun k hk => .inr (.inl ?_)) id
    simpa only [State.hand, hin] using hk
  · intro k hk
    simp only [hdel, List.map_append, List.mem_append, List.map_singleton,
      List.mem_singleton] at hk
    rcases hk with hk | rfl
    · -- the worker has come with empty hands
      refine .inl ((h k hk).resolve_right ?_)
      simp [State.hand, htake, hnone]
    · exact .inr (.inl (by simp [State.hand, htake, hin]))

theorem State.Accounted.trans (h : s.Accounted) (hw : Wired s) (ht : Trans client s a s') :
    s'.Accounted := by
  have hset {j slot} (hj : slot.processed = (s.slots j).processed) (k : ℕ)
      (hp : (s.slots k).processed = true) :
      (Function.update s.slots j slot k).processed = true :=
    (update_slots_congr hj k).trans hp
  cases ht with
  | @send t req q hs =>
      have hq := ArrayBlockingQueue.trans_of_step hs
      have hpc := ArrayBlockingQueue.pc_of_ne (u := none) hq
        (by simp [ArrayBlockingQueue.Act.thread])
      have hdel := ArrayBlockingQueue.delivered_of_ne hq hw.consumer
        (by simp [ArrayBlockingQueue.Act.thread])
      refine h.keep hdel (fun k hp => ?_) (fun k hk => .inr (.inl ?_)) id
      · have hlt := hw.lt_of_delivered (hw.processed k hp)
        simpa [hlt.ne] using hp
      · simpa only [State.hand, hpc] using hk
  | queue ha hs => exact h.queue hw ha hs
  | taken hwk hp | closed hwk hp =>
      exact h.keep rfl (fun _ => id)
        (by simp [State.hand, hwk, hp, ArrayBlockingQueue.Pc.inHand]) (by simp [hwk])
  | abort hwk => exact h.keep rfl (hset rfl) (by simp) (by simp)
  | lock hwk | call hwk => exact h.keep rfl (hset rfl) (by simp [State.hand, hwk]) (by simp [hwk])
  | skip hwk | invoke hwk | returnReply hwk =>
      exact h.keep rfl (fun _ => id) (by simp [State.hand, hwk]) (by simp [hwk])
  | reply hwk hr | replied hwk hr =>
      exact h.keep rfl (hset (request_of_reply hr).2.1) (by simp [State.hand, hwk])
        (by simp [hwk])
  | @returnQuiet w k cb fsm hwk | @unlock w k hwk =>
      refine h.keep rfl (fun j hp => ?_) (fun j hj => .inl ?_) (by simp [hwk])
      · by_cases hjk : j = k
        · simp [hjk]
        · simpa [hjk] using hp
      · obtain rfl : k = j := by simpa [State.hand, hwk] using hj
        simp
  | other hq hc => exact h.keep rfl (hset hq.processed) (fun _ hk => .inr (.inl hk)) id

theorem accounted_of_reach {guard : State S ι → Act ι → State S ι → Prop}
    (h : (system client fsm).Reach guard s) : s.Accounted := by
  refine h.invariant (I := State.Accounted) (fun k hk => absurd hk List.not_mem_nil)
    fun s a s' hs ha hstep _ => ?_
  exact ha.trans (wired_of_reach hs) (trans_of_step hstep)

end Accounted

section Stuck
variable {S ι : Type*} [DecidableEq ι] {client : Client S} {fsm : S} {s : State S ι} {k : ℕ}

/-- Nobody can go on with the work which is there. -/
def State.Stuck (client : Client S) (s : State S ι) : Prop :=
  ∀ a : Act ι, a.working = true → step client s a = none

omit [DecidableEq ι] in
/-- A statement of a reply can be made if the assertion holds. -/
theorem exists_reply {base : BaseSlot Actor} {r : Reply}
    (hr : isTerminal base.state = !r.beforeStore) : ∃ w, base.reply w r ≠ none := by
  cases r with
  | retval val | error err | record => exact ⟨none, by simp [BaseSlot.reply]⟩
  | state err =>
      have hopen : isTerminal base.state = false := by simpa [Reply.beforeStore] using hr
      exact ⟨none, by simp [BaseSlot.reply, hopen]⟩
  | notify =>
      obtain ⟨w, c, hn⟩ := base.retCond.exists_notifyOne
      exact ⟨w, by simp [BaseSlot.reply, hn]⟩

/-- Behind its acquisition of a slot, the worker can always make a step. -/
theorem exists_workerStep (ht : Tracked client s) (htake : s.worker ≠ .take)
    (hlock : ∀ tag j, s.worker ≠ .lock tag j) (hstop : s.worker ≠ .stopped)
    (hne : s.worker ≠ .aborted) : ∃ w, workerStep client s w ≠ none := by
  cases hwk : s.worker with
  | take => exact absurd hwk htake
  | lock tag j => exact absurd hwk (hlock tag j)
  | stopped => exact absurd hwk hstop
  | aborted => exact absurd hwk hne
  | dispatch tag j | invoke j cb | unlock j => exact ⟨none, by simp [workerStep, hwk]⟩
  | running j cb =>
      refine ⟨none, ?_⟩
      simp only [workerStep, hwk]
      split <;> simp
  | replying j r =>
      have hrep : Replying client s.invoked j (s.slots j) r := by
        have heng := ht.engaged j (by simp [hwk, Worker.engaged])
        rwa [hwk] at heng
      obtain ⟨w, hw⟩ := exists_reply hrep.counted.1
      exact ⟨w, by simpa [workerStep, hwk, Slot.reply] using hw⟩

theorem completing_of_completion (h : (system client fsm).Reachable s)
    (hne : (s.slots k).completion ≠ .idle) : ∃ success, (s.slots k).Completing success := by
  have ht : Tracked client s := tracked_of_reach h
  obtain ⟨path, hpath⟩ := ht.completion k hne
  obtain ⟨e, he, rfl⟩ := begun_of_completion h hne
  exact (snapshot_cases h (ht.own e he).1 hpath).resolve_left fun hidle => hne hidle.1

/-- Behind its acquisition of the slot, a completion can always make a step. -/
theorem exists_complete (h : (system client fsm).Reachable s)
    (hc : (s.slots k).completion.holds = true) : ∃ w, (s.slots k).complete w ≠ none := by
  cases hcomp : (s.slots k).completion with
  | idle | lock | returned => simp [hcomp, Completion.holds] at hc
  | unlock => exact ⟨none, by simp [Slot.complete, hcomp]⟩
  | replying r =>
      obtain ⟨success, hcs⟩ := completing_of_completion h (k := k) (by simp [hcomp])
      simp only [Slot.Completing, hcomp] at hcs
      obtain ⟨w, hw⟩ := exists_reply hcs.2.1
      exact ⟨w, by simpa [Slot.complete, hcomp, Slot.reply] using hw⟩

/-- Requests which pass the assertions do not abort the worker. -/
theorem not_aborted_of_reach
    (h : (system client fsm).Reach (fun _ a _ => a.Sends Request.Passes) s) :
    s.worker ≠ .aborted := by
  refine h.invariant (I := fun s => s.worker ≠ .aborted) (by simp [system, initial]) ?_
  intro s a s' hs ih hstep _
  have hw := wired_of_reach hs
  have htr : Tracked client s := tracked_of_reach hs
  cases trans_of_step hstep with
  | @abort w tag k base hwk hbad hb =>
      have hsent := hw.sent_of_dispatch hwk
      have hpending := (htr.fresh_of_dispatch hw hwk).state
      exact absurd (request_of_reach hs k hsent.1) (hbad hpending hsent.2)
  | send | queue | other => exact ih
  | _ => simp

/-- When nobody can go on, no slot is locked. -/
theorem owned_of_stuck (h : (system client fsm).Reachable s) (hne : s.worker ≠ .aborted)
    (hstuck : s.Stuck client) (k : ℕ) : (s.slots k).base.owned = none := by
  refine Option.eq_none_iff_forall_ne_some.mpr fun a ha => ?_
  have hmay := held_of_reachable h k a ha
  cases a with
  | worker =>
      have hmay' : s.worker.mayHold k = true := hmay
      obtain ⟨w, hw⟩ := exists_workerStep (tracked_of_reach h)
        (by rintro hwk; simp [hwk, Worker.mayHold] at hmay')
        (by rintro tag j hwk; simp [hwk, Worker.mayHold] at hmay')
        (by rintro hwk; simp [hwk, Worker.mayHold] at hmay') hne
      exact hw (hstuck (.worker w) rfl)
  | raft =>
      obtain ⟨pc, hpc, hholds⟩ := hmay
      have hnone := hstuck (.waitStep k) rfl
      simp only [Fsm.step, hpc, Option.bind_some, Option.map_eq_none_iff] at hnone
      cases pc with
      | lock | blocked => simp [waitHolds] at hholds
      | test =>
          simp only [BaseSlot.wait] at hnone
          split at hnone <;> cases hnone
      | observe | unlock => simp [BaseSlot.wait] at hnone
  | completer =>
      obtain ⟨w, hw⟩ := exists_complete h hmay
      have hnone := hstuck (.completeStep k w) rfl
      exact hw (by simpa [Fsm.step] using hnone)

/-- When nobody can go on and the queue is open, the worker is inside `take`. -/
theorem take_of_stuck (hg : Going s) (ht : Tracked client s) (hne : s.worker ≠ .aborted)
    (howned : ∀ k, (s.slots k).base.owned = none) (hstuck : s.Stuck client)
    (hopen : s.queue.closed = false) : s.worker = .take ∧ (s.queue.pc none).runs .take := by
  have hwk : s.worker = .take := by
    by_contra htake
    obtain ⟨w, hw⟩ := exists_workerStep ht htake
      (fun tag j hlock => by
        have hnone : workerStep client s none = none := hstuck (.worker none) rfl
        simp [workerStep, hlock, howned j] at hnone)
      (fun hstop => by simp [hg.stopped hstop] at hopen) hne
    exact hw (hstuck (.worker w) rfl)
  refine ⟨hwk, ?_⟩
  have hnone : workerStep client s none = none := hstuck (.worker none) rfl
  rcases hg.takes with hp | hp | ⟨r, hp⟩ | hp
  · have hcall := hstuck (.queue (.call none .take)) rfl
    simp [Fsm.step, queueAllowed, hwk, ArrayBlockingQueue.step, hp] at hcall
  · exact hp
  · simp [workerStep, hwk, hp] at hnone
  · simp [workerStep, hwk, hp] at hnone

/-- When nobody can go on and the queue is open, everything which was offered has
left the queue. -/
theorem delivered_of_stuck (hw : Wired s) (hstuck : s.Stuck client)
    (hopen : s.queue.closed = false) (htake : (s.queue.pc none).runs .take) {r : CallTag × ℕ}
    (ho : s.queue.Offered r) : r ∈ s.queue.delivered := by
  have hsound := ArrayBlockingQueue.sound_of_reachable hw.reach
  have hqueue : s.queue.Stuck callQueueCapacity := fun t w => by
    simpa [Fsm.step, queueAllowed] using hstuck (.queue (.step t w)) rfl
  have hasleep := ArrayBlockingQueue.allAsleep_of_stuck hsound hqueue
  obtain ⟨hempty, hfull⟩ := ArrayBlockingQueue.exhausted_of_reachable (by decide) hw.reach hopen
    hasleep
  have hcount : s.queue.ring.count = 0 :=
    hempty ⟨none, ArrayBlockingQueue.waiting_of_runs hsound hasleep htake⟩
  have hcontents : s.queue.ring.contents callQueueCapacity = [] := by
    simp [ArrayBlockingQueue.Ring.contents, hcount]
  have hall := ArrayBlockingQueue.delivered_append_contents (by decide) hw.reach
  rw [hcontents, List.append_nil] at hall
  rw [hall]
  rcases ho with hacc | hclosed | ⟨t, hruns⟩
  · exact hacc
  · simp [hopen] at hclosed
  · have hcap := hfull ⟨t, ArrayBlockingQueue.waiting_of_runs hsound hasleep hruns⟩
    rw [hcount] at hcap
    exact absurd hcap (by decide)

/-- A Raft-side thread which is left waiting waits for a snapshot which the
client has not completed, or for a log entry which is not a command. -/
theorem wait_of_stuck (h : (system client fsm).Reachable s) (hg : Going s)
    (howned : ∀ k, (s.slots k).base.owned = none) (hstuck : s.Stuck client)
    (hwk : s.worker = .take) (hp : (s.slots k).processed = true)
    (hwait : (s.slots k).wait ≠ none) :
    (∃ path, (s.slots k).request = .snapshot path) ∧ (s.slots k).completion = .idle ∨
      (s.slots k).request.Skipped := by
  have ht : Tracked client s := tracked_of_reach h
  obtain ⟨pc, hpc⟩ := Option.ne_none_iff_exists'.mp hwait
  have hnone := hstuck (.waitStep k) rfl
  simp only [Fsm.step, hpc, Option.bind_some, Option.map_eq_none_iff] at hnone
  have hblocked : pc = .blocked ∧ .raft ∉ (s.slots k).base.retCond.notified := by
    cases pc with
    | lock => simp [BaseSlot.wait, howned k] at hnone
    | test =>
        simp only [BaseSlot.wait] at hnone
        split at hnone <;> cases hnone
    | blocked => exact ⟨rfl, by simpa [BaseSlot.wait, howned k] using hnone⟩
    | observe | unlock => simp [BaseSlot.wait] at hnone
  obtain ⟨rfl, hmiss⟩ := hblocked
  have hcomplete (w : Option Actor) : (s.slots k).complete w = none := by
    simpa [Fsm.step] using hstuck (.completeStep k w) rfl
  have hfree : (s.slots k).completion.holds = false := by
    refine Bool.eq_false_iff.mpr fun hc => ?_
    obtain ⟨w, hw⟩ := exists_complete h hc
    exact hw (hcomplete w)
  have hopen : isTerminal (s.slots k).base.state = false := by
    have hatt := hg.attentive k
    rcases hatt.alert ((hatt.blocked hpc).resolve_right hmiss) with hopen | hn | hc
    · exact hopen
    · simp [hwk] at hn
    · simp [hc, Completion.holds] at hfree
  rcases (ht.resting k (by simp [hwk, Worker.engaged])).ended hp with hsnap | hun | han
  · refine .inl ⟨hsnap, ?_⟩
    by_contra hne
    obtain ⟨success, hcs⟩ := completing_of_completion h hne
    cases hcomp : (s.slots k).completion with
    | idle => exact hne hcomp
    | lock b => simpa [Slot.complete, hcomp, howned k] using hcomplete none
    | replying r | unlock => simp [hcomp, Completion.holds] at hfree
    | returned =>
        simp only [Slot.Completing, hcomp] at hcs
        rw [hcs.1.isTerminal] at hopen
        cases hopen
  · exact .inr hun.skipped
  · obtain ⟨first, -, hf⟩ := han.own
    rw [hf.isTerminal] at hopen
    cases hopen

end Stuck

theorem going_of_reach {S ι : Type*} [DecidableEq ι] {client : Client S} {fsm : S}
    {s : State S ι} {guard : State S ι → Act ι → State S ι → Prop}
    (h : (system client fsm).Reach guard s) : Going s :=
  h.invariant (going_initial fsm) fun _ _ _ hs hg hstep _ =>
    hg.step (wired_of_reach hs) (tracked_of_reach hs) hstep

/-- When requests pass the assertions of the dispatchers, no schedule of the
worker, of the threads in the queue, of the waiting Raft-side threads and of the
completions goes on for ever, wakeups without a notification apart. A schedule of
theirs which cannot be continued, with the queue open, ends with every request
processed; whoever still waits for one waits for a snapshot which the client has
not completed, or for a log entry which is not a command. -/
theorem requests_processed {S ι : Type*} [DecidableEq ι] [Fintype ι] (client : Client S) (fsm : S)
    {s t : State S ι} (h : (system client fsm).Reach (fun _ a _ => a.Sends Request.Passes) s)
    {sched : List (Act ι)} (ha : ∀ a ∈ sched, a.working = true)
    (hr : (system client fsm).run s sched = some t) :
    sched.length ≤ s.work ∧
      (t.Stuck client → t.queue.closed = false → ∀ k < t.next,
        (t.slots k).processed = true ∧
        ((t.slots k).wait ≠ none →
          (∃ path, (t.slots k).request = .snapshot path) ∧ (t.slots k).completion = .idle ∨
            (t.slots k).request.Skipped)) := by
  have hsends : ∀ a : Act ι, a.working = true → a.Sends Request.Passes := by
    intro a hw
    cases a with
    | send => cases hw
    | _ => trivial
  obtain ⟨hend, hlen⟩ := Scheduled.run_of_decreasing (S := system client fsm)
    (P := fun a => a.working = true)
    (I := (system client fsm).Reach fun _ a _ => a.Sends Request.Passes) (m := State.work)
    (fun u a v hu hw hstep => ⟨.step hu hstep (hsends a hw),
      work_of_step (going_of_reach hu) (wired_of_reach hu) hw hstep⟩) h ha hr
  refine ⟨by omega, fun hstuck hopen k hk => ?_⟩
  have hreach := hend.reachable
  have hw := wired_of_reach hend
  have ht : Tracked client t := tracked_of_reach hend
  have hg := going_of_reach hend
  have hne := not_aborted_of_reach hend
  have howned := owned_of_stuck hreach hne hstuck
  obtain ⟨hwk, htake⟩ := take_of_stuck hg ht hne howned hstuck hopen
  have hdel := delivered_of_stuck hw hstuck hopen htake (hg.offered k hk)
  have hhand : t.hand = none := by
    simp [State.hand, hwk, ArrayBlockingQueue.inHand_of_runs htake]
  have hp : (t.slots k).processed = true := by
    rcases accounted_of_reach hend k (List.mem_map_of_mem hdel) with hp | hk' | habort
    · exact hp
    · simp [hhand] at hk'
    · exact absurd habort hne
  exact ⟨hp, wait_of_stuck hreach hg howned hstuck hwk hp⟩

/-- Everybody is asleep or has come back. -/
theorem stuck_of_asleep {S ι : Type*} [DecidableEq ι] {client : Client S} {s : State S ι}
    (hg : Going s) (hwk : s.worker = .take) (hpc : s.queue.pc none = .wait .take)
    (hq : s.queue.Stuck callQueueCapacity)
    (hslots : ∀ k < s.next, (s.slots k).wait = none ∧ (s.slots k).completion = .idle) :
    s.Stuck client := by
  have hall (k : ℕ) : (s.slots k).wait = none ∧ (s.slots k).completion = .idle := by
    rcases Nat.lt_or_ge k s.next with hk | hk
    · exact hslots k hk
    · exact ⟨(hg.unused k hk).wait, (hg.unused k hk).completion⟩
  intro a ha
  cases a with
  | send | wait | waitWake | complete => cases ha
  | worker w => simp [Fsm.step, workerStep, hwk, hpc]
  | waitStep k => simp [Fsm.step, (hall k).1]
  | completeStep k w => simp [Fsm.step, Slot.complete, (hall k).2]
  | queue b =>
      cases b with
      | step t w => simp [Fsm.step, queueAllowed, hq t w]
      | call t op =>
          cases t with
          | none => simp [Fsm.step, ArrayBlockingQueue.step, hpc]
          | some t => cases ha
      | callClose | spurious | leave => cases ha

/-- The worker processes one request and sleeps; the Raft side gets its answer. -/
def processRun : List (Act Unit) :=
  workerRun 10 ++ [Act.queue (.call none .take)] ++
    List.replicate 3 (Act.queue (.step none none)) ++ List.replicate 4 (Act.waitStep 0)

theorem requests_processed_apply :
    ∃ s t : State ℕ Unit, (system counter 0).run s processRun = some t ∧ t.next = 1 ∧
      (t.slots 0).processed = true := by
  have hinit : (system counter 0).Reach (fun _ a _ => a.Sends Request.Passes)
      (initial 0 : State ℕ Unit) := .init
  obtain ⟨s, hs, hafter⟩ := hinit.exists_of_run
    (sendRun (.apply ⟨1, 1, .command, 64, 8⟩) ++ [Act.wait 0]) (by decide +kernel)
    (fun s => ((system counter 0).run s processRun).any (fun t => decide (t.next = 1 ∧
      t.worker = .take ∧ t.queue.pc none = .wait .take ∧ t.queue.closed = false ∧
      t.queue.Stuck callQueueCapacity ∧ ∀ k < t.next,
        (t.slots k).wait = none ∧ (t.slots k).completion = .idle)) = true) (by decide +kernel)
  obtain ⟨t, hrun, ht⟩ := Option.any_eq_true _ _ |>.mp hafter
  obtain ⟨hnext, hwk, hpc, hopen, hq, hslots⟩ := of_decide_eq_true ht
  have hg : Going t := going_of_reach (hs.reachable.run hrun)
  have hdone := (requests_processed counter 0 hs (by decide) hrun).2
    (stuck_of_asleep hg hwk hpc hq hslots) hopen 0 (by omega)
  exact ⟨s, t, hrun, hnext, hdone.1⟩

end Libraft.Fsm
