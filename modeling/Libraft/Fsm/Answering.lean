import Libraft.Fsm.Transitions

/-!
# Which requests the worker answers

Every slot is followed through the worker's step. A slot which the worker has
not dispatched is fresh; from the call of the client's function to the end of
the step it holds what the reply has stored so far; afterwards it is answered,
or it was skipped. The skipped ones are the log entries other than commands.
-/

namespace Libraft.Fsm

open Libraft.Foundation Libraft.Calls
open Libraft.Queue

variable {S ι : Type*}

/-- An FSMApply whose log entry is not a command. -/
def Request.Skipped (req : Request) : Prop := ∃ log, req = .apply log ∧ log.logType ≠ .command

theorem Request.ReachesClient.not_skipped {req : Request} (h : req.ReachesClient) :
    ¬ req.Skipped := by
  rintro ⟨log, rfl, ht⟩
  exact ht h.1

/-- The reply which begins with `first` answers the invocation made for the request. -/
def Owed (client : Client S) (invoked : List (Invocation S)) (k : ℕ) (req : Request)
    (first : Reply) : Prop :=
  ∃ e ∈ invoked, e.slot = k ∧ e.callback = req.callback client k ∧
    (e.callback.run client e.seen).2 = some first

/-- Only requests of the other two kinds are owed a reply by the worker. -/
theorem Owed.ne_snapshot {client : Client S} {invoked : List (Invocation S)} {k : ℕ}
    {req : Request} {first : Reply} (h : Owed client invoked k req first) (path : List UInt8) :
    req ≠ .snapshot path := by
  rintro rfl
  obtain ⟨e, -, -, hcb, hrun⟩ := h
  simp [hcb, Request.callback, Callback.run] at hrun

/-- The worker has not come to the slot. -/
structure Fresh (invoked : List (Invocation S)) (k : ℕ) (slot : Slot) : Prop where
  state : slot.base.state = .pending
  replies : slot.replies = 0
  completion : slot.completion = .idle
  uncalled : ∀ e ∈ invoked, e.slot ≠ k

/-- The client's function has been called, or is about to be. -/
structure Called (client : Client S) (k : ℕ) (slot : Slot) (cb : Callback) : Prop where
  own : cb = slot.request.callback client k
  handled : ¬ slot.request.Skipped
  open_ : slot.completion = .idle → isTerminal slot.base.state = false ∧ slot.replies = 0

/-- The worker comes to statement `r` of its reply. -/
structure Replying (client : Client S) (invoked : List (Invocation S)) (k : ℕ) (slot : Slot)
    (r : Reply) : Prop where
  own : ∃ first, Owed client invoked k slot.request first ∧ first.Underway slot.base r
  handled : ¬ slot.request.Skipped
  counted : isTerminal slot.base.state = !r.beforeStore ∧
    slot.replies = if r.beforeStore then 0 else 1
  released : r = .record → slot.base.retCond.waiting = ∅

/-- The slot has its one reply, and nobody is left waiting for it. -/
structure Answered (client : Client S) (invoked : List (Invocation S)) (k : ℕ) (slot : Slot) :
    Prop where
  own : ∃ first, Owed client invoked k slot.request first ∧ first.Finished slot.base
  handled : ¬ slot.request.Skipped
  replies : slot.replies = 1
  released : slot.base.retCond.waiting = ∅

/-- The worker has let go of the slot without a reply. -/
structure Unanswered (slot : Slot) : Prop where
  skipped : slot.request.Skipped
  state : slot.base.state = .pending
  replies : slot.replies = 0

/-- The slot behind the worker's switch. -/
def Over (client : Client S) (invoked : List (Invocation S)) (k : ℕ) (slot : Slot) : Prop :=
  Unanswered slot ∨ Answered client invoked k slot

/-- The slot which the worker has dispatched and not finished. -/
def Worker.engaged : Worker → Option ℕ
  | .invoke k _ | .running k _ | .replying k _ | .unlock k => some k
  | _ => none

/-- What the worker's position says about the slot it has dispatched. -/
def Engaged (client : Client S) (invoked : List (Invocation S)) (k : ℕ) (slot : Slot) :
    Worker → Prop
  | .invoke _ cb | .running _ cb => Called client k slot cb
  | .replying _ r => Replying client invoked k slot r
  | .unlock _ => Over client invoked k slot
  | _ => True

/-- What is known about a slot the worker is not busy with. -/
structure Resting (client : Client S) (invoked : List (Invocation S)) (k : ℕ) (slot : Slot) :
    Prop where
  fresh : slot.processed = false → Fresh invoked k slot
  ended : slot.processed = true →
    (∃ path, slot.request = .snapshot path) ∨ Over client invoked k slot

section Quiet
variable {client : Client S} {invoked : List (Invocation S)} {k : ℕ} {slot slot' : Slot}

theorem Quiet.stores (hq : Quiet slot slot') (hc : slot'.completion = .idle) {first : Reply}
    {err : RaftError} (h : first.Stores slot.base err) : first.Stores slot'.base err := by
  unfold Reply.Stores at h ⊢
  rwa [hq.retval hc]

theorem Quiet.underway (hq : Quiet slot slot') (hc : slot'.completion = .idle)
    {first r : Reply} (h : first.Underway slot.base r) : first.Underway slot'.base r := by
  cases r with
  | retval val => exact h
  | error err => exact hq.stores hc h
  | state err => exact ⟨(hq.error hc).trans h.1, hq.stores hc h.2⟩
  | notify | record =>
      refine ⟨?_, ?_⟩
      · rw [hq.state hc, hq.error hc, h.1]
      · rw [hq.error hc]
        exact hq.stores hc h.2

theorem Fresh.quiet (h : Fresh invoked k slot) (hq : Quiet slot slot')
    (hc : slot'.completion = .idle) : Fresh invoked k slot' :=
  ⟨(hq.state hc).trans h.state, (hq.replies hc).trans h.replies, hc, h.uncalled⟩

theorem Called.quiet {cb : Callback} (h : Called client k slot cb) (hq : Quiet slot slot') :
    Called client k slot' cb where
  own := hq.request ▸ h.own
  handled := hq.request ▸ h.handled
  open_ := by
    intro hc
    have hidle : slot.completion = .idle := by
      by_contra hne
      exact hq.started hne hc
    rw [hq.state hc, hq.replies hc]
    exact h.open_ hidle

theorem Replying.quiet {r : Reply} (h : Replying client invoked k slot r) (hq : Quiet slot slot')
    (hc : slot'.completion = .idle) : Replying client invoked k slot' r where
  own := by
    obtain ⟨first, ho, hu⟩ := h.own
    exact ⟨first, hq.request ▸ ho, hq.underway hc hu⟩
  handled := hq.request ▸ h.handled
  counted := by
    rw [hq.state hc, hq.replies hc]
    exact h.counted
  released := by
    rintro rfl
    exact hq.released hc h.counted.1 (h.released rfl)

theorem Over.quiet (h : Over client invoked k slot) (hq : Quiet slot slot')
    (hc : slot'.completion = .idle) : Over client invoked k slot' := by
  rcases h with h | h
  · exact .inl ⟨hq.request ▸ h.skipped, (hq.state hc).trans h.state,
      (hq.replies hc).trans h.replies⟩
  · obtain ⟨first, ho, hf⟩ := h.own
    exact .inr ⟨⟨first, hq.request ▸ ho, hq.underway (r := .record) hc hf⟩,
      hq.request ▸ h.handled, (hq.replies hc).trans h.replies,
      hq.released hc hf.isTerminal h.released⟩

theorem Over.ne_snapshot (h : Over client invoked k slot) (path : List UInt8) :
    slot.request ≠ .snapshot path := by
  rcases h with ⟨⟨log, hr, -⟩, -, -⟩ | ⟨⟨first, ho, -⟩, -, -, -⟩
  · simp [hr]
  · exact ho.ne_snapshot path

end Quiet

section Calls
variable {client : Client S} {invoked : List (Invocation S)} {k : ℕ} {slot slot' : Slot}

theorem Owed.mono {req : Request} {first : Reply} (h : Owed client invoked k req first)
    (e : Invocation S) : Owed client (invoked ++ [e]) k req first := by
  obtain ⟨e', he, h⟩ := h
  exact ⟨e', List.mem_append_left _ he, h⟩

theorem Over.mono (h : Over client invoked k slot) (e : Invocation S) :
    Over client (invoked ++ [e]) k slot := by
  refine h.imp_right fun h => ?_
  obtain ⟨first, ho, hf⟩ := h.own
  exact ⟨⟨first, ho.mono e, hf⟩, h.handled, h.replies, h.released⟩

/-- An invocation for another slot. -/
theorem Resting.mono (h : Resting client invoked k slot) {e : Invocation S} (he : e.slot ≠ k) :
    Resting client (invoked ++ [e]) k slot where
  fresh := fun hp =>
    { h.fresh hp with
      uncalled := by
        intro e' he'
        rcases List.mem_append.mp he' with he' | he'
        · exact (h.fresh hp).uncalled e' he'
        · exact (List.mem_singleton.mp he') ▸ he }
  ended := fun hp => (h.ended hp).imp_right fun h => h.mono e

/-- One statement of the worker's reply. -/
theorem Replying.step {r : Reply} {w : Option Actor} {next : Option Reply}
    (h : Replying client invoked k slot r) (hw : ∀ a ∈ slot.base.retCond.waiting, a = .raft)
    (hr : slot.reply w r = some (slot', next)) :
    match next with
    | some r' => Replying client invoked k slot' r'
    | none => Answered client invoked k slot' := by
  obtain ⟨first, ho, hu⟩ := h.own
  obtain ⟨⟨base, next⟩, hb, heq⟩ := Option.map_eq_some_iff.mp hr
  cases heq
  have hu' := hu.step hb
  obtain ⟨hstate, hcount⟩ := h.counted
  cases r with
  | retval val | error err =>
      cases hb
      exact ⟨⟨first, ho, hu'⟩, h.handled, ⟨hstate, hcount⟩, by simp⟩
  | state err =>
      simp only [BaseSlot.reply] at hb
      split at hb <;> cases hb
      refine ⟨⟨first, ho, hu'⟩, h.handled, ⟨by simp [Reply.beforeStore], ?_⟩, by simp⟩
      simpa [Reply.beforeStore] using hcount
  | notify =>
      obtain ⟨c, hn, hc⟩ := Option.map_eq_some_iff.mp hb
      cases hc
      refine ⟨⟨first, ho, hu'⟩, h.handled, ⟨hstate, hcount⟩, fun _ => ?_⟩
      exact CondVar.waiting_eq_empty_of_notifyOne hn hw
  | record =>
      cases hb
      exact ⟨⟨first, ho, hu'⟩, h.handled, hcount, h.released rfl⟩

end Calls

section Frame
variable {client : Client S} {invoked : List (Invocation S)} {k : ℕ} {slot slot' : Slot}

/-- A completion is under way only for a snapshot which the client was asked for. -/
def Begun (invoked : List (Invocation S)) (k : ℕ) (slot slot' : Slot) : Prop :=
  slot'.completion ≠ .idle → (∃ path, slot.request = .snapshot path) ∧
    (slot.completion ≠ .idle ∨ ∃ e ∈ invoked, e.slot = k)

theorem Resting.quiet (h : Resting client invoked k slot) (hq : Quiet slot slot')
    (hb : Begun invoked k slot slot') : Resting client invoked k slot' where
  fresh := by
    intro hp
    have hf := h.fresh (hq.processed ▸ hp)
    refine hf.quiet hq ?_
    by_contra hne
    rcases (hb hne).2 with hc | ⟨e, he, hk⟩
    · exact hc hf.completion
    · exact hf.uncalled e he hk
  ended := by
    intro hp
    rcases h.ended (hq.processed ▸ hp) with ⟨path, hpath⟩ | ho
    · exact .inl ⟨path, hq.request.trans hpath⟩
    · refine .inr (ho.quiet hq ?_)
      by_contra hne
      obtain ⟨path, hpath⟩ := (hb hne).1
      exact ho.ne_snapshot path hpath

theorem Engaged.quiet {worker : Worker} (h : Engaged client invoked k slot worker)
    (hq : Quiet slot slot') (hb : Begun invoked k slot slot') :
    Engaged client invoked k slot' worker := by
  cases worker with
  | invoke j cb | running j cb => exact Called.quiet h hq
  | replying j r =>
      refine Replying.quiet h hq ?_
      by_contra hne
      obtain ⟨path, hpath⟩ := (hb hne).1
      obtain ⟨first, ho, -⟩ := Replying.own h
      exact ho.ne_snapshot path hpath
  | unlock j =>
      refine Over.quiet h hq ?_
      by_contra hne
      obtain ⟨path, hpath⟩ := (hb hne).1
      exact Over.ne_snapshot h path hpath
  | _ => trivial

theorem quiet_owned (o : Option Actor) :
    Quiet slot { slot with base := { slot.base with owned := o } } := by
  constructor <;> simp

end Frame

/-- Everything the slots say about the worker's work so far. -/
structure Tracked (client : Client S) (s : State S ι) : Prop where
  own : ∀ e ∈ s.invoked, e.slot < s.next ∧
    e.callback = (s.slots e.slot).request.callback client e.slot
  completion : ∀ k, (s.slots k).completion ≠ .idle →
    ∃ path, (s.slots k).request = .snapshot path
  waiting : ∀ k, ∀ a ∈ (s.slots k).base.retCond.waiting, a = .raft
  engaged : ∀ k, s.worker.engaged = some k → Engaged client s.invoked k (s.slots k) s.worker
  resting : ∀ k, s.worker.engaged ≠ some k → Resting client s.invoked k (s.slots k)
  calling : ∀ k cb, s.worker = .running k cb → ⟨k, s.fsm, cb⟩ ∈ s.invoked

theorem tracked_initial (client : Client S) (fsm : S) :
    Tracked client (initial fsm : State S ι) where
  own := by simp [initial]
  completion := by simp [initial, Slot.new]
  waiting := by simp [initial, Slot.new, BaseSlot.new, CondVar.empty]
  engaged := by simp [initial, Worker.engaged]
  resting := fun k _ => ⟨fun _ => ⟨rfl, rfl, rfl, by simp [initial]⟩, by simp [initial, Slot.new]⟩
  calling := by simp [initial]

section Tracked
variable [DecidableEq ι] {client : Client S} {s s' : State S ι} {a : Act ι}

omit [DecidableEq ι] in
theorem hand_of_engaged {k : ℕ} (h : s.worker.engaged = some k) : s.hand = some k := by
  cases hw : s.worker <;> simp_all [Worker.engaged, State.hand]

omit [DecidableEq ι] in
theorem Tracked.engaged_at (ht : Tracked client s) {worker : Worker} {k : ℕ}
    (hw : s.worker = worker) (hk : worker.engaged = some k) :
    Engaged client s.invoked k (s.slots k) worker := by
  subst hw
  exact ht.engaged k hk

/-- A slot which is being dispatched is as it was sent. -/
theorem Tracked.fresh_of_dispatch (ht : Tracked client s) (hw : Wired s) {tag : CallTag} {k : ℕ}
    (hwk : s.worker = .dispatch tag k) : Fresh s.invoked k (s.slots k) :=
  (ht.resting k (by simp [hwk, Worker.engaged])).fresh (hw.hand k (by simp [State.hand, hwk])).2

/-- A step of the worker on slot `j`. -/
theorem Tracked.keep (ht : Tracked client s) (h : Trans client s a s') {j : ℕ}
    (hother : ∀ k, k ≠ j → s'.slots k = s.slots k ∧ s.worker.engaged ≠ some k ∧
      s'.worker.engaged ≠ some k)
    (hinv : s'.invoked = s.invoked)
    (hcomp : (s'.slots j).completion = (s.slots j).completion)
    (hreq : (s'.slots j).request = (s.slots j).request)
    (hwait : (s'.slots j).base.retCond.waiting ⊆ (s.slots j).base.retCond.waiting)
    (heng : s'.worker.engaged = some j → Engaged client s.invoked j (s'.slots j) s'.worker)
    (hrest : s'.worker.engaged ≠ some j → Resting client s.invoked j (s'.slots j))
    (hcall : ∀ k cb, s'.worker ≠ .running k cb) : Tracked client s' where
  own := by
    intro e he
    rw [hinv] at he
    obtain ⟨hlt, hcb⟩ := ht.own e he
    exact ⟨hlt.trans_le (next_le_of_trans h), by rw [request_of_trans h hlt, hcb]⟩
  completion := by
    intro k hk
    by_cases hkj : k = j
    · subst hkj
      rw [hreq]
      exact ht.completion k (hcomp ▸ hk)
    · rw [(hother k hkj).1] at hk ⊢
      exact ht.completion k hk
  waiting := by
    intro k b hb
    by_cases hkj : k = j
    · subst hkj
      exact ht.waiting k b (hwait hb)
    · exact ht.waiting k b ((hother k hkj).1 ▸ hb)
  engaged := by
    intro k hk
    by_cases hkj : k = j
    · subst hkj
      exact hinv ▸ heng hk
    · exact absurd hk (hother k hkj).2.2
  resting := by
    intro k hk
    by_cases hkj : k = j
    · subst hkj
      exact hinv ▸ hrest hk
    · obtain ⟨hs, hn, -⟩ := hother k hkj
      rw [hs, hinv]
      exact ht.resting k hn
  calling := fun k cb hk => absurd hk (hcall k cb)

theorem Tracked.send (ht : Tracked client s) (hw : Wired s) {req : Request}
    {q : ArrayBlockingQueue.State (CallTag × ℕ) (Option ι)} :
    Tracked client { s with queue := q, slots := Function.update s.slots s.next (.new req)
                            next := s.next + 1 } := by
  have hnew : (Slot.new req).base.retCond.waiting = ∅ := rfl
  refine ⟨fun e he => ?_, fun k hk => ?_, fun k b hb => ?_, fun k hk => ?_, fun k hk => ?_,
    ht.calling⟩
  · obtain ⟨hlt, hcb⟩ := ht.own e he
    exact ⟨Nat.lt_succ_of_lt hlt, by simpa [hlt.ne] using hcb⟩
  · by_cases hkn : k = s.next
    · subst hkn
      simp [Slot.new] at hk
    · simpa [hkn] using ht.completion k (by simpa [hkn] using hk)
  · by_cases hkn : k = s.next
    · subst hkn
      simp [hnew] at hb
    · exact ht.waiting k b (by simpa [hkn] using hb)
  · have hlt : k < s.next := hw.lt_of_delivered (hw.hand k (hand_of_engaged hk)).1
    simpa [hlt.ne] using ht.engaged k hk
  · by_cases hkn : k = s.next
    · subst hkn
      simp only [Function.update_self]
      exact ⟨fun _ => ⟨rfl, rfl, rfl, fun e he => (ht.own e he).1.ne⟩, by simp [Slot.new]⟩
    · simpa [hkn] using ht.resting k hk

omit [DecidableEq ι] in
theorem Tracked.other (ht : Tracked client s) {k : ℕ} {slot : Slot}
    (hq : Quiet (s.slots k) slot)
    (hc : slot.completion ≠ .idle → (s.slots k).completion ≠ .idle ∨
      ∃ e ∈ s.invoked, e.slot = k ∧ ∃ path req, e.callback = .beginSnapshot path req) :
    Tracked client (s.setSlot k slot) := by
  have hb : Begun s.invoked k (s.slots k) slot := by
    intro hne
    rcases hc hne with hold | ⟨e, he, rfl, path, req, hcb⟩
    · exact ⟨ht.completion k hold, .inl hold⟩
    · refine ⟨?_, .inr ⟨e, he, rfl⟩⟩
      have hown := (ht.own e he).2
      cases hr : (s.slots e.slot).request with
      | snapshot path => exact ⟨path, rfl⟩
      | _ => simp [hr, hcb, Request.callback] at hown
  have hreq (j : ℕ) : ((s.setSlot k slot).slots j).request = (s.slots j).request := by
    by_cases hjk : j = k
    · subst hjk
      simpa using hq.request
    · simp [hjk]
  refine ⟨fun e he => ?_, fun j hj => ?_, fun j b hjb => ?_, fun j hj => ?_, fun j hj => ?_,
    ht.calling⟩
  · rw [hreq]
    exact ht.own e he
  · rw [hreq]
    by_cases hjk : j = k
    · subst hjk
      exact (hb (by simpa using hj)).1
    · exact ht.completion j (by simpa [hjk] using hj)
  · by_cases hjk : j = k
    · subst hjk
      exact hq.waiting (ht.waiting j) b (by simpa using hjb)
    · exact ht.waiting j b (by simpa [hjk] using hjb)
  · by_cases hjk : j = k
    · subst hjk
      simpa using (ht.engaged j hj).quiet hq hb
    · simpa [hjk] using ht.engaged j hj
  · by_cases hjk : j = k
    · subst hjk
      simpa using (ht.resting j hj).quiet hq hb
    · simpa [hjk] using ht.resting j hj

/-- The call of the client's function. -/
theorem Tracked.invoke (ht : Tracked client s) (hw : Wired s) {k : ℕ} {cb : Callback}
    (hwk : s.worker = .invoke k cb) :
    Tracked client
      { s with invoked := s.invoked ++ [⟨k, s.fsm, cb⟩], worker := .running k cb } := by
  have heng : s.worker.engaged = some k := by simp [hwk, Worker.engaged]
  have hcalled : Called client k (s.slots k) cb :=
    ht.engaged_at hwk rfl
  refine ⟨fun e he => ?_, ht.completion, ht.waiting, fun j hj => ?_, fun j hj => ?_,
    fun j cb' hj => ?_⟩
  · rcases List.mem_append.mp he with he | he
    · exact ht.own e he
    · obtain rfl := List.mem_singleton.mp he
      exact ⟨hw.lt_of_delivered (hw.hand k (hand_of_engaged heng)).1, hcalled.own⟩
  · obtain rfl : k = j := by simpa [Worker.engaged] using hj
    exact hcalled
  · have hjk : k ≠ j := by simpa [Worker.engaged] using hj
    exact (ht.resting j (by simpa [heng] using hjk)).mono hjk
  · obtain ⟨rfl, rfl⟩ : k = j ∧ cb = cb' := by simpa using hj
    exact List.mem_append_right _ (List.mem_singleton_self _)

theorem Tracked.trans (ht : Tracked client s) (hw : Wired s) (h : Trans client s a s') :
    Tracked client s' := by
  have htr := h
  have hidle {k slot} (hc : slot.completion = (s.slots k).completion) :
      Begun s.invoked k (s.slots k) slot :=
    fun hne => ⟨ht.completion k (hc ▸ hne), .inl (hc ▸ hne)⟩
  cases h with
  | send hs => exact ht.send hw
  | queue ha hs => exact ⟨ht.own, ht.completion, ht.waiting, ht.engaged, ht.resting, ht.calling⟩
  | taken hwk hp =>
      exact ⟨ht.own, ht.completion, ht.waiting, by simp [Worker.engaged],
        fun k _ => ht.resting k (by simp [hwk, Worker.engaged]), by simp⟩
  | closed hwk hp =>
      exact ⟨ht.own, ht.completion, ht.waiting, by simp [Worker.engaged],
        fun k _ => ht.resting k (by simp [hwk, Worker.engaged]), by simp⟩
  | @lock w tag k hwk ho =>
      refine ht.keep htr (j := k) (fun j hj => by simp [hj, hwk, Worker.engaged]) rfl
        (by simp) (by simp) (by simp) (by simp [Worker.engaged]) (fun _ => ?_) (by simp)
      have hr := ht.resting k (by simp [hwk, Worker.engaged])
      simpa using hr.quiet (quiet_owned (some .worker)) (hidle rfl)
  | @abort w tag k base hwk hbad hb =>
      have hq : Quiet (s.slots k) { s.slots k with base := base } := by
        rcases hb with rfl | rfl
        · exact quiet_owned (s.slots k).base.owned
        · exact quiet_owned none
      refine ht.keep htr (j := k) (fun j hj => by simp [hj, hwk, Worker.engaged]) rfl
        (by simp) (by simp) (by rcases hb with rfl | rfl <;> simp) (by simp [Worker.engaged])
        (fun _ => ?_) (by simp)
      have hr := ht.resting k (by simp [hwk, Worker.engaged])
      simpa using hr.quiet hq (hidle rfl)
  | @call w tag k base hwk hp hr hb hs =>
      have hfresh := ht.fresh_of_dispatch hw hwk
      refine ht.keep htr (j := k) (fun j hj => by simp [hj, hwk, Worker.engaged, Ne.symm hj]) rfl
        (by simp) (by simp) (by rw [hb]; simp) (fun _ => ?_) (by simp [Worker.engaged]) (by simp)
      exact ⟨by simp, by simpa using hr.not_skipped, fun _ => by simpa [hs] using hfresh.replies⟩
  | @skip w k log hwk hp hr htype =>
      have hfresh := ht.fresh_of_dispatch hw hwk
      refine ht.keep htr (j := k) (fun j hj => by simp [hwk, Worker.engaged, Ne.symm hj]) rfl
        rfl rfl subset_rfl (fun _ => .inl ?_) (by simp [Worker.engaged]) (by simp)
      exact ⟨⟨log, hr, htype⟩, hp, hfresh.replies⟩
  | invoke hwk => exact ht.invoke hw hwk
  | @returnReply w k cb fsm r hwk hr =>
      have hcalled : Called client k (s.slots k) cb := ht.engaged_at hwk rfl
      have howed : Owed client s.invoked k (s.slots k).request r :=
        ⟨_, ht.calling k cb hwk, rfl, hcalled.own, by simp [hr]⟩
      have hbefore : r.beforeStore = true ∧ r.Underway (s.slots k).base r := by
        cases cb with
        | apply index term logType data len =>
            obtain ⟨-, rfl⟩ : _ ∧ .retval _ = r := by simpa [Callback.run] using hr
            exact ⟨rfl, rfl⟩
        | beginSnapshot path req => simp [Callback.run] at hr
        | restore path =>
            obtain ⟨-, rfl⟩ : _ ∧ .error _ = r := by simpa [Callback.run] using hr
            exact ⟨rfl, .inl rfl⟩
      have hopen := hcalled.open_ <| by
        by_contra hne
        obtain ⟨path, hpath⟩ := ht.completion k hne
        exact howed.ne_snapshot path hpath
      refine ht.keep htr (j := k) (fun j hj => by simp [hwk, Worker.engaged, Ne.symm hj]) rfl
        rfl rfl subset_rfl (fun _ => ?_) (by simp [Worker.engaged]) (by simp)
      refine ⟨⟨r, howed, hbefore.2⟩, hcalled.handled, ?_, ?_⟩
      · simpa [hbefore.1] using hopen
      · rintro rfl
        simp [Reply.beforeStore] at hbefore
  | @returnQuiet w k cb fsm hwk hr =>
      have hcalled : Called client k (s.slots k) cb := ht.engaged_at hwk rfl
      have hsnap : ∃ path, (s.slots k).request = .snapshot path := by
        have hcb := hcalled.own
        cases hq : (s.slots k).request with
        | snapshot path => exact ⟨path, rfl⟩
        | _ => simp [hcb, hq, Request.callback, Callback.run] at hr
      refine ht.keep htr (j := k)
        (fun j hj => by simp [hj, hwk, Worker.engaged, Ne.symm hj]) rfl
        (by simp) (by simp) (by simp) (by simp [Worker.engaged]) (fun _ => ?_) (by simp)
      exact ⟨by simp, fun _ => .inl (by simpa using hsnap)⟩
  | @reply w k r slot r' hwk hr =>
      have hrep : Replying client s.invoked k (s.slots k) r := ht.engaged_at hwk rfl
      obtain ⟨⟨base, next⟩, hb, heq⟩ := Option.map_eq_some_iff.mp hr
      refine ht.keep htr (j := k)
        (fun j hj => by simp [hj, hwk, Worker.engaged, Ne.symm hj]) rfl
        (by simp [(request_of_reply hr).2.2]) (by simp [(request_of_reply hr).1]) ?_
        (fun _ => ?_) (by simp [Worker.engaged]) (by simp)
      · cases heq
        simpa using BaseSlot.waiting_subset_of_reply hb
      · simpa [Engaged] using hrep.step (ht.waiting k) hr
  | @replied w k r slot hwk hr =>
      have hrep : Replying client s.invoked k (s.slots k) r := ht.engaged_at hwk rfl
      obtain ⟨⟨base, next⟩, hb, heq⟩ := Option.map_eq_some_iff.mp hr
      refine ht.keep htr (j := k)
        (fun j hj => by simp [hj, hwk, Worker.engaged, Ne.symm hj]) rfl
        (by simp [(request_of_reply hr).2.2]) (by simp [(request_of_reply hr).1]) ?_
        (fun _ => .inr ?_) (by simp [Worker.engaged]) (by simp)
      · cases heq
        simpa using BaseSlot.waiting_subset_of_reply hb
      · simpa using hrep.step (ht.waiting k) hr
  | @unlock w k hwk =>
      have hover : Over client s.invoked k (s.slots k) := ht.engaged_at hwk rfl
      refine ht.keep htr (j := k)
        (fun j hj => by simp [hj, hwk, Worker.engaged, Ne.symm hj]) rfl
        (by simp) (by simp) (by simp) (by simp [Worker.engaged]) (fun _ => ?_) (by simp)
      refine ⟨by simp, fun _ => .inr ?_⟩
      rcases hover with ho | ho
      · exact .inl ⟨by simpa using ho.skipped, by simpa using ho.state, by simpa using ho.replies⟩
      · exact .inr ⟨by simpa [Reply.Finished, Reply.Stores] using ho.own,
          by simpa using ho.handled, by simpa using ho.replies, by simpa using ho.released⟩
  | other hq hc => exact ht.other hq hc

theorem tracked_of_reach {guard : State S ι → Act ι → State S ι → Prop} {fsm : S}
    (h : (system client fsm).Reach guard s) : Tracked client s := by
  refine h.invariant (tracked_initial client fsm) fun s a s' hs ht hstep _ => ?_
  exact ht.trans (wired_of_reach hs) (trans_of_step hstep)

/-- A processed FSMApply or FSMRestore has received exactly one reply, and no
Raft-side thread is left waiting for it, exactly if it is not a log entry of
another type than a command. -/
theorem fsm_call_answered_iff (client : Client S) (fsm : S)
    (h : (system client fsm).Reachable s) {k : ℕ} (hp : (s.slots k).processed = true)
    (hk : ∀ path, (s.slots k).request ≠ .snapshot path) :
    ((s.slots k).replies = 1 ∧ isTerminal (s.slots k).base.state = true ∧
        (s.slots k).base.retCond.waiting = ∅) ↔
      ∀ log, (s.slots k).request = .apply log → log.logType = .command := by
  have ht : Tracked client s := tracked_of_reach h
  have hne : s.worker.engaged ≠ some k := by
    intro heng
    have hfalse := ((wired_of_reach h).hand k (hand_of_engaged heng)).2
    simp [hfalse] at hp
  rcases (ht.resting k hne).ended hp with ⟨path, hpath⟩ | hun | han
  · exact absurd hpath (hk path)
  · obtain ⟨log, hlog, htype⟩ := hun.skipped
    constructor
    · rintro ⟨hr, -, -⟩
      simp [hun.replies] at hr
    · exact fun hall => absurd (hall log hlog) htype
  · obtain ⟨first, -, hf⟩ := han.own
    constructor
    · intro _ log hlog
      by_contra htype
      exact han.handled ⟨log, hlog, htype⟩
    · exact fun _ => ⟨han.replies, hf.isTerminal, han.released⟩

end Tracked

/-- A client which counts the commands it has applied. -/
def counter : Client ℕ where
  apply := fun n _ _ _ _ _ => (n + 1, n.toUInt64)
  beginSnapshot := fun n _ _ => n
  restore := fun _ _ => (0, 0)
  addressOf := fun handle => handle

/-- The Raft side sends one request; nobody else is in the queue. -/
def sendRun (req : Request) : List (Act Unit) :=
  [Act.send () req] ++ List.replicate 4 (Act.queue (.step (some ()) none)) ++
    [Act.queue (.leave (some ()))]

/-- The worker takes the next request and makes `n` steps with it. -/
def workerRun (n : ℕ) : List (Act Unit) :=
  [Act.queue (.call none .take)] ++ List.replicate 4 (Act.queue (.step none none)) ++
    List.replicate (n + 1) (Act.worker none)

theorem fsm_call_answered_restore :
    ∃ s : State ℕ Unit, (s.slots 0).request = .restore [115] ∧
      (s.slots 0).processed = true ∧ (s.slots 0).replies = 1 := by
  obtain ⟨s, hs, hr, hp⟩ := Scheduled.exists_reachable_of_run (system counter 0)
    (sendRun (.restore [115]) ++ workerRun 9)
    (fun s => (s.slots 0).request = .restore [115] ∧ (s.slots 0).processed = true) (by decide)
  exact ⟨s, hr, hp, ((fsm_call_answered_iff counter 0 hs hp (by simp [hr])).mpr (by simp [hr])).1⟩

/-- A log entry of type NOOP is processed without a reply, and the Raft-side
thread which sent it sleeps in `BaseSlot::wait`: not every processed call is
answered. -/
theorem noop_unanswered :
    ¬ ∀ s : State ℕ Unit, (system counter 0).Reachable s → ∀ k,
      (s.slots k).processed = true → (∀ path, (s.slots k).request ≠ .snapshot path) →
      (s.slots k).replies = 1 ∧ isTerminal (s.slots k).base.state = true ∧
        (s.slots k).base.retCond.waiting = ∅ := by
  intro hall
  obtain ⟨s, hs, hr, hp, hz, -, -⟩ := Scheduled.exists_reachable_of_run (system counter 0)
    (sendRun (.apply ⟨1, 1, .noop, 64, 8⟩) ++ workerRun 3 ++
      [Act.wait 0, .waitStep 0, .waitStep 0])
    (fun s => (s.slots 0).request = .apply ⟨1, 1, .noop, 64, 8⟩ ∧
      (s.slots 0).processed = true ∧ (s.slots 0).replies = 0 ∧
      (s.slots 0).base.state = .pending ∧ .raft ∈ (s.slots 0).base.retCond.waiting) (by decide)
  have h := (hall s hs 0 hp (by simp [hr])).1
  simp [hz] at h

end Libraft.Fsm
