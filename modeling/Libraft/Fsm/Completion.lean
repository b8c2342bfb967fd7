import Libraft.Fsm.Answering

/-!
# The completion of a snapshot, seen from its slot

The worker lets go of a snapshot request before it calls the client, and never
writes to its slot. So only `raft_fsm_snapshot_complete` answers it, and a
completion which has begun goes through its statements and ends with the
answer it was called with. Whoever has locked a slot stands behind the place
where it did so.
-/

namespace Libraft.Fsm

open Libraft.Foundation Libraft.Calls
open Libraft.Queue

/-- The first statement of the reply made by `raft_fsm_snapshot_complete`. -/
def completionReply (success : Bool) : Reply := .error (if success then .success else .other)

/-- The completion which was called with `success` stands where the slot says. -/
def Slot.Completing (slot : Slot) (success : Bool) : Prop :=
  match slot.completion with
  | .idle => False
  | .lock b => b = success ∧ slot.base.state = .pending ∧ slot.replies = 0
  | .replying r => (completionReply success).Underway slot.base r ∧
      isTerminal slot.base.state = !r.beforeStore ∧ slot.replies = if r.beforeStore then 0 else 1
  | .unlock | .returned => (completionReply success).Finished slot.base ∧ slot.replies = 1

/-- What a step which is not part of the completion leaves alone. -/
structure Slot.Unanswering (slot slot' : Slot) : Prop where
  request : slot'.request = slot.request
  completion : slot'.completion = slot.completion
  state : slot'.base.state = slot.base.state
  error : slot'.base.error = slot.base.error
  retval : slot'.base.retval = slot.base.retval
  replies : slot'.replies = slot.replies

section Completing
variable {slot slot' : Slot} {success : Bool}

theorem Slot.Unanswering.refl (slot : Slot) : slot.Unanswering slot := by
  constructor <;> rfl

theorem Slot.Unanswering.completing (h : slot.Unanswering slot') (hc : slot.Completing success) :
    slot'.Completing success := by
  unfold Slot.Completing at hc ⊢
  rw [h.completion]
  split at hc
  case h_1 => exact hc
  case h_2 => rwa [h.state, h.replies]
  case h_3 r hr =>
      obtain ⟨hu, hcount⟩ := hc
      refine ⟨?_, by rwa [h.state, h.replies]⟩
      cases r <;> simp only [Reply.Underway, Reply.Stores] at hu ⊢ <;>
        simpa only [h.state, h.error, h.retval] using hu
  case h_4 | h_5 =>
      simpa only [Reply.Finished, Reply.Stores, h.state, h.error, h.retval, h.replies] using hc

/-- One statement of the completion. -/
theorem Slot.Completing.step {w : Option Actor} (h : slot.Completing success)
    (hs : slot.complete w = some slot') : slot'.Completing success := by
  unfold Slot.complete at hs
  split at hs
  case h_1 | h_2 => cases hs
  case h_3 b hb =>
      split at hs <;> cases hs
      simp only [Slot.Completing, hb] at h
      obtain ⟨rfl, hp, hr⟩ := h
      exact ⟨.inl rfl, by simp [hp, isTerminal, Reply.beforeStore], by simp [hr, Reply.beforeStore]⟩
  case h_4 r hr =>
      simp only [Slot.Completing, hr] at h
      obtain ⟨hu, hterm, hcount⟩ := h
      obtain ⟨⟨slot₁, next⟩, h₁, rfl⟩ := Option.map_eq_some_iff.mp hs
      obtain ⟨⟨base, next'⟩, hb, heq⟩ := Option.map_eq_some_iff.mp h₁
      cases heq
      have hu' := hu.step hb
      cases r with
      | retval val | error err =>
          cases hb
          exact ⟨hu', hterm, hcount⟩
      | state err =>
          simp only [BaseSlot.reply] at hb
          split at hb <;> cases hb
          exact ⟨hu', by simp [Reply.beforeStore], by simpa [Reply.beforeStore] using hcount⟩
      | notify =>
          obtain ⟨c, hn, hc⟩ := Option.map_eq_some_iff.mp hb
          cases hc
          exact ⟨hu', hterm, hcount⟩
      | record =>
          cases hb
          exact ⟨hu', hcount⟩
  case h_5 hc =>
      cases hs
      simpa only [Slot.Completing, hc, Reply.Finished, Reply.Stores] using h

/-- A completion replies once, and its assertion holds. -/
theorem Slot.Completing.replies_le (h : slot.Completing success) : slot.replies ≤ 1 := by
  unfold Slot.Completing at h
  split at h
  case h_1 => exact h.elim
  case h_2 => omega
  case h_3 r hr =>
      obtain ⟨-, -, hcount⟩ := h
      split at hcount <;> omega
  case h_4 | h_5 => omega

end Completing

section Step
variable {S ι : Type*} {client : Client S} {s s' : State S ι} {k : ℕ} {path : List UInt8}

theorem unanswering_update {j : ℕ} {slot : Slot}
    (hj : j = k → (s.slots k).Unanswering slot) :
    (s.slots k).Unanswering (Function.update s.slots j slot k) := by
  by_cases hjk : k = j
  · subst hjk
    simpa using hj rfl
  · rw [Function.update_of_ne hjk]
    exact .refl _

/-- The worker's switch writes to the slot of an FSMApply only. -/
theorem unanswering_dispatch (hk : (s.slots k).request = .snapshot path) (tag : CallTag) (j : ℕ) :
    (s.slots k).Unanswering ((dispatch client s tag j).slots k) := by
  unfold dispatch
  split
  case isFalse => exact .refl _
  case isTrue =>
      split
      case h_1 log hlog =>
          unfold dispatchFsmApply
          split
          case h_1 =>
              split
              · exact .refl _
              · refine unanswering_update (by rintro rfl; simp [hlog] at hk)
          all_goals exact .refl _
      case h_2 path' hpath =>
          unfold dispatchFsmSnapshot
          split <;> exact unanswering_update (by rintro rfl; constructor <;> rfl)
      case h_3 path' hpath =>
          unfold dispatchFsmRestore
          split <;> exact .refl _
      case h_4 => exact .refl _

variable [DecidableEq ι] {a : Act ι}

/-- The worker never answers a snapshot request. -/
theorem unanswering_workerStep (ht : Tracked client s) (hk : (s.slots k).request = .snapshot path)
    {w : Option Actor} (h : workerStep client s w = some s') :
    (s.slots k).Unanswering (s'.slots k) := by
  unfold workerStep at h
  split at h
  case h_1 =>
      split at h <;> cases h <;> exact .refl _
  case h_2 tag j hw =>
      split at h <;> cases h
      exact unanswering_update (by rintro rfl; constructor <;> rfl)
  case h_3 tag j hw =>
      cases h
      exact unanswering_dispatch hk tag j
  case h_4 =>
      cases h
      exact .refl _
  case h_5 j cb hw =>
      split at h <;> cases h
      · exact .refl _
      · exact unanswering_update (by rintro rfl; constructor <;> rfl)
  case h_6 j r hw =>
      obtain ⟨⟨slot, r'⟩, hr, rfl⟩ := Option.map_eq_some_iff.mp h
      refine unanswering_update ?_
      rintro rfl
      -- the worker replies to requests of the other kinds only
      have hrep : Replying client s.invoked j (s.slots j) r := ht.engaged_at hw rfl
      obtain ⟨first, ho, -⟩ := hrep.own
      exact absurd hk (ho.ne_snapshot path)
  case h_7 j hw =>
      cases h
      by_cases hjk : k = j
      · subst hjk
        constructor <;> simp
      · simpa [hjk] using Slot.Unanswering.refl (s.slots k)
  case h_8 | h_9 => cases h

theorem unanswering_wait {slot : Slot} {base : BaseSlot Actor} {pc : Wait} {pc' : Option Wait}
    (h : slot.base.wait .raft pc = some (base, pc')) :
    slot.Unanswering { slot with base := base, wait := pc' } := by
  cases pc with
  | lock | test | blocked =>
      simp only [BaseSlot.wait] at h
      split at h <;> cases h <;> constructor <;> rfl
  | observe | unlock =>
      cases h
      constructor <;> rfl

/-- What a step can do to the slot of a snapshot request. -/
theorem snapshot_of_step (ht : Tracked client s) (h : step client s a = some s')
    (hk : (s.slots k).request = .snapshot path) (hlt : k < s.next) :
    (s.slots k).Unanswering (s'.slots k) ∨
    (∃ b, a = .complete k b ∧ (s.slots k).completion = .idle ∧
      s'.slots k = { s.slots k with completion := .lock b }) ∨
    ∃ w, a = .completeStep k w ∧ (s.slots k).complete w = some (s'.slots k) := by
  cases a with
  | send t req =>
      obtain ⟨q, hq, rfl⟩ := Option.map_eq_some_iff.mp h
      refine .inl ?_
      change (s.slots k).Unanswering (Function.update s.slots s.next (.new req) k)
      rw [Function.update_of_ne hlt.ne]
      exact .refl _
  | queue a =>
      simp only [step] at h
      split at h
      · obtain ⟨q, hq, rfl⟩ := Option.map_eq_some_iff.mp h
        exact .inl (.refl _)
      · cases h
  | worker w => exact .inl (unanswering_workerStep ht hk h)
  | wait j =>
      simp only [step] at h
      split at h <;> cases h
      exact .inl (unanswering_update (by rintro rfl; constructor <;> rfl))
  | waitStep j =>
      obtain ⟨pc, hpc, hb⟩ := Option.bind_eq_some_iff.mp h
      obtain ⟨⟨base, pc'⟩, hw, rfl⟩ := Option.map_eq_some_iff.mp hb
      exact .inl (unanswering_update (by rintro rfl; exact unanswering_wait hw))
  | waitWake j =>
      simp only [step] at h
      split at h <;> cases h
      exact .inl (unanswering_update (by rintro rfl; constructor <;> rfl))
  | complete j b =>
      simp only [step] at h
      split at h <;> rename_i hc <;> cases h
      by_cases hjk : j = k
      · subst hjk
        exact .inr (.inl ⟨b, rfl, hc.2, by simp⟩)
      · exact .inl (unanswering_update fun hj => absurd hj hjk)
  | completeStep j w =>
      obtain ⟨slot, hs, rfl⟩ := Option.map_eq_some_iff.mp h
      by_cases hjk : j = k
      · subst hjk
        exact .inr (.inr ⟨w, rfl, by simpa using hs⟩)
      · exact .inl (unanswering_update fun hj => absurd hj hjk)

theorem completing_of_step (ht : Tracked client s) (h : step client s a = some s')
    (hk : (s.slots k).request = .snapshot path) (hlt : k < s.next) {success : Bool}
    (hc : (s.slots k).Completing success) : (s'.slots k).Completing success := by
  rcases snapshot_of_step ht h hk hlt with hu | ⟨b, -, hidle, -⟩ | ⟨w, -, hs⟩
  · exact hu.completing hc
  · simp [Slot.Completing, hidle] at hc
  · exact hc.step hs

/-- A slot which was not there before is a new one. -/
theorem slot_new_of_step (h : step client s a = some s') (hlt : k < s'.next)
    (hge : ¬ k < s.next) : ∃ req, s'.slots k = .new req := by
  cases trans_of_step h with
  | @send t req q hs =>
      obtain rfl : k = s.next := by
        change k < s.next + 1 at hlt
        omega
      exact ⟨req, by simp⟩
  | _ => exact absurd hlt hge

/-- A snapshot request waits for its completion, or has one under way. -/
theorem snapshot_cases {fsm : S} (h : (system client fsm).Reachable s) (hlt : k < s.next)
    (hk : (s.slots k).request = .snapshot path) :
    ((s.slots k).completion = .idle ∧ (s.slots k).base.state = .pending ∧
      (s.slots k).replies = 0) ∨ ∃ success, (s.slots k).Completing success := by
  refine Scheduled.Reach.invariant
    (I := fun s : State S ι => ∀ k path, k < s.next → (s.slots k).request = .snapshot path →
      ((s.slots k).completion = .idle ∧ (s.slots k).base.state = .pending ∧
        (s.slots k).replies = 0) ∨ ∃ success, (s.slots k).Completing success)
    h (fun k _ hk => absurd hk (Nat.not_lt_zero k)) ?_ k path hlt hk
  intro s a s' hs ih hstep _ k path hlt hk
  by_cases hold : k < s.next
  · have hreq := request_of_trans (trans_of_step hstep) hold
    have ht : Tracked client s := tracked_of_reach hs
    rw [hreq] at hk
    rcases ih k path hold hk with ⟨hidle, hp, hr⟩ | ⟨success, hc⟩
    · rcases snapshot_of_step ht hstep hk hold with hu | ⟨b, -, -, hslot⟩ | ⟨w, -, hcomp⟩
      · exact .inl ⟨hu.completion.trans hidle, hu.state.trans hp, hu.replies.trans hr⟩
      · exact .inr ⟨b, by simp [hslot, Slot.Completing, hp, hr]⟩
      · simp [Slot.complete, hidle] at hcomp
    · exact .inr ⟨success, completing_of_step ht hstep hk hold hc⟩
  · obtain ⟨req, hnew⟩ := slot_new_of_step hstep hlt hold
    rw [hnew]
    exact .inl ⟨rfl, rfl, rfl⟩

end Step

section Once
variable {S ι : Type*} [DecidableEq ι] {client : Client S} {s s' : State S ι} {a : Act ι}

/-- The client is called at most once for each slot. -/
structure Once (s : State S ι) : Prop where
  nodup : (s.invoked.map Invocation.slot).Nodup
  uncalled : ∀ k cb, s.worker = .invoke k cb → ∀ e ∈ s.invoked, e.slot ≠ k

theorem Once.trans (h : Once s) (ht : Tracked client s) (hw : Wired s)
    (htr : Trans client s a s') : Once s' := by
  cases htr with
  | @call w tag k base hwk hp hr hb hs =>
      have hfresh := ht.fresh_of_dispatch hw hwk
      refine ⟨h.nodup, fun j cb hj => ?_⟩
      obtain ⟨rfl, -⟩ : k = j ∧ _ := by simpa using hj
      exact hfresh.uncalled
  | @invoke w k cb hwk =>
      refine ⟨?_, by simp⟩
      have hnew : k ∉ s.invoked.map Invocation.slot := by
        rintro hmem
        obtain ⟨e, he, rfl⟩ := List.mem_map.mp hmem
        exact h.uncalled _ cb hwk e he rfl
      have hfresh : ∀ e ∈ s.invoked, e.slot ≠ k :=
        fun e he heq => hnew (List.mem_map.mpr ⟨e, he, heq⟩)
      simpa [List.nodup_append] using ⟨h.nodup, hfresh⟩
  | send hs | queue ha hs | other hq hc => exact ⟨h.nodup, h.uncalled⟩
  | _ => exact ⟨h.nodup, by simp⟩

theorem once_of_reachable {fsm : S} (h : (system client fsm).Reachable s) : Once s := by
  refine Scheduled.Reach.invariant (I := Once) h ⟨List.nodup_nil, by simp [system, initial]⟩ ?_
  exact fun _ _ _ hs ho hstep _ =>
    ho.trans (tracked_of_reach hs) (wired_of_reach hs) (trans_of_step hstep)

omit [DecidableEq ι] in
/-- The worker's switch calls nobody. -/
theorem invoked_dispatch (tag : CallTag) (j : ℕ) :
    (dispatch client s tag j).invoked = s.invoked ∧
      ∀ k cb, (dispatch client s tag j).worker ≠ .running k cb := by
  unfold dispatch dispatchFsmApply dispatchFsmSnapshot dispatchFsmRestore
  repeat' split
  all_goals exact ⟨rfl, by simp⟩

/-- The client is called by one step of the worker, which touches no slot; no
other step of the worker ends inside the client. -/
theorem invoked_of_workerStep {w : Option Actor} (h : workerStep client s w = some s') :
    (∃ k cb, s.worker = .invoke k cb ∧ s'.slots = s.slots ∧
      s'.invoked = s.invoked ++ [⟨k, s.fsm, cb⟩] ∧ s'.worker = .running k cb) ∨
    (s'.invoked = s.invoked ∧ ∀ k cb, s'.worker ≠ .running k cb) := by
  unfold workerStep at h
  split at h
  case h_1 =>
      split at h <;> cases h <;> exact .inr ⟨rfl, by simp⟩
  case h_2 tag j hw =>
      split at h <;> cases h
      exact .inr ⟨rfl, by simp⟩
  case h_3 tag j hw =>
      cases h
      exact .inr (invoked_dispatch tag j)
  case h_4 j cb hw =>
      cases h
      exact .inl ⟨j, cb, hw, rfl, rfl, rfl⟩
  case h_5 j cb hw =>
      split at h <;> cases h <;> exact .inr ⟨rfl, by simp⟩
  case h_6 j r hw =>
      obtain ⟨⟨slot, r'⟩, hr, rfl⟩ := Option.map_eq_some_iff.mp h
      cases r' <;> exact .inr ⟨rfl, by simp⟩
  case h_7 j hw =>
      cases h
      exact .inr ⟨rfl, by simp⟩
  case h_8 | h_9 => cases h

/-- Nobody else calls the client or moves the worker. -/
theorem worker_of_step (h : step client s a = some s') (ha : ∀ w, a ≠ .worker w) :
    s'.invoked = s.invoked ∧ s'.worker = s.worker := by
  cases a with
  | worker w => exact absurd rfl (ha w)
  | _ =>
      cases trans_of_step h
      all_goals exact ⟨rfl, rfl⟩

/-- Who completes a snapshot has been asked for it. -/
theorem begun_of_completion {fsm : S} (h : (system client fsm).Reachable s) {k : ℕ}
    (hk : (s.slots k).completion ≠ .idle) : ∃ e ∈ s.invoked, e.slot = k := by
  refine Scheduled.Reach.invariant
    (I := fun s : State S ι => ∀ k, (s.slots k).completion ≠ .idle → ∃ e ∈ s.invoked, e.slot = k)
    h (by simp [system, initial, Slot.new]) ?_ k hk
  intro s a s' _ ih hstep _ k hk
  have hupd {j : ℕ} {slot : Slot} (hne : (Function.update s.slots j slot k).completion ≠ .idle)
      (hj : slot.completion ≠ .idle → ∃ e ∈ s.invoked, e.slot = j) :
      ∃ e ∈ s.invoked, e.slot = k := by
    by_cases hkj : k = j
    · subst hkj
      exact hj (by simpa using hne)
    · exact ih k (by simpa [hkj] using hne)
  cases trans_of_step hstep with
  | send hs => exact hupd hk (by simp [Slot.new])
  | @lock w tag j hwk ho => exact hupd hk (ih j)
  | @abort w tag j base hwk hbad hb => exact hupd hk (ih j)
  | @call w tag j base hwk hp hr hb hs => exact hupd hk (ih j)
  | @invoke w j cb hwk =>
      obtain ⟨e, he, hek⟩ := ih k hk
      exact ⟨e, List.mem_append_left _ he, hek⟩
  | @returnQuiet w j cb fsm hwk hr => exact hupd hk (ih j)
  | @reply w j r slot r' hwk hr =>
      exact hupd hk fun hne => ih j ((request_of_reply hr).2.2 ▸ hne)
  | @replied w j r slot hwk hr =>
      exact hupd hk fun hne => ih j ((request_of_reply hr).2.2 ▸ hne)
  | @unlock w j hwk =>
      refine ih k ?_
      by_cases hkj : k = j
      · subst hkj
        simpa using hk
      · simpa [hkj] using hk
  | @other a j slot hq hc =>
      refine hupd hk fun hne => ?_
      rcases hc hne with hold | ⟨e, he, hej, -⟩
      · exact ih j hold
      · exact ⟨e, he, hej⟩
  | _ => exact ih k hk

/-- A completion begins with its call only. -/
theorem idle_of_step {fsm : S} (h : (system client fsm).Reachable s)
    (hstep : step client s a = some s') {k : ℕ} (ha : ∀ b, a ≠ .complete k b) :
    (s'.slots k).completion = .idle ↔ (s.slots k).completion = .idle := by
  have ht : Tracked client s := tracked_of_reach h
  by_cases hk : ∃ e ∈ s.invoked, e.slot = k
  · obtain ⟨e, he, rfl⟩ := hk
    have hlt := (ht.own e he).1
    have hreq := request_of_trans (trans_of_step hstep) hlt
    by_cases hsnap : ∃ path, (s.slots e.slot).request = .snapshot path
    · obtain ⟨path, hpath⟩ := hsnap
      rcases snapshot_of_step ht hstep hpath hlt with hu | ⟨b, hb, -⟩ | ⟨w, -, hc⟩
      · rw [hu.completion]
      · exact absurd hb (ha b)
      · obtain ⟨hne, hq⟩ := quiet_complete hc
        exact iff_of_false (hq.started hne) hne
    · have ht' : Tracked client s' := tracked_of_reach (h.next hstep)
      have hold := mt (ht.completion e.slot) hsnap
      have hnew := mt (ht'.completion e.slot) (by rwa [hreq])
      exact iff_of_true (not_not.mp hnew) (not_not.mp hold)
  · have hidle : (s.slots k).completion = .idle := not_not.mp (mt (begun_of_completion h) hk)
    refine iff_of_true ?_ hidle
    have hsame (hinv : s'.invoked = s.invoked) : (s'.slots k).completion = .idle := by
      by_contra hne
      exact hk (hinv ▸ begun_of_completion (h.next hstep) hne)
    by_cases hw : ∃ w, a = .worker w
    · obtain ⟨w, rfl⟩ := hw
      rcases invoked_of_workerStep hstep with ⟨j, cb, -, hslots, -⟩ | ⟨hinv, -⟩
      · rw [hslots, hidle]
      · exact hsame hinv
    · exact hsame (worker_of_step hstep (not_exists.mp hw)).1

/-- A completion which has begun goes on to the answer it was called with. -/
theorem Slot.Completing.next {fsm : S} {k : ℕ} {success : Bool}
    (hc : (s.slots k).Completing success) (h : (system client fsm).Reachable s)
    (hstep : Fsm.step client s a = some s') : (s'.slots k).Completing success := by
  have hne : (s.slots k).completion ≠ .idle := by
    intro hidle
    simp [Slot.Completing, hidle] at hc
  have ht : Tracked client s := tracked_of_reach h
  obtain ⟨path, hpath⟩ := ht.completion k hne
  obtain ⟨e, he, rfl⟩ := begun_of_completion h hne
  exact completing_of_step ht hstep hpath (ht.own e he).1 hc

/-- The request handed to the client, if the callback is `begin_snapshot`. -/
def Invocation.request? (e : Invocation S) : Option ℕ :=
  match e.callback with
  | .beginSnapshot _ req => some req
  | _ => none

/-- The snapshot requests handed to the client. -/
def State.begun (s : State S ι) : List ℕ := s.invoked.filterMap Invocation.request?

omit [DecidableEq ι] in
/-- The client gets the request which was made. -/
theorem Tracked.slot_of_request (h : Tracked client s) {e : Invocation S} (he : e ∈ s.invoked)
    {req : ℕ} (hr : e.request? = some req) :
    e.slot = req ∧ ∃ path, (s.slots e.slot).request = .snapshot path := by
  have hown := (h.own e he).2
  unfold Invocation.request? at hr
  split at hr
  case h_1 path req' hcb =>
      cases hr
      rw [hcb] at hown
      cases hq : (s.slots e.slot).request with
      | snapshot path' =>
          rw [hq] at hown
          cases hown
          exact ⟨rfl, _, rfl⟩
      | _ => simp [hq, Request.callback] at hown
  case h_2 => cases hr

omit [DecidableEq ι] in
theorem Tracked.begun_sublist (h : Tracked client s) :
    s.begun.Sublist (s.invoked.map Invocation.slot) := by
  have hall : ∀ e ∈ s.invoked, ∀ req, e.request? = some req → e.slot = req :=
    fun e he req hr => (h.slot_of_request he hr).1
  unfold State.begun
  generalize s.invoked = invoked at hall
  induction invoked with
  | nil => exact .slnil
  | cons e rest ih =>
      have hrest := ih fun e' he' => hall e' (List.mem_cons_of_mem _ he')
      cases hr : e.request? with
      | none => simpa [hr] using hrest.cons e.slot
      | some req =>
          have hreq := hall e List.mem_cons_self req hr
          simpa [hr, hreq] using hrest

theorem nodup_begun {fsm : S} (h : (system client fsm).Reachable s) : s.begun.Nodup :=
  (once_of_reachable h).nodup.sublist (tracked_of_reach h : Tracked client s).begun_sublist

/-- A request handed to the client is a slot which holds a snapshot request. -/
theorem snapshot_of_begun {fsm : S} (h : (system client fsm).Reachable s) {k : ℕ}
    (hk : k ∈ s.begun) : k < s.next ∧ ∃ path, (s.slots k).request = .snapshot path := by
  have ht : Tracked client s := tracked_of_reach h
  obtain ⟨e, he, hr⟩ := List.mem_filterMap.mp hk
  obtain ⟨rfl, hpath⟩ := ht.slot_of_request he hr
  exact ⟨(ht.own e he).1, hpath⟩

/-- The call of `raft_fsm_snapshot_complete`. -/
theorem slots_of_complete {k : ℕ} {success : Bool}
    (h : step client s (.complete k success) = some s') :
    (s.slots k).completion = .idle ∧
      s' = s.setSlot k { s.slots k with completion := .lock success } := by
  simp only [step] at h
  split at h <;> rename_i hc <;> cases h
  exact ⟨hc.2, rfl⟩

/-- The completion of a request handed to the client begins with its call. -/
theorem completing_of_complete {fsm : S} (h : (system client fsm).Reachable s) {k : ℕ}
    {success : Bool} (hs : step client s (.complete k success) = some s') (hk : k ∈ s.begun) :
    (s'.slots k).Completing success := by
  obtain ⟨hidle, rfl⟩ := slots_of_complete hs
  obtain ⟨hlt, path, hpath⟩ := snapshot_of_begun h hk
  rcases snapshot_cases h hlt hpath with ⟨-, hp, hr⟩ | ⟨b, hc⟩
  · simp [Slot.Completing, hp, hr]
  · simp [Slot.Completing, hidle] at hc

/-- The client may complete a request which it was handed and has not completed. -/
theorem complete_enabled {fsm : S} (h : (system client fsm).Reachable s) {k : ℕ}
    (hk : k ∈ s.begun) (hidle : (s.slots k).completion = .idle) (success : Bool) :
    step client s (.complete k success) =
      some (s.setSlot k { s.slots k with completion := .lock success }) := by
  have ht : Tracked client s := tracked_of_reach h
  obtain ⟨e, he, hr⟩ := List.mem_filterMap.mp hk
  have hslot := (ht.slot_of_request he hr).1
  have hcb : e.callback matches .beginSnapshot _ _ := by
    unfold Invocation.request? at hr
    split at hr
    · simp_all
    · cases hr
  simp only [step]
  rw [if_pos ⟨⟨e, he, hslot, hcb⟩, hidle⟩]

end Once

section Held
variable {S ι : Type*}

/-- The positions of `wait` behind the acquisition of the mutex. -/
def waitHolds : Wait → Bool
  | .test | .observe | .unlock => true
  | .lock | .blocked => false

/-- The positions of a completion behind the acquisition of the mutex. -/
def Completion.holds : Completion → Bool
  | .replying _ | .unlock => true
  | .idle | .lock _ | .returned => false

/-- The positions of the worker in which the mutex of slot `k` may be its own. -/
def Worker.mayHold (k : ℕ) : Worker → Bool
  | .dispatch _ j | .replying j _ | .unlock j => j = k
  | .invoke _ (.beginSnapshot _ _) | .running _ (.beginSnapshot _ _) => false
  | .invoke j _ | .running j _ => j = k
  | .aborted => true
  | .take | .lock _ _ | .stopped => false

/-- The actor is behind the place where it locks slot `k`. -/
def State.MayHold (s : State S ι) (k : ℕ) : Actor → Prop
  | .worker => s.worker.mayHold k = true
  | .raft => ∃ pc, (s.slots k).wait = some pc ∧ waitHolds pc = true
  | .completer => (s.slots k).completion.holds = true

/-- Whoever has a slot locked stands behind the place where it locks it. -/
def Held (s : State S ι) : Prop := ∀ k a, (s.slots k).base.owned = some a → s.MayHold k a

variable {client : Client S} {s s' : State S ι}

/-- The worker moves, and the slots stay. -/
theorem Held.move (h : Held s) (hslots : s'.slots = s.slots)
    (hw : ∀ k, s.worker.mayHold k = true → s'.worker.mayHold k = true) : Held s' := by
  intro k a ha
  rw [hslots] at ha
  have hold := h k a ha
  cases a with
  | worker => exact hw k hold
  | raft | completer => simpa [State.MayHold, hslots] using hold

/-- One slot changes, and the worker may move. -/
theorem Held.update (h : Held s) {j : ℕ} {slot : Slot}
    (hslots : s'.slots = Function.update s.slots j slot)
    (hw : ∀ k, k ≠ j → s.worker.mayHold k = true → s'.worker.mayHold k = true)
    (hj : ∀ a, slot.base.owned = some a → s'.MayHold j a) : Held s' := by
  intro k a ha
  rw [hslots] at ha
  by_cases hkj : k = j
  · subst hkj
    exact hj a (by simpa using ha)
  · rw [Function.update_of_ne hkj] at ha
    have hold := h k a ha
    cases a with
    | worker => exact hw k hkj hold
    | raft | completer => simpa [State.MayHold, hslots, hkj] using hold

/-- A slot changes, and its owner stays or goes. -/
theorem Held.keep (h : Held s) {j : ℕ} {slot : Slot}
    (hslots : s'.slots = Function.update s.slots j slot)
    (hw : ∀ k, s.worker.mayHold k = true → s'.worker.mayHold k = true)
    (ho : slot.base.owned = (s.slots j).base.owned ∨ slot.base.owned = none)
    (hwait : slot.wait = (s.slots j).wait) (hc : slot.completion = (s.slots j).completion) :
    Held s' := by
  refine h.update hslots (fun k _ => hw k) fun a ha => ?_
  rcases ho with ho | ho
  · have hold := h j a (ho ▸ ha)
    cases a with
    | worker => exact hw j hold
    | raft | completer => simpa [State.MayHold, hslots, hwait, hc] using hold
  · simp [ho] at ha

theorem held_dispatch (h : Held s) {tag : CallTag} {j : ℕ} (hw : s.worker = .dispatch tag j) :
    Held (dispatch client s tag j) := by
  have hmay {k : ℕ} (hk : s.worker.mayHold k = true) : j = k := by
    simpa [hw, Worker.mayHold] using hk
  have habort : Held (s.goto .aborted) := h.move rfl fun _ _ => rfl
  have hstay {worker : Worker} (hworker : worker.mayHold j = true) : Held (s.goto worker) :=
    h.move rfl fun k hk => hmay hk ▸ hworker
  unfold dispatch
  split
  case isFalse => exact habort
  case isTrue =>
      split
      case h_1 log hlog =>
          unfold dispatchFsmApply
          split
          case h_1 =>
              split
              · exact habort
              · refine h.keep rfl (fun k hk => ?_) (.inl rfl) rfl rfl
                simpa [Worker.mayHold] using hmay hk
          all_goals exact hstay (by simp [Worker.mayHold])
      case h_2 path' hpath =>
          unfold dispatchFsmSnapshot
          split <;> refine h.update rfl (fun k hkj hk => absurd (hmay hk).symm hkj) (by simp)
      case h_3 path' hpath =>
          unfold dispatchFsmRestore
          split
          · exact habort
          · exact hstay (by simp [Worker.mayHold])
      case h_4 => exact habort

theorem Held.workerStep (h : Held s) [DecidableEq ι] {w : Option Actor}
    (hs : workerStep client s w = some s') : Held s' := by
  unfold Fsm.workerStep at hs
  split at hs
  case h_1 hw =>
      split at hs <;> cases hs <;> exact h.move rfl (by simp [hw, Worker.mayHold])
  case h_2 tag j hw =>
      split at hs <;> cases hs
      refine h.update rfl (by simp [hw, Worker.mayHold]) fun a ha => ?_
      obtain rfl : Actor.worker = a := by simpa using ha
      simp [State.MayHold, Worker.mayHold]
  case h_3 tag j hw =>
      cases hs
      exact held_dispatch h hw
  case h_4 j cb hw =>
      cases hs
      refine h.move rfl ?_
      cases cb <;> simp [hw, Worker.mayHold]
  case h_5 j cb hw =>
      split at hs <;> rename_i hr <;> cases hs
      · refine h.move rfl ?_
        cases cb with
        | apply index term logType data len => simp [hw, Worker.mayHold]
        | beginSnapshot path req => simp [hw, Worker.mayHold]
        | restore path => simp [hw, Worker.mayHold]
      · refine h.keep rfl ?_ (.inl rfl) rfl rfl
        cases cb with
        | beginSnapshot path req => simp [hw, Worker.mayHold]
        | _ => simp [Callback.run] at hr
  case h_6 j r hw =>
      obtain ⟨⟨slot, r'⟩, hr, rfl⟩ := Option.map_eq_some_iff.mp hs
      obtain ⟨⟨base, next⟩, hb, heq⟩ := Option.map_eq_some_iff.mp hr
      cases heq
      refine h.keep rfl ?_ (.inl (BaseSlot.frame_of_reply hb).1) rfl rfl
      cases r' <;> simp [hw, Worker.mayHold]
  case h_7 j hw =>
      cases hs
      have hfree : Held ((s.setBase j { (s.slots j).base with owned := none }).goto .take) := by
        refine h.update rfl (fun k hkj hk => ?_) (by simp)
        rw [hw] at hk
        exact absurd (of_decide_eq_true hk).symm hkj
      exact hfree.keep rfl (fun _ => id) (.inl rfl) rfl rfl
  case h_8 | h_9 => cases hs

/-- A step of `wait` acquires or releases the mutex, or keeps it. -/
theorem Held.waitStep (h : Held s) {j : ℕ} {base : BaseSlot Actor} {pc : Wait}
    {pc' : Option Wait} (hwait : (s.slots j).wait = some pc)
    (hs : (s.slots j).base.wait .raft pc = some (base, pc')) :
    Held (s.setSlot j { s.slots j with base := base, wait := pc' }) := by
  refine h.update rfl (fun _ _ => id) fun a ha => ?_
  have hkeep (hpc : waitHolds pc = true → ∃ q, pc' = some q ∧ waitHolds q = true)
      (ho : (s.slots j).base.owned = some a) :
      (s.setSlot j { s.slots j with base := base, wait := pc' }).MayHold j a := by
    have hold := h j a ho
    cases a with
    | worker => exact hold
    | completer => simpa [State.MayHold] using hold
    | raft =>
        obtain ⟨q, hq, hholds⟩ := hold
        cases hwait.symm.trans hq
        simpa [State.MayHold] using hpc hholds
  cases pc with
  | lock | blocked =>
      simp only [BaseSlot.wait] at hs
      split at hs <;> cases hs
      obtain rfl : Actor.raft = a := by simpa using ha
      simp [State.MayHold, waitHolds]
  | test =>
      simp only [BaseSlot.wait] at hs
      split at hs <;> cases hs
      · exact hkeep (fun _ => ⟨.observe, rfl, rfl⟩) ha
      · simp at ha
  | observe =>
      cases hs
      exact hkeep (fun _ => ⟨.unlock, rfl, rfl⟩) ha
  | unlock =>
      cases hs
      simp at ha

/-- A step of a completion acquires or releases the mutex, or keeps it. -/
theorem Held.completeStep (h : Held s) {j : ℕ} {slot : Slot} {w : Option Actor}
    (hs : (s.slots j).complete w = some slot) : Held (s.setSlot j slot) := by
  refine h.update rfl (fun _ _ => id) fun a ha => ?_
  unfold Slot.complete at hs
  split at hs
  case h_1 | h_2 => cases hs
  case h_3 b hb =>
      split at hs <;> cases hs
      obtain rfl : Actor.completer = a := by simpa using ha
      simp [State.MayHold, Completion.holds]
  case h_4 r hr =>
      obtain ⟨⟨slot₁, next⟩, h₁, rfl⟩ := Option.map_eq_some_iff.mp hs
      obtain ⟨⟨base, next'⟩, hb, heq⟩ := Option.map_eq_some_iff.mp h₁
      cases heq
      have hold := h j a ((BaseSlot.frame_of_reply hb).1 ▸ ha)
      cases a with
      | worker => exact hold
      | raft => simpa [State.MayHold] using hold
      | completer => cases next <;> simp [State.MayHold, Completion.holds]
  case h_5 hc =>
      cases hs
      simp at ha

theorem Held.step [DecidableEq ι] {a : Act ι} (h : Held s) (hs : step client s a = some s') :
    Held s' := by
  cases a with
  | send t req =>
      obtain ⟨q, hq, rfl⟩ := Option.map_eq_some_iff.mp hs
      exact h.update rfl (fun _ _ => id) (by simp [Slot.new, BaseSlot.new])
  | queue a =>
      simp only [Fsm.step] at hs
      split at hs
      · obtain ⟨q, hq, rfl⟩ := Option.map_eq_some_iff.mp hs
        exact h.move rfl fun _ => id
      · cases hs
  | worker w => exact h.workerStep hs
  | wait j =>
      simp only [Fsm.step] at hs
      split at hs <;> rename_i hc <;> cases hs
      have hnone := Option.isNone_iff_eq_none.mp hc.2
      refine h.update rfl (fun _ _ => id) fun a ha => ?_
      have hold := h j a ha
      cases a with
      | worker => exact hold
      | completer => simpa [State.MayHold] using hold
      | raft => simp [State.MayHold, hnone] at hold
  | waitStep j =>
      obtain ⟨pc, hpc, hb⟩ := Option.bind_eq_some_iff.mp hs
      obtain ⟨⟨base, pc'⟩, hw, rfl⟩ := Option.map_eq_some_iff.mp hb
      exact h.waitStep hpc hw
  | waitWake j =>
      simp only [Fsm.step] at hs
      split at hs <;> cases hs
      exact h.keep rfl (fun _ => id) (.inl rfl) rfl rfl
  | complete j b =>
      simp only [Fsm.step] at hs
      split at hs <;> rename_i hc <;> cases hs
      refine h.update rfl (fun _ _ => id) fun a ha => ?_
      have hold := h j a ha
      cases a with
      | worker => exact hold
      | raft => simpa [State.MayHold] using hold
      | completer => simp [State.MayHold, hc.2, Completion.holds] at hold
  | completeStep j w =>
      obtain ⟨slot, hslot, rfl⟩ := Option.map_eq_some_iff.mp hs
      exact h.completeStep hslot

theorem held_of_reachable [DecidableEq ι] {fsm : S} (h : (system client fsm).Reachable s) :
    Held s := by
  refine Scheduled.Reach.invariant (I := Held) h ?_ fun _ _ _ _ hh hs _ => hh.step hs
  intro k a ha
  simp [system, initial, Slot.new, BaseSlot.new] at ha

end Held

end Libraft.Fsm
