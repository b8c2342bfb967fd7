import Libraft.Fsm.Worker

/-!
# What one step of the FSM worker and its surroundings can do

`Trans` lists the transitions. The steps which other threads take on a slot,
waiting for it and completing a snapshot, are collected in one constructor:
`Quiet` says what they leave alone. `Wired` relates the worker's position and
its slots to the queue.
-/

namespace Libraft.Fsm

open Libraft.Foundation Libraft.Calls
open Libraft.Queue

/-- What a step of a waiting Raft-side thread, or of the completion of a
snapshot, leaves alone in a slot. -/
structure Quiet (slot slot' : Slot) : Prop where
  request : slot'.request = slot.request
  processed : slot'.processed = slot.processed
  started : slot.completion ≠ .idle → slot'.completion ≠ .idle
  waiting : (∀ a ∈ slot.base.retCond.waiting, a = .raft) →
    ∀ a ∈ slot'.base.retCond.waiting, a = .raft
  state : slot'.completion = .idle → slot'.base.state = slot.base.state
  retval : slot'.completion = .idle → slot'.base.retval = slot.base.retval
  error : slot'.completion = .idle → slot'.base.error = slot.base.error
  replies : slot'.completion = .idle → slot'.replies = slot.replies
  released : slot'.completion = .idle → isTerminal slot.base.state = true →
    slot.base.retCond.waiting = ∅ → slot'.base.retCond.waiting = ∅

theorem quiet_wait {slot : Slot} {base : BaseSlot Actor} {pc : Wait} {pc' : Option Wait}
    (h : slot.base.wait .raft pc = some (base, pc')) :
    Quiet slot { slot with base := base, wait := pc' } := by
  cases pc with
  | lock =>
      simp only [BaseSlot.wait] at h
      split at h <;> cases h
      constructor <;> simp
  | test =>
      simp only [BaseSlot.wait] at h
      split at h <;> cases h
      · constructor <;> simp
      · rename_i ht
        constructor <;> simp [ht, CondVar.wait]
  | blocked =>
      simp only [BaseSlot.wait] at h
      split at h <;> cases h
      constructor <;> simp [CondVar.resume]
  | observe =>
      cases h
      constructor <;> simp
  | unlock =>
      cases h
      constructor <;> simp

theorem quiet_wake {slot : Slot} :
    Quiet slot { slot with
      base := { slot.base with retCond := slot.base.retCond.wake .raft } } where
  request := rfl
  processed := rfl
  started := id
  waiting := fun h a ha => h a (Finset.mem_of_mem_erase ha)
  state := fun _ => rfl
  retval := fun _ => rfl
  error := fun _ => rfl
  replies := fun _ => rfl
  released := fun _ _ h => by simp [CondVar.wake, h]

theorem quiet_complete {slot slot' : Slot} {w : Option Actor}
    (h : slot.complete w = some slot') :
    slot.completion ≠ .idle ∧ Quiet slot slot' := by
  unfold Slot.complete at h
  split at h
  case h_1 => cases h
  case h_2 => cases h
  case h_3 success hc =>
      split at h <;> cases h
      exact ⟨by simp [hc], by constructor <;> simp⟩
  case h_4 r hc =>
      obtain ⟨⟨slot₁, r'⟩, hr, rfl⟩ := Option.map_eq_some_iff.mp h
      obtain ⟨⟨base, next⟩, hb, heq⟩ := Option.map_eq_some_iff.mp hr
      cases heq
      have hw := BaseSlot.waiting_subset_of_reply hb
      refine ⟨by simp [hc], ?_⟩
      cases r' <;> constructor <;> simp_all [Finset.subset_iff]
  case h_5 hc =>
      cases h
      exact ⟨by simp [hc], by constructor <;> simp⟩

section Trans
variable {S ι : Type*} [DecidableEq ι]

/-- The callback which a request asks for. -/
def Request.callback (client : Client S) (k : ℕ) : Request → Callback
  | .apply log =>
      .apply log.index log.term log.logType (client.addressOf log.dataBuf) log.dataLen
  | .snapshot path => .beginSnapshot path k
  | .restore path => .restore path

/-- The assertions of the dispatchers hold. -/
def Request.Passes : Request → Prop
  | .apply log => log.logType = .command → log.dataBuf ≠ 0
  | .snapshot path | .restore path => path ≠ []

/-- The request comes to a function of the client: the assertions hold, and an
FSMApply carries a command. -/
def Request.ReachesClient : Request → Prop
  | .apply log => log.logType = .command ∧ log.dataBuf ≠ 0
  | .snapshot path | .restore path => path ≠ []

instance : DecidablePred Request.Passes
  | .apply _ => inferInstanceAs (Decidable (_ → _))
  | .snapshot _ | .restore _ => inferInstanceAs (Decidable (_ ≠ _))

instance : DecidablePred Request.ReachesClient
  | .apply _ => inferInstanceAs (Decidable (_ ∧ _))
  | .snapshot _ | .restore _ => inferInstanceAs (Decidable (_ ≠ _))

theorem Request.ReachesClient.passes {req : Request} (h : req.ReachesClient) : req.Passes := by
  cases req with
  | apply log => exact fun _ => h.2
  | snapshot path | restore path => exact h

/-- The transitions of the system. -/
inductive Trans (client : Client S) (s : State S ι) : Act ι → State S ι → Prop
  | send {t req q}
      (hs : ArrayBlockingQueue.step callQueueCapacity s.queue
        (.call (some t) (.put (req.tag, s.next))) = some q) :
      Trans client s (.send t req)
        { s with queue := q, slots := Function.update s.slots s.next (.new req)
                 next := s.next + 1 }
  | queue {a q} (ha : queueAllowed s.worker a = true)
      (hs : ArrayBlockingQueue.step callQueueCapacity s.queue a = some q) :
      Trans client s (.queue a) { s with queue := q }
  | taken {w tag k} (hw : s.worker = .take)
      (hp : s.queue.pc none = .done (.takeDone (tag, k))) :
      Trans client s (.worker w)
        ({ s with queue := s.queue.goto none .idle }.goto (.lock tag k))
  | closed {w} (hw : s.worker = .take) (hp : s.queue.pc none = .done .takeClosed) :
      Trans client s (.worker w) ({ s with queue := s.queue.goto none .idle }.goto .stopped)
  | lock {w tag k} (hw : s.worker = .lock tag k) (ho : (s.slots k).base.owned = none) :
      Trans client s (.worker w)
        ((s.setBase k { (s.slots k).base with owned := some .worker }).goto (.dispatch tag k))
  | abort {w tag k base} (hw : s.worker = .dispatch tag k)
      (hbad : (s.slots k).base.state = .pending → tag = (s.slots k).request.tag →
        ¬ (s.slots k).request.Passes)
      (hb : base = (s.slots k).base ∨ base = { (s.slots k).base with owned := none }) :
      Trans client s (.worker w) ((s.setBase k base).goto .aborted)
  | call {w tag k base} (hw : s.worker = .dispatch tag k)
      (hp : (s.slots k).base.state = .pending)
      (hr : (s.slots k).request.ReachesClient)
      (hb : base = { (s.slots k).base with state := base.state, owned := base.owned })
      (hs : isTerminal base.state = false) :
      Trans client s (.worker w)
        ((s.setBase k base).goto (.invoke k ((s.slots k).request.callback client k)))
  | skip {w k log} (hw : s.worker = .dispatch .fsmApply k)
      (hp : (s.slots k).base.state = .pending)
      (hr : (s.slots k).request = .apply log) (ht : log.logType ≠ .command) :
      Trans client s (.worker w) (s.goto (.unlock k))
  | invoke {w k cb} (hw : s.worker = .invoke k cb) :
      Trans client s (.worker w)
        { s with invoked := s.invoked ++ [⟨k, s.fsm, cb⟩], worker := .running k cb }
  | returnReply {w k cb fsm r} (hw : s.worker = .running k cb)
      (hr : cb.run client s.fsm = (fsm, some r)) :
      Trans client s (.worker w) ({ s with fsm := fsm }.goto (.replying k r))
  | returnQuiet {w k cb fsm} (hw : s.worker = .running k cb)
      (hr : cb.run client s.fsm = (fsm, none)) :
      Trans client s (.worker w) ({ s with fsm := fsm }.finish k)
  | reply {w k r slot r'} (hw : s.worker = .replying k r)
      (hr : (s.slots k).reply w r = some (slot, some r')) :
      Trans client s (.worker w) ((s.setSlot k slot).goto (.replying k r'))
  | replied {w k r slot} (hw : s.worker = .replying k r)
      (hr : (s.slots k).reply w r = some (slot, none)) :
      Trans client s (.worker w) ((s.setSlot k slot).goto (.unlock k))
  | unlock {w k} (hw : s.worker = .unlock k) :
      Trans client s (.worker w)
        ((s.setBase k { (s.slots k).base with owned := none }).finish k)
  | other {a k slot} (hq : Quiet (s.slots k) slot)
      (hc : slot.completion ≠ .idle → (s.slots k).completion ≠ .idle ∨
        ∃ e ∈ s.invoked, e.slot = k ∧ ∃ path req, e.callback = .beginSnapshot path req) :
      Trans client s a (s.setSlot k slot)

variable {client : Client S} {s s' : State S ι}

omit [DecidableEq ι] in
@[simp] theorem setBase_self (k : ℕ) : s.setBase k (s.slots k).base = s := by
  simp [State.setBase, State.setSlot]

theorem trans_of_dispatch {w : Option Actor} {tag : CallTag} {k : ℕ}
    (hw : s.worker = .dispatch tag k) :
    Trans client s (.worker w) (dispatch client s tag k) := by
  have habort (hbad : (s.slots k).base.state = .pending → tag = (s.slots k).request.tag →
      ¬ (s.slots k).request.Passes) : Trans client s (.worker w) (s.goto .aborted) := by
    have hstay : Trans client s (.worker w) ((s.setBase k (s.slots k).base).goto .aborted) :=
      .abort hw hbad (.inl rfl)
    simpa using hstay
  unfold dispatch
  split
  case isFalse hp => exact habort fun h => absurd h hp
  case isTrue hp =>
      split
      case h_1 log hr =>
          unfold dispatchFsmApply
          split
          case h_1 ht =>
              split
              case isTrue hd =>
                  exact habort fun _ _ ha => by simp [hr, Request.Passes, ht, hd] at ha
              case isFalse hd =>
                  have hcall : Trans client s (.worker w)
                      ((s.setBase k { (s.slots k).base with state := .dispatched }).goto
                        (.invoke k ((s.slots k).request.callback client k))) :=
                    .call hw hp (by simp [hr, Request.ReachesClient, ht, hd]) rfl rfl
                  simpa [hr, Request.callback] using hcall
          all_goals
            rename_i ht
            exact .skip hw hp hr (by simp [ht])
      case h_2 path hr =>
          unfold dispatchFsmSnapshot
          split
          case isTrue hl =>
              exact .abort hw (fun _ _ ha => by simp_all [Request.Passes]) (.inr rfl)
          case isFalse hl =>
              have hcall : Trans client s (.worker w)
                  ((s.setBase k { (s.slots k).base with owned := none }).goto
                    (.invoke k ((s.slots k).request.callback client k))) :=
                .call hw hp (by simpa [hr, Request.ReachesClient] using hl) rfl
                  (by simp [hp, isTerminal])
              simpa [hr, Request.callback] using hcall
      case h_3 path hr =>
          unfold dispatchFsmRestore
          split
          case isTrue hl => exact habort fun _ _ ha => by simp_all [Request.Passes]
          case isFalse hl =>
              have hcall : Trans client s (.worker w)
                  ((s.setBase k (s.slots k).base).goto
                    (.invoke k ((s.slots k).request.callback client k))) :=
                .call hw hp (by simpa [hr, Request.ReachesClient] using hl) rfl
                  (by simp [hp, isTerminal])
              simpa [hr, Request.callback] using hcall
      case h_4 h1 h2 h3 =>
          refine habort fun _ htag => ?_
          cases hr : (s.slots k).request with
          | apply log => exact absurd hr (h1 log (by simpa [hr, Request.tag] using htag))
          | snapshot path => exact absurd hr (h2 path (by simpa [hr, Request.tag] using htag))
          | restore path => exact absurd hr (h3 path (by simpa [hr, Request.tag] using htag))

theorem trans_of_workerStep {w : Option Actor} (h : workerStep client s w = some s') :
    Trans client s (.worker w) s' := by
  unfold workerStep at h
  split at h
  case h_1 hw =>
      split at h
      case h_1 tag k hp => cases h; exact .taken hw hp
      case h_2 hp => cases h; exact .closed hw hp
      case h_3 => cases h
  case h_2 tag k hw =>
      split at h <;> rename_i ho <;> cases h
      exact .lock hw (Option.isNone_iff_eq_none.mp ho)
  case h_3 tag k hw =>
      cases h
      exact trans_of_dispatch hw
  case h_4 k cb hw => cases h; exact .invoke hw
  case h_5 k cb hw =>
      split at h <;> rename_i hr <;> cases h
      · exact .returnReply hw hr
      · exact .returnQuiet hw hr
  case h_6 k r hw =>
      obtain ⟨⟨slot, r'⟩, hr, rfl⟩ := Option.map_eq_some_iff.mp h
      cases r' with
      | some r' => exact .reply hw hr
      | none => exact .replied hw hr
  case h_7 k hw => cases h; exact .unlock hw
  case h_8 | h_9 => cases h

/-- Everything one step can do. -/
theorem trans_of_step {a : Act ι} (h : step client s a = some s') : Trans client s a s' := by
  cases a with
  | send t req =>
      obtain ⟨q, hq, rfl⟩ := Option.map_eq_some_iff.mp h
      exact .send hq
  | queue a =>
      simp only [step] at h
      split at h
      · rename_i ha
        obtain ⟨q, hq, rfl⟩ := Option.map_eq_some_iff.mp h
        exact .queue ha hq
      · cases h
  | worker w => exact trans_of_workerStep h
  | wait k =>
      simp only [step] at h
      split at h <;> cases h
      exact .other (by constructor <;> simp) .inl
  | waitStep k =>
      obtain ⟨pc, hpc, hb⟩ := Option.bind_eq_some_iff.mp h
      obtain ⟨⟨base, pc'⟩, hw, rfl⟩ := Option.map_eq_some_iff.mp hb
      exact .other (quiet_wait hw) .inl
  | waitWake k =>
      simp only [step] at h
      split at h <;> cases h
      exact .other (k := k) quiet_wake .inl
  | complete k success =>
      simp only [step] at h
      split at h <;> rename_i hc <;> cases h
      obtain ⟨⟨e, he, hk, hcb⟩, hidle⟩ := hc
      refine .other (by constructor <;> simp) fun _ => .inr ⟨e, he, hk, ?_⟩
      cases hcb' : e.callback with
      | beginSnapshot path req => exact ⟨path, req, rfl⟩
      | _ => simp [hcb'] at hcb
  | completeStep k w =>
      obtain ⟨slot, hs, rfl⟩ := Option.map_eq_some_iff.mp h
      obtain ⟨hidle, hq⟩ := quiet_complete hs
      exact .other hq fun _ => .inl hidle

end Trans

section Wired
variable {S ι : Type*} [DecidableEq ι] {client : Client S} {s s' : State S ι} {a : Act ι}

theorem request_of_reply {slot slot' : Slot} {w : Option Actor} {r : Reply} {r' : Option Reply}
    (h : slot.reply w r = some (slot', r')) :
    slot'.request = slot.request ∧ slot'.processed = slot.processed ∧
      slot'.completion = slot.completion := by
  obtain ⟨⟨base, next⟩, hb, heq⟩ := Option.map_eq_some_iff.mp h
  cases heq
  exact ⟨rfl, rfl, rfl⟩

omit [DecidableEq ι] in
/-- What a change of one slot leaves alone there is the same in all slots. -/
theorem update_slots_congr {β : Type*} {f : Slot → β} {j : ℕ} {slot : Slot}
    (hj : f slot = f (s.slots j)) (k : ℕ) :
    f (Function.update s.slots j slot k) = f (s.slots k) := by
  by_cases hkj : k = j
  · rw [hkj, Function.update_self, hj]
  · rw [Function.update_of_ne hkj]

/-- The request stored in a slot never changes. -/
theorem request_of_trans (h : Trans client s a s') {k : ℕ} (hk : k < s.next) :
    (s'.slots k).request = (s.slots k).request := by
  have hset {j slot} (hj : slot.request = (s.slots j).request) :
      (Function.update s.slots j slot k).request = (s.slots k).request :=
    update_slots_congr hj k
  cases h with
  | send hs => simp [hk.ne]
  | reply hw hr => exact hset (request_of_reply hr).1
  | replied hw hr => exact hset (request_of_reply hr).1
  | other hq hc => exact hset hq.request
  | lock hw ho => exact hset rfl
  | abort hw hbad hb => exact hset rfl
  | call hw hp hr hb hs => exact hset rfl
  | returnQuiet hw hr => exact hset rfl
  | @unlock w j hw =>
      by_cases hkj : k = j
      · subst hkj
        simp
      · simp [hkj]
  | _ => rfl

theorem next_le_of_trans (h : Trans client s a s') : s.next ≤ s'.next := by
  cases h with
  | send hs => exact Nat.le_succ _
  | _ => exact le_rfl

/-- The slot which the worker has taken from the queue and not finished. -/
def State.hand (s : State S ι) : Option ℕ :=
  match s.worker with
  | .take => (s.queue.pc none).inHand.map Prod.snd
  | .lock _ k | .dispatch _ k | .invoke k _ | .running k _ | .replying k _ | .unlock k => some k
  | .stopped | .aborted => none

/-- A record names a slot which exists, by its own tag. -/
def State.Sent (s : State S ι) (r : CallTag × ℕ) : Prop :=
  r.2 < s.next ∧ r.1 = (s.slots r.2).request.tag

/-- How the worker and the slots hang on the queue. -/
structure Wired (s : State S ι) : Prop where
  reach : (ArrayBlockingQueue.system callQueueCapacity noRecords).Reachable s.queue
  supplied : ArrayBlockingQueue.Supplied Prod.snd s.Sent s.queue
  consumer : ∀ t, t ≠ none → ¬ (s.queue.pc t).runs .take
  away : s.worker ≠ .take → s.queue.pc none = .idle
  held : ∀ r, (s.queue.pc none).inHand = some r → r ∈ s.queue.delivered
  tagged : ∀ tag k, s.worker = .lock tag k ∨ s.worker = .dispatch tag k →
    (tag, k) ∈ s.queue.delivered
  hand : ∀ k, s.hand = some k →
    k ∈ s.queue.delivered.map Prod.snd ∧ (s.slots k).processed = false
  processed : ∀ k, (s.slots k).processed = true → k ∈ s.queue.delivered.map Prod.snd

theorem wired_initial (fsm : S) : Wired (initial fsm : State S ι) where
  reach := .init
  supplied := ArrayBlockingQueue.supplied_initial _
  consumer := by simp [initial, ArrayBlockingQueue.initial, ArrayBlockingQueue.Pc.runs]
  away := fun h => absurd rfl h
  held := by simp [initial, ArrayBlockingQueue.initial, ArrayBlockingQueue.Pc.inHand]
  tagged := by simp [initial]
  hand := by simp [initial, State.hand, ArrayBlockingQueue.initial, ArrayBlockingQueue.Pc.inHand]
  processed := by simp [initial, Slot.new]

/-- What has been delivered was accepted before, each record once. -/
theorem Wired.delivered_prefix (hw : Wired s) : s.queue.delivered <+: s.queue.accepted :=
  ⟨_, ArrayBlockingQueue.delivered_append_contents (by decide) hw.reach⟩

theorem Wired.sent_of_delivered (hw : Wired s) {r : CallTag × ℕ} (h : r ∈ s.queue.delivered) :
    s.Sent r :=
  hw.supplied.accepted r (hw.delivered_prefix.subset h)

theorem Wired.lt_of_delivered (hw : Wired s) {k : ℕ}
    (h : k ∈ s.queue.delivered.map Prod.snd) : k < s.next := by
  obtain ⟨r, hr, rfl⟩ := List.mem_map.mp h
  exact (hw.sent_of_delivered hr).1

/-- The record in the hands of the worker is the one of the slot. -/
theorem Wired.sent_of_dispatch (hw : Wired s) {tag : CallTag} {k : ℕ}
    (hwk : s.worker = .dispatch tag k) : s.Sent (tag, k) :=
  hw.sent_of_delivered (hw.tagged tag k (.inr hwk))

theorem Wired.nodup_delivered (hw : Wired s) : (s.queue.delivered.map Prod.snd).Nodup :=
  hw.supplied.nodup.sublist (hw.delivered_prefix.map Prod.snd).sublist

theorem sent_of_trans (h : Trans client s a s') {r : CallTag × ℕ} (hr : s.Sent r) :
    s'.Sent r :=
  ⟨hr.1.trans_le (next_le_of_trans h), by rw [request_of_trans h hr.1]; exact hr.2⟩

/-- A step of the worker or of a slot which stays away from the queue. -/
theorem Wired.keep (hw : Wired s) (h : Trans client s a s') (hq : s'.queue = s.queue)
    (haway : s'.worker ≠ .take → s.worker ≠ .take)
    (htag : ∀ tag k, s'.worker = .lock tag k ∨ s'.worker = .dispatch tag k →
      s.worker = .lock tag k ∨ s.worker = .dispatch tag k)
    (hhand : ∀ k, s'.hand = some k → s.hand = some k)
    (hproc : ∀ k, (s'.slots k).processed = (s.slots k).processed) : Wired s' where
  reach := hq ▸ hw.reach
  supplied := hq ▸ hw.supplied.mono fun _ => sent_of_trans h
  consumer := hq ▸ hw.consumer
  away := fun hne => hq ▸ hw.away (haway hne)
  held := hq ▸ hw.held
  tagged := fun tag k hwk => hq ▸ hw.tagged tag k (htag tag k hwk)
  hand := by
    intro k hk
    rw [hq, hproc]
    exact hw.hand k (hhand k hk)
  processed := by
    intro k hk
    rw [hq]
    exact hw.processed k (hproc k ▸ hk)

/-- The worker's step for the slot in its hands returns. -/
theorem Wired.finish (hw : Wired s) (h : Trans client s a s') (hq : s'.queue = s.queue)
    (hne : s.worker ≠ .take) (htake : s'.worker = .take) {k : ℕ} (hk : s.hand = some k)
    (hproc : ∀ j, j ≠ k → (s'.slots j).processed = (s.slots j).processed) : Wired s' := by
  have hidle : s'.queue.pc none = .idle := hq ▸ hw.away hne
  refine ⟨hq ▸ hw.reach, hq ▸ hw.supplied.mono fun _ => sent_of_trans h, hq ▸ hw.consumer,
    fun hn => absurd htake hn, hq ▸ hw.held, ?_, ?_, ?_⟩
  · intro tag j hj
    simp [htake] at hj
  · intro j hj
    simp [State.hand, htake, hidle, ArrayBlockingQueue.Pc.inHand] at hj
  · intro j hj
    rw [hq]
    by_cases hjk : j = k
    · exact hjk ▸ (hw.hand k hk).1
    · exact hw.processed j (hproc j hjk ▸ hj)

theorem Wired.send (hw : Wired s) {t : ι} {req : Request}
    {q : ArrayBlockingQueue.State (CallTag × ℕ) (Option ι)}
    (hs : ArrayBlockingQueue.step callQueueCapacity s.queue
      (.call (some t) (.put (req.tag, s.next))) = some q)
    (htr : Trans client s (.send t req) s')
    (hs' : s' = { s with queue := q, slots := Function.update s.slots s.next (.new req)
                         next := s.next + 1 }) : Wired s' := by
  have ht := ArrayBlockingQueue.trans_of_step hs
  have hpc : q.pc none = s.queue.pc none :=
    ArrayBlockingQueue.pc_of_ne ht (by simp [ArrayBlockingQueue.Act.thread])
  have hdel : q.delivered = s.queue.delivered :=
    ArrayBlockingQueue.delivered_of_ne ht hw.consumer (by simp [ArrayBlockingQueue.Act.thread])
  have hslot {k : ℕ} (hk : k ∈ s.queue.delivered.map Prod.snd) :
      Function.update s.slots s.next (.new req) k = s.slots k :=
    Function.update_of_ne (hw.lt_of_delivered hk).ne _ _
  have hhand : s'.hand = s.hand := by
    subst hs'
    simp only [State.hand, hpc]
  have hsup : ArrayBlockingQueue.Supplied Prod.snd s'.Sent q := by
    refine hw.supplied.call ht ?_ (fun _ => sent_of_trans htr) fun v hv => hv.1.ne
    subst hs'
    exact ⟨Nat.lt_succ_self _, by simp [Slot.new]⟩
  have hcons : ∀ u, u ≠ none → ¬ (q.pc u).runs .take := fun u hu hr => by
    rcases ArrayBlockingQueue.runs_of_trans ht hr with hr | hr
    · exact hw.consumer u hu hr
    · simp at hr
  subst hs'
  exact {
    reach := hw.reach.next (a := .call (some t) (.put (req.tag, s.next))) hs
    supplied := hsup
    consumer := hcons
    away := fun hne => hpc ▸ hw.away hne
    held := fun r hr => hdel ▸ hw.held r (hpc ▸ hr)
    tagged := fun tag k hk => hdel ▸ hw.tagged tag k hk
    hand := by
      intro k hk
      obtain ⟨hmem, hp⟩ := hw.hand k (hhand ▸ hk)
      exact ⟨hdel ▸ hmem, by simpa [hslot hmem] using hp⟩
    processed := by
      intro k hk
      by_cases hkn : k = s.next
      · subst hkn
        simp [Slot.new] at hk
      · exact hdel ▸ hw.processed k (by simpa [hkn] using hk) }

omit [DecidableEq ι] in
theorem queueAllowed_call {worker : Worker} {t : Option ι} {op : ArrayBlockingQueue.Op _}
    (h : queueAllowed worker (.call t op) = true) :
    t = none ∧ op = .take ∧ worker = .take := by
  cases t with
  | some t => simp [queueAllowed] at h
  | none =>
      cases op with
      | put val => simp [queueAllowed] at h
      | take => cases worker <;> simp_all [queueAllowed]

/-- While the worker is away from the queue, nothing happens to its position there. -/
theorem idle_of_queue {q : ArrayBlockingQueue.State (CallTag × ℕ) (Option ι)}
    {b : ArrayBlockingQueue.Act (CallTag × ℕ) (Option ι)}
    (ha : queueAllowed s.worker b = true) (hne : s.worker ≠ .take)
    (ht : ArrayBlockingQueue.Trans callQueueCapacity s.queue b q)
    (hidle : s.queue.pc none = .idle) : q.pc none = .idle := by
  by_cases hb : b.thread = none
  · cases ht with
    | call h => exact absurd (queueAllowed_call ha).2.2 hne
    | callClose h =>
        obtain rfl := hb
        simp [queueAllowed] at ha
    | spuriousFull h | spuriousEmpty h => exact hidle
    | _ h =>
        obtain rfl := hb
        simp [hidle] at h
  · rw [ArrayBlockingQueue.pc_of_ne ht (Ne.symm hb), hidle]

/-- What a step in the queue is to the worker: nothing, or its `take` gets the
next record. -/
theorem Wired.consumer_step (hw : Wired s)
    {q : ArrayBlockingQueue.State (CallTag × ℕ) (Option ι)}
    {b : ArrayBlockingQueue.Act (CallTag × ℕ) (Option ι)}
    (ha : queueAllowed s.worker b = true)
    (ht : ArrayBlockingQueue.Trans callQueueCapacity s.queue b q) :
    (q.delivered = s.queue.delivered ∧ (q.pc none).inHand = (s.queue.pc none).inHand) ∨
      ∃ r, s.worker = .take ∧ (s.queue.pc none).inHand = none ∧ (q.pc none).inHand = some r ∧
        q.delivered = s.queue.delivered ++ [r] := by
  have hleave : b ≠ .leave none := by
    rintro rfl
    simp [queueAllowed] at ha
  refine (ArrayBlockingQueue.consumer_step ht hw.consumer hleave).imp_right ?_
  rintro ⟨r, hnone, hin, hdel⟩
  refine ⟨r, ?_, hnone, hin, hdel⟩
  by_contra hne
  rw [idle_of_queue ha hne ht (hw.away hne)] at hin
  cases hin

theorem Wired.queue (hw : Wired s) {q : ArrayBlockingQueue.State (CallTag × ℕ) (Option ι)}
    {b : ArrayBlockingQueue.Act (CallTag × ℕ) (Option ι)}
    (ha : queueAllowed s.worker b = true)
    (hs : ArrayBlockingQueue.step callQueueCapacity s.queue b = some q) :
    Wired { s with queue := q } := by
  have ht := ArrayBlockingQueue.trans_of_step hs
  have hreach := hw.reach.next (a := b) hs
  have hsup : ArrayBlockingQueue.Supplied Prod.snd s.Sent q := by
    refine hw.supplied.trans ht ?_
    rintro t val rfl
    simpa using (queueAllowed_call ha).2.1
  have hcons : ∀ u, u ≠ none → ¬ (q.pc u).runs .take := by
    intro u hu hr
    rcases ArrayBlockingQueue.runs_of_trans ht hr with hr | rfl
    · exact hw.consumer u hu hr
    · exact hu (queueAllowed_call ha).1
  have haway : s.worker ≠ .take → q.pc none = .idle := fun hne =>
    idle_of_queue ha hne ht (hw.away hne)
  rcases hw.consumer_step ha ht with ⟨hdel, hin⟩ | ⟨r, htake, -, hin, hdel⟩
  · refine ⟨hreach, hsup, hcons, haway, ?_, hdel ▸ hw.tagged, ?_, hdel ▸ hw.processed⟩
    · intro r hr
      exact hdel ▸ hw.held r (hin ▸ hr)
    · intro k hk
      refine hdel ▸ hw.hand k ?_
      simp only [State.hand, hin] at hk ⊢
      exact hk
  · -- the worker's `take` has just returned `r`, which nobody has processed
    have hmono {x} (hx : x ∈ s.queue.delivered) : x ∈ q.delivered := by
      rw [hdel]
      exact List.mem_append_left _ hx
    have hids {k} (hk : k ∈ s.queue.delivered.map Prod.snd) : k ∈ q.delivered.map Prod.snd := by
      rw [hdel, List.map_append]
      exact List.mem_append_left _ hk
    have hmem : r ∈ q.delivered := by simp [hdel]
    have hfresh : r.2 ∉ s.queue.delivered.map Prod.snd := by
      have hpre : q.delivered <+: q.accepted :=
        ⟨_, ArrayBlockingQueue.delivered_append_contents (by decide) hreach⟩
      have hnd : (q.delivered.map Prod.snd).Nodup :=
        hsup.nodup.sublist (hpre.map Prod.snd).sublist
      rw [hdel, List.map_append, List.map_singleton] at hnd
      exact fun hin => (List.nodup_append.mp hnd).2.2 _ hin _ (List.mem_singleton_self _) rfl
    refine ⟨hreach, hsup, hcons, haway, ?_, fun tag k hk => hmono (hw.tagged tag k hk), ?_,
      fun k hk => hids (hw.processed k hk)⟩
    · intro r' hr'
      rw [hin, Option.some.injEq] at hr'
      exact hr' ▸ hmem
    · intro k hk
      simp only [State.hand, htake, hin, Option.map_some, Option.some.injEq] at hk
      subst hk
      refine ⟨List.mem_map_of_mem hmem, ?_⟩
      by_contra hp
      exact hfresh (hw.processed _ (by simpa using hp))

theorem Wired.trans (hw : Wired s) (h : Trans client s a s') : Wired s' := by
  have htr := h
  have hset {j slot} (hj : slot.processed = (s.slots j).processed) (k : ℕ) :
      (Function.update s.slots j slot k).processed = (s.slots k).processed :=
    update_slots_congr hj k
  cases h with
  | send hs => exact hw.send hs htr rfl
  | queue ha hs => exact hw.queue ha hs
  | @taken w tag k hwk hp =>
      have hin : (s.queue.pc none).inHand = some (tag, k) := by
        simp [hp, ArrayBlockingQueue.Pc.inHand]
      have hstep : ArrayBlockingQueue.step callQueueCapacity s.queue (.leave none) =
          some (s.queue.goto none .idle) := by simp [ArrayBlockingQueue.step, hp]
      refine ⟨hw.reach.next (a := .leave none) hstep,
        (hw.supplied.trans (ArrayBlockingQueue.trans_of_step hstep) (by simp)), ?_, ?_, ?_, ?_, ?_,
        hw.processed⟩
      · intro u hu
        simpa [hu] using hw.consumer u hu
      · simp
      · simp [ArrayBlockingQueue.Pc.inHand]
      · intro tag' k' hk'
        simp only [State.goto_worker, Worker.lock.injEq, reduceCtorEq, or_false] at hk'
        obtain ⟨rfl, rfl⟩ := hk'
        exact hw.held _ hin
      · intro k' hk'
        simp only [State.hand, State.goto_worker, Option.some.injEq] at hk'
        subst hk'
        exact hw.hand _ (by simp [State.hand, hwk, hin])
  | @closed w hwk hp =>
      have hstep : ArrayBlockingQueue.step callQueueCapacity s.queue (.leave none) =
          some (s.queue.goto none .idle) := by simp [ArrayBlockingQueue.step, hp]
      refine ⟨hw.reach.next (a := .leave none) hstep,
        (hw.supplied.trans (ArrayBlockingQueue.trans_of_step hstep) (by simp)), ?_, ?_, ?_, ?_, ?_,
        hw.processed⟩
      · intro u hu
        simpa [hu] using hw.consumer u hu
      · simp
      · simp [ArrayBlockingQueue.Pc.inHand]
      · simp
      · simp [State.hand]
  | lock hwk ho =>
      exact hw.keep htr rfl (by simp [hwk]) (by simp [hwk]) (by simp [State.hand, hwk])
        (hset rfl)
  | abort hwk hbad hb =>
      exact hw.keep htr rfl (by simp [hwk]) (by simp) (by simp [State.hand]) (hset rfl)
  | call hwk hp hr hb hs =>
      exact hw.keep htr rfl (by simp [hwk]) (by simp) (by simp [State.hand, hwk]) (hset rfl)
  | skip hwk hp hr ht =>
      exact hw.keep htr rfl (by simp [hwk]) (by simp) (by simp [State.hand, hwk]) fun _ => rfl
  | invoke hwk =>
      exact hw.keep htr rfl (by simp [hwk]) (by simp) (by simp [State.hand, hwk]) fun _ => rfl
  | returnReply hwk hr =>
      exact hw.keep htr rfl (by simp [hwk]) (by simp) (by simp [State.hand, hwk]) fun _ => rfl
  | @returnQuiet w k cb fsm hwk hr =>
      exact hw.finish htr rfl (by simp [hwk]) rfl (k := k) (by simp [State.hand, hwk])
        fun j hj => by simp [hj]
  | reply hwk hr =>
      exact hw.keep htr rfl (by simp [hwk]) (by simp) (by simp [State.hand, hwk])
        (hset (request_of_reply hr).2.1)
  | replied hwk hr =>
      exact hw.keep htr rfl (by simp [hwk]) (by simp) (by simp [State.hand, hwk])
        (hset (request_of_reply hr).2.1)
  | @unlock w k hwk =>
      exact hw.finish htr rfl (by simp [hwk]) rfl (k := k) (by simp [State.hand, hwk])
        fun j hj => by simp [hj]
  | other hq hc => exact hw.keep htr rfl id (fun _ _ => id) (fun _ => id) (hset hq.processed)

theorem wired_of_reach {guard : State S ι → Act ι → State S ι → Prop} {fsm : S}
    (h : (system client fsm).Reach guard s) : Wired s :=
  h.invariant (wired_initial fsm) fun _ _ _ _ hw ht _ => hw.trans (trans_of_step ht)

end Wired

end Libraft.Fsm
