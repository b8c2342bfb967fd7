import Libraft.Fsm.Answering
import Libraft.Pool.Results

/-!
# Calls in the call queues

Both queues of the scoreboard carry records of calls. A record is put there
once, with the tag of its slot, and the slot is pending for as long as the
record is in the queue. A call whose `put` was refused by the API queue is
failed by its creator and appears in no record.
-/

namespace Libraft.Fsm

open Libraft.Foundation Libraft.Calls
open Libraft.Queue

variable {S ι : Type*}

/-- The tag of a slot is the one of the request stored in it. -/
def Tagged (s : State S ι) : Prop := ∀ k, (s.slots k).base.tag = (s.slots k).request.tag

theorem tagged_initial (fsm : S) : Tagged (initial fsm : State S ι) := fun _ => rfl

section Tagged
variable {client : Client S} {s s' : State S ι}

theorem Tagged.setSlot (h : Tagged s) {k : ℕ} (slot : Slot)
    (hs : slot.base.tag = slot.request.tag) : Tagged (s.setSlot k slot) := by
  intro j
  by_cases hj : j = k
  · subst hj
    simpa using hs
  · simpa [hj] using h j

theorem Tagged.setBase (h : Tagged s) {k : ℕ} (base : BaseSlot Actor)
    (hb : base.tag = (s.slots k).base.tag) : Tagged (s.setBase k base) :=
  h.setSlot _ (hb.trans (h k))

theorem Tagged.finish (h : Tagged s) (k : ℕ) : Tagged (s.finish k) :=
  h.setSlot { s.slots k with processed := true } (h k)

theorem Tagged.reply (h : Tagged s) {k : ℕ} {slot : Slot} {w : Option Actor} {r : Reply}
    {next : Option Reply} (hr : (s.slots k).reply w r = some (slot, next)) :
    slot.base.tag = slot.request.tag := by
  obtain ⟨⟨base, next'⟩, hb, heq⟩ := Option.map_eq_some_iff.mp hr
  cases heq
  exact (BaseSlot.frame_of_reply hb).2.trans (h k)

theorem Tagged.dispatch (h : Tagged s) (tag : CallTag) (k : ℕ) :
    Tagged (dispatch client s tag k) := by
  unfold Fsm.dispatch
  split
  · split
    · unfold dispatchFsmApply
      repeat' split
      all_goals first | exact h | exact h.setBase _ rfl
    · unfold dispatchFsmSnapshot
      split <;> exact h.setBase _ rfl
    · unfold dispatchFsmRestore
      split <;> exact h
    · exact h
  · exact h

variable [DecidableEq ι]

theorem Tagged.workerStep {w : Option Actor} (h : Tagged s)
    (hs : workerStep client s w = some s') : Tagged s' := by
  unfold Fsm.workerStep at hs
  split at hs
  case h_1 =>
      split at hs <;> cases hs
      · exact h
      · exact h
  case h_2 =>
      split at hs <;> cases hs
      exact h.setBase _ rfl
  case h_3 tag k hw =>
      cases hs
      exact h.dispatch tag k
  case h_4 =>
      cases hs
      exact h
  case h_5 k cb hw =>
      split at hs <;> cases hs
      · exact h
      · exact Tagged.finish (s := { s with fsm := _ }) h k
  case h_6 k r hw =>
      obtain ⟨⟨slot, r'⟩, hr, rfl⟩ := Option.map_eq_some_iff.mp hs
      exact h.setSlot _ (h.reply hr)
  case h_7 k hw =>
      cases hs
      exact (h.setBase { (s.slots k).base with owned := none } rfl).finish k
  case h_8 | h_9 => cases hs

/-- No step changes the tag of a slot. -/
theorem Tagged.step {a : Act ι} (h : Tagged s) (hs : step client s a = some s') : Tagged s' := by
  cases a with
  | send t req =>
      obtain ⟨q, hq, rfl⟩ := Option.map_eq_some_iff.mp hs
      exact h.setSlot (.new req) rfl
  | queue a =>
      simp only [Fsm.step] at hs
      split at hs
      · obtain ⟨q, hq, rfl⟩ := Option.map_eq_some_iff.mp hs
        exact h
      · cases hs
  | worker w => exact h.workerStep hs
  | wait k =>
      simp only [Fsm.step] at hs
      split at hs <;> cases hs
      exact h.setSlot _ (h k)
  | waitStep k =>
      obtain ⟨pc, hpc, hb⟩ := Option.bind_eq_some_iff.mp hs
      obtain ⟨⟨base, pc'⟩, hw, rfl⟩ := Option.map_eq_some_iff.mp hb
      exact h.setSlot _ ((BaseSlot.tag_of_wait hw).trans (h k))
  | waitWake k =>
      simp only [Fsm.step] at hs
      split at hs <;> cases hs
      exact h.setBase _ rfl
  | complete k success =>
      simp only [Fsm.step] at hs
      split at hs <;> cases hs
      exact h.setSlot _ (h k)
  | completeStep k w =>
      obtain ⟨slot, hc, rfl⟩ := Option.map_eq_some_iff.mp hs
      refine h.setSlot _ ?_
      unfold Slot.complete at hc
      split at hc
      case h_1 | h_2 => cases hc
      case h_3 =>
          split at hc <;> cases hc
          exact h k
      case h_4 =>
          obtain ⟨⟨slot', r'⟩, hr, rfl⟩ := Option.map_eq_some_iff.mp hc
          have hs' := h.reply hr
          exact hs'
      case h_5 =>
          cases hc
          exact h k

theorem tagged_of_reach {guard : State S ι → Act ι → State S ι → Prop} {fsm : S}
    (h : (system client fsm).Reach guard s) : Tagged s :=
  h.invariant (tagged_initial fsm) fun _ _ _ _ ht hstep _ => ht.step hstep

/-- The slot which a record names is pending and has the tag of the record. -/
def State.Pending (s : State S ι) (r : CallTag × ℕ) : Prop :=
  (s.slots r.2).base.state = .pending ∧ (s.slots r.2).base.tag = r.1

/-- A slot which the worker has not dispatched. -/
theorem pending_of_fresh {fsm : S} (h : (system client fsm).Reachable s) {r : CallTag × ℕ}
    (hr : r ∈ s.queue.accepted) (hp : (s.slots r.2).processed = false)
    (he : s.worker.engaged ≠ some r.2) : s.Pending r := by
  have hsent := (wired_of_reach h).supplied.accepted r hr
  refine ⟨(((tracked_of_reach h).resting r.2 he).fresh hp).state, ?_⟩
  rw [tagged_of_reach h, hsent.2]

/-- While a record is in the FSM queue, its slot is pending. -/
theorem pending_of_contents {fsm : S} (h : (system client fsm).Reachable s) {r : CallTag × ℕ}
    (hr : r ∈ s.queue.ring.contents callQueueCapacity) : s.Pending r := by
  have hw := wired_of_reach h
  have hacc := ArrayBlockingQueue.delivered_append_contents (by decide) hw.reach
  have hnot : r.2 ∉ s.queue.delivered.map Prod.snd := by
    have hnd := hw.supplied.nodup
    rw [← hacc, List.map_append] at hnd
    exact fun hd => List.disjoint_of_nodup_append hnd hd (List.mem_map_of_mem hr)
  refine pending_of_fresh h ?_ ?_ ?_
  · rw [← hacc]
    exact List.mem_append_right _ hr
  · by_contra hp
    exact hnot (hw.processed _ (by simpa using hp))
  · exact fun he => hnot (hw.hand _ (hand_of_engaged he)).1

/-- The record which the worker has taken and not dispatched. -/
theorem pending_of_taken {fsm : S} (h : (system client fsm).Reachable s) {tag : CallTag} {k : ℕ}
    (hwk : s.worker = .lock tag k ∨ s.worker = .dispatch tag k) : s.Pending (tag, k) := by
  have hw := wired_of_reach h
  refine pending_of_fresh h (hw.delivered_prefix.subset (hw.tagged tag k hwk)) ?_ ?_
  · refine (hw.hand k ?_).2
    rcases hwk with hwk | hwk <;> simp [State.hand, hwk]
  · rcases hwk with hwk | hwk <;> simp [hwk, Worker.engaged]

end Tagged

end Libraft.Fsm

namespace Libraft.Pool

open Libraft.Foundation Libraft.Calls
open Libraft.Queue

variable {τ ρ : Type*}

/-- `send_request` or `make_error_request` has returned the slot. -/
def Life.returned : Life → Bool
  | .unborn | .creating _ => false
  | _ => true

/-- The slot which a record names exists, is pending and has the tag of the record. -/
structure State.Pending (s : State τ ρ) (r : CallTag × ℕ) : Prop where
  node : s.pool (s.calls r.2).addr = some r.2
  state : (s.slot r.2).state = .pending
  tag : (s.slot r.2).tag = r.1

/-- Nobody uses the state Dispatched on this side. -/
def Undispatched (s : State τ ρ) : Prop := ∀ p, (s.mem p).state ≠ .dispatched

/-- A call which its creator has not failed is in the queue or has been there. -/
structure Admitted (s : State τ ρ) : Prop where
  sending : ∀ c val, (s.calls c).life = .creating .sending →
    s.api.pc (.inl c) = .done (.putDone val) → c ∈ s.accepted
  returned : ∀ c, (s.calls c).life.returned = true → (s.calls c).rejected = false →
    c ∈ s.accepted

theorem admitted_initial : Admitted (initial : State τ ρ) where
  sending := by simp [initial, Call.unborn]
  returned := by simp [initial, Call.unborn, Life.returned]

section Steps
variable [DecidableEq τ] [DecidableEq ρ] {s s' : State τ ρ} {a : Act τ ρ}

theorem CallTrans.undispatched {c : ℕ} {call call' : Call τ} {slot slot' : BaseSlot (Actor τ)}
    {b : CallAct τ} (ht : CallTrans c call slot b call' slot') (h : slot.state ≠ .dispatched) :
    slot'.state ≠ .dispatched := by
  cases ht with
  | failState hl => simp
  | @storeState w err hr hs =>
      intro hd
      have hterm := isTerminal_finalState err
      rw [show err.finalState = .dispatched from hd] at hterm
      simp [isTerminal] at hterm
  | use hu => rwa [hu.frame.1]
  | _ => exact h

theorem Undispatched.trans (h : Undispatched s) (ht : Trans s a s') : Undispatched s' := by
  have hupd {p : Addr} {slot : BaseSlot (Actor τ)} (hs : slot.state ≠ .dispatched) (q : Addr) :
      (Function.update s.mem p slot q).state ≠ .dispatched := by
    by_cases hq : q = p
    · subst hq
      simpa using hs
    · simpa [hq] using h q
  cases ht with
  | allocate hl hp => exact hupd (by simp [BaseSlot.new])
  | call ht hr => exact hupd (ht.undispatched (h _))
  | tryLock hg ho => exact hupd (h _)
  | @release c entry locked disposed hg =>
      rw [Undispatched, attempted_mem, unlocked_mem]
      exact hupd (h (s.calls c).addr)
  | _ => exact h

omit [DecidableEq τ] [DecidableEq ρ] in
/-- A step which leaves the queue alone and returns no call. -/
theorem Admitted.keep (h : Admitted s) (hapi : s'.api = s.api)
    (hs : ∀ c, (s'.calls c).life = .creating .sending → (s.calls c).life = .creating .sending)
    (hr : ∀ c, (s'.calls c).life.returned = true → (s'.calls c).rejected = false →
      (s.calls c).life.returned = true ∧ (s.calls c).rejected = false) : Admitted s' where
  sending := by
    intro c val hl hpc
    rw [State.accepted, hapi]
    exact h.sending c val (hs c hl) (hapi ▸ hpc)
  returned := by
    intro c hret hrej
    rw [State.accepted, hapi]
    exact h.returned c (hr c hret hrej).1 (hr c hret hrej).2

omit [DecidableEq τ] [DecidableEq ρ] in
/-- A step of one call which leaves the queue alone. -/
theorem Admitted.setCall (h : Admitted s) {c : ℕ} {call : Call τ}
    (hcalls : s'.calls = Function.update s.calls c call) (hapi : s'.api = s.api)
    (hs : call.life = .creating .sending → (s.calls c).life = .creating .sending)
    (hr : call.life.returned = true → call.rejected = false →
      (s.calls c).life.returned = true ∧ (s.calls c).rejected = false) : Admitted s' := by
  refine h.keep hapi (fun d => ?_) (fun d => ?_)
  · by_cases hd : d = c
    · subst hd
      simpa [hcalls] using hs
    · simp [hcalls, hd]
  · by_cases hd : d = c
    · subst hd
      simpa [hcalls] using hr
    · simp only [hcalls, Function.update_of_ne hd]
      exact fun hret hrej => ⟨hret, hrej⟩

omit [DecidableEq τ] [DecidableEq ρ] in
/-- A creating thread enters or leaves the queue. -/
theorem Admitted.byCreator (h : Admitted s) {c : ℕ} {call : Call τ}
    (hcalls : s'.calls = Function.update s.calls c call)
    (hpc : ∀ d, d ≠ c → s'.api.pc (.inl d) = s.api.pc (.inl d)) (hlog : s'.api.log = s.api.log)
    (hs : ∀ val, call.life = .creating .sending → s'.api.pc (.inl c) ≠ .done (.putDone val))
    (hr : call.life.returned = true → call.rejected = false → c ∈ s.accepted) : Admitted s' := by
  have hacc : s'.accepted = s.accepted := by
    simp only [State.accepted, ArrayBlockingQueue.State.accepted, hlog]
  refine ⟨fun d val hl hd => ?_, fun d hret hrej => ?_⟩
  · by_cases hdc : d = c
    · subst hdc
      exact absurd hd (hs val (by simpa [hcalls] using hl))
    · rw [hacc]
      exact h.sending d val (by simpa [hcalls, hdc] using hl) (hpc d hdc ▸ hd)
  · rw [hacc]
    by_cases hdc : d = c
    · subst hdc
      exact hr (by simpa [hcalls] using hret) (by simpa [hcalls] using hrej)
    · exact h.returned d (by simpa [hcalls, hdc] using hret) (by simpa [hcalls, hdc] using hrej)

omit [DecidableEq τ] in
/-- A `put` which returns has placed the record of the call. -/
theorem Admitted.api (h : Admitted s) (ho : ApiOk s)
    {b : ArrayBlockingQueue.Act (CallTag × ℕ) (ℕ ⊕ ρ)} (hb : apiAllowed b = true)
    (ht : ArrayBlockingQueue.Trans callQueueCapacity s.api b s'.api)
    (hcalls : s'.calls = s.calls) : Admitted s' := by
  have hmono : s.accepted ⊆ s'.accepted :=
    List.map_subset _ (ArrayBlockingQueue.accepted_subset ht)
  refine ⟨fun c val hl hpc => ?_, fun c hret hrej => ?_⟩
  · rw [hcalls] at hl
    by_cases hth : .inl c = b.thread
    · cases b with
      | call t op =>
          cases hth
          cases op <;> simp [apiAllowed] at hb
      | callClose t | leave t =>
          cases hth
          simp [apiAllowed] at hb
      | spurious t =>
          rw [(ArrayBlockingQueue.pc_of_spurious ht).1] at hpc
          exact hmono (h.sending c val hl hpc)
      | step t w =>
          cases hth
          have hcr := ho.creator c
          rw [CreatorOk, if_pos hl] at hcr
          have hdone := (ArrayBlockingQueue.pc_of_step ht).2
          rcases hcr with hr | ⟨v, hv⟩ | ⟨⟨v, hv⟩, -⟩
          · rcases ArrayBlockingQueue.put_step ht hr with ⟨hr', -⟩ | ⟨-, he⟩ | ⟨hd, -⟩
            · simp [hpc, ArrayBlockingQueue.Pc.runs] at hr'
            · simp [State.accepted, he]
            · simp [hpc] at hd
          · exact absurd hv (hdone _)
          · exact absurd hv (hdone _)
    · rw [ArrayBlockingQueue.pc_of_ne ht hth] at hpc
      exact hmono (h.sending c val hl hpc)
  · rw [hcalls] at hret hrej
    exact hmono (h.returned c hret hrej)

/-- No step on a slot returns it, except when its creator has failed it. -/
theorem CallTrans.returned {c : ℕ} {call call' : Call τ} {slot slot' : BaseSlot (Actor τ)}
    {b : CallAct τ} (ht : CallTrans c call slot b call' slot') (hc : Completion call)
    (hret : call'.life.returned = true) (hrej : call'.rejected = false) :
    call.life.returned = true ∧ call.rejected = false := by
  cases ht with
  | failError hl => simp [Life.returned] at hret
  | failState hl =>
      have hfail := (hc.failing (by simp [hl, Life.failing])).1
      exact absurd hrej (by simp [hfail])
  | dispose hl ha | load hl | abandon hl => exact ⟨by simp [hl, Life.returned], hrej⟩
  | _ => exact ⟨hret, hrej⟩

theorem Admitted.trans (h : Admitted s) (hi : Inv s) (ht : Trans s a s') : Admitted s' := by
  cases ht with
  | create he hb =>
      exact h.setCall rfl rfl (by simp [Call.create]) (by simp [Call.create, Life.returned])
  | @allocate c n err hl hp =>
      exact h.setCall rfl rfl (by cases err <;> simp [Call.allocated])
        (by cases err <;> simp [Call.allocated, Life.returned])
  | @enqueue c q hl hq =>
      have hgoto : q = s.api.goto (.inl c) (.check (.put ((s.slot c).tag, c))) := by
        cases ArrayBlockingQueue.trans_of_step hq
        rfl
      subst hgoto
      exact h.byCreator rfl (by simp +contextual) rfl (by simp) (by simp [Life.returned])
  | api hb hq => exact h.api hi.api hb (ArrayBlockingQueue.trans_of_step hq) rfl
  | sentOk hl hp =>
      exact h.byCreator rfl (by simp +contextual) rfl (by simp) fun _ _ => h.sending _ _ hl hp
  | sentClosed hl hp =>
      exact h.byCreator rfl (by simp +contextual) rfl (by simp)
        (by simp [Call.refused, Life.returned])
  | call ht hr =>
      exact h.setCall rfl rfl ht.sameSending.sending.mp (ht.returned (hi.calls _).completion)
  | track hl ho | trackClosed hl ho =>
      exact h.setCall rfl rfl (by simp) fun _ hrej => ⟨by simp [hl, Life.returned], hrej⟩
  | cleanup hl | deallocate hl | count hl =>
      exact h.setCall rfl rfl (by simp) fun _ hrej => ⟨by simp [hl, Life.returned], hrej⟩
  | testDone hg hterm =>
      have hl : (s.calls _).life = .orphaned := hi.gc.attempt _ _ .test hg
      exact h.setCall rfl rfl (by simp) fun _ hrej => ⟨by simp [hl, Life.returned], hrej⟩
  | release hg =>
      exact h.keep (by simp) (by simp) (by simpa using fun _ hret hrej => ⟨hret, hrej⟩)
  | _ => exact h.keep rfl (fun _ => id) fun _ hret hrej => ⟨hret, hrej⟩

theorem undispatched_of_reachable
    (h : (system : Scheduled (State τ ρ) (Act τ ρ)).Reachable s) : Undispatched s :=
  h.invariant (by simp [Undispatched, system, initial, BaseSlot.new])
    fun _ _ _ _ hu ht _ => hu.trans (trans_of_step ht)

theorem admitted_of_reachable
    (h : (system : Scheduled (State τ ρ) (Act τ ρ)).Reachable s) : Admitted s :=
  h.invariant admitted_initial fun _ _ _ hs hadm ht _ =>
    hadm.trans (inv_of_reachable hs) (trans_of_step ht)

/-- A call which was sent and not completed has a pending slot. -/
theorem pending_of_not_completed (h : (system : Scheduled (State τ ρ) (Act τ ρ)).Reachable s)
    {r : CallTag × ℕ} (hsent : s.Sent r) (hc : (s.calls r.2).completed = false) :
    s.Pending r := by
  have hi := inv_of_reachable h
  have hlive : (s.calls r.2).life.live = true := by
    by_contra hdead
    have hcomp := hi.completed_of_dead (by simpa using hdead) hsent.1
    simp [hcomp] at hc
  have hcoh := hi.coh r.2 hlive
  refine ⟨(hi.pool _ _).mpr ⟨hlive, rfl⟩, ?_, hcoh.tag.trans hsent.2.symm⟩
  have hterm := hcoh.terminal.trans hc
  have hdis := undispatched_of_reachable h (s.calls r.2).addr
  cases hstate : (s.slot r.2).state with
  | pending => rfl
  | dispatched => exact absurd hstate hdis
  | success | error => simp [hstate, isTerminal] at hterm

/-- Until the Raft side comes to it, an accepted call has a pending slot. -/
theorem pending_of_idle (h : (system : Scheduled (State τ ρ) (Act τ ρ)).Reachable s)
    {r : CallTag × ℕ} (hr : r ∈ s.api.accepted) (hidle : (s.calls r.2).raft = .idle) :
    s.Pending r := by
  have hi := inv_of_reachable h
  have hrej : (s.calls r.2).rejected = false := by
    by_contra hrej
    exact hi.api.rejected _ (by simpa using hrej) (List.mem_map_of_mem hr)
  exact pending_of_not_completed h (hi.api.supplied.accepted r hr)
    ((hi.calls r.2).completion.quiet hrej (.inl hidle)).2

/-- The Raft side comes to a call only after it has taken its record. -/
theorem raft_of_trans (ht : Trans s a s') {c : ℕ} (hc : (s'.calls c).raft ≠ .idle) :
    (s.calls c).raft ≠ .idle ∨ c ∈ s.taken := by
  have hupd {d : ℕ} {call : Call τ}
      (hd : call.raft ≠ .idle → (s.calls d).raft ≠ .idle ∨ d ∈ s.taken)
      (hne : (Function.update s.calls d call c).raft ≠ .idle) :
      (s.calls c).raft ≠ .idle ∨ c ∈ s.taken := by
    by_cases hcd : c = d
    · subst hcd
      exact hd (by simpa using hne)
    · exact .inl (by simpa [hcd] using hne)
  cases ht with
  | create he hb => exact hupd (by simp [Call.create, Call.unborn]) hc
  | @allocate d n err hl hp => exact hupd (by cases err <;> exact .inl) hc
  | call ht hr => exact hupd (fun hne => (ht.raft_ne_idle hne).imp_right hr) hc
  | enqueue hl hq | cleanup hl | deallocate hl | count hl =>
      refine hupd ?_ hc
      exact .inl
  | sentOk hl hp | sentClosed hl hp | track hl hp | trackClosed hl hp | testDone hl hp =>
      refine hupd ?_ hc
      exact .inl
  | release hg => exact .inl (by simpa using hc)
  | _ => exact .inl hc

omit [DecidableEq τ] in
/-- Two records of one call are the same. -/
theorem ApiOk.record_inj (h : ApiOk s) {r r' : CallTag × ℕ} (hr : r ∈ s.api.accepted)
    (hr' : r' ∈ s.api.accepted) (he : r.2 = r'.2) : r = r' :=
  List.inj_on_of_nodup_map h.supplied.nodup hr hr' he

theorem accepted_subset (ht : Trans s a s') : s.api.accepted ⊆ s'.api.accepted := by
  cases ht with
  | enqueue hl hq | api hl hq =>
      exact ArrayBlockingQueue.accepted_subset (ArrayBlockingQueue.trans_of_step hq)
  | release hg => simp
  | _ => exact List.Subset.refl _

/-- A record which had not left the queue before a step names a pending slot
behind it, also if the step takes it out or has just put it in. -/
theorem pending_of_step (h : (system : Scheduled (State τ ρ) (Act τ ρ)).Reachable s)
    (hs : step s a = some s') {r : CallTag × ℕ} (hr : r ∈ s'.api.accepted)
    (hn : r ∉ s.api.delivered) : s'.Pending r := by
  have h' := h.next hs
  have hi := inv_of_reachable h
  have hi' := inv_of_reachable h'
  refine pending_of_idle h' hr ?_
  by_contra hne
  have htaken : r.2 ∈ s.taken :=
    (raft_of_trans (trans_of_step hs) hne).elim (hi.api.taken _) id
  obtain ⟨r', hr', he⟩ := List.mem_map.mp htaken
  have hpre : s.api.delivered <+: s.api.accepted :=
    ⟨_, ArrayBlockingQueue.delivered_append_contents (by decide) hi.api.reach⟩
  have hmem' : r' ∈ s'.api.accepted := accepted_subset (trans_of_step hs) (hpre.subset hr')
  exact hn (hi'.api.record_inj hr hmem' he.symm ▸ hr')

end Steps

/-- Thread `r` of the Raft side closes the API queue. -/
def closeRun (r : Fin 2) : List (Act (Fin 2) (Fin 2)) :=
  [Act.api (.callClose (.inr r))] ++ List.replicate 5 (Act.api (.step (.inr r) none))

/-- Call 1 is refused by the closed queue and failed. -/
def refuseRun : List (Act (Fin 2) (Fin 2)) :=
  [.create .stats none none, .allocate 1 0, .enqueue 1, .api (.step (.inl 1) none), .sent 1,
    .call 1 .fail, .call 1 .fail]

end Libraft.Pool
