import Libraft.Fsm.Answering

/-!
# The FSM worker refines the sequential state machine

The specification is a machine which runs one callback after the other, in the
order in which the requests entered the queue. When every request passes the
dispatchers' assertions and every log entry is a command, the invocations of
the worker are a prefix of the accepted requests, each sees the state left by
the requests ahead of it, and each slot is answered with its own result.
-/

namespace Libraft.Fsm

open Libraft.Foundation Libraft.Calls
open Libraft.Queue

variable {S ι : Type*}

/-- The state of the client after a sequence of callbacks. -/
def replay (client : Client S) (fsm : S) (callbacks : List Callback) : S :=
  callbacks.foldl (fun fsm cb => (cb.run client fsm).1) fsm

theorem replay_concat (client : Client S) (fsm : S) (callbacks : List Callback) (cb : Callback) :
    replay client fsm (callbacks ++ [cb]) = (cb.run client (replay client fsm callbacks)).1 := by
  simp [replay]

theorem replay_append (client : Client S) (fsm : S) (callbacks callbacks' : List Callback) :
    replay client fsm (callbacks ++ callbacks') =
      replay client (replay client fsm callbacks) callbacks' :=
  List.foldl_append

/-- The callbacks of the requests which entered the queue, in order. -/
def State.requested (client : Client S) (s : State S ι) : List (ℕ × Callback) :=
  s.queue.accepted.map fun r => (r.2, (s.slots r.2).request.callback client r.2)

theorem State.requested_eq (client : Client S) (s : State S ι) :
    s.requested client = (s.queue.accepted.map Prod.snd).map fun k =>
      (k, (s.slots k).request.callback client k) := by
  rw [List.map_map]
  rfl

/-- What a slot has to hold once its own invocation has been answered. -/
def Served (client : Client S) (e : Invocation S) (slot : Slot) : Prop :=
  match slot.request with
  | .apply log =>
      slot.base.retval = (client.apply e.seen log.index log.term log.logType
        (client.addressOf log.dataBuf) log.dataLen).2 ∧
      slot.base.error = .success ∧ slot.base.state = .success
  | .restore path =>
      (slot.base.error = .success ↔ (client.restore e.seen path).2 = 0) ∧
      slot.base.state = slot.base.error.finalState
  | .snapshot _ => True

/-- Only requests with the given property are sent. -/
def Act.Sends (P : Request → Prop) : Act ι → Prop
  | .send _ req => P req
  | _ => True

instance (P : Request → Prop) [DecidablePred P] : DecidablePred (Act.Sends P : Act ι → Prop) :=
  fun a =>
    match a with
    | .send _ req => inferInstanceAs (Decidable (P req))
    | .queue _ | .worker _ | .wait _ | .waitStep _ | .waitWake _ => isTrue trivial
    | .complete _ _ | .completeStep _ _ => isTrue trivial

/-- What is true of every request sent is true of every slot. -/
theorem request_of_reach [DecidableEq ι] {client : Client S} {fsm : S} {s : State S ι}
    {P : Request → Prop} (h : (system client fsm).Reach (fun _ a _ => a.Sends P) s) :
    ∀ k < s.next, P (s.slots k).request := by
  refine h.invariant (I := fun s => ∀ k < s.next, P (s.slots k).request)
    (by simp [system, initial]) ?_
  intro s a s' _ ih hstep hsend k hk
  have ht := trans_of_step hstep
  have hold (hlt : k < s.next) : P (s'.slots k).request := by
    rw [request_of_trans ht hlt]
    exact ih k hlt
  cases ht with
  | send hs =>
      rcases Nat.lt_succ_iff_lt_or_eq.mp hk with hlt | rfl
      · exact hold hlt
      · simpa [Slot.new, Act.Sends] using hsend
  | _ => exact hold hk

/-- Each callback starts where the one before it has ended. -/
structure Sequential (client : Client S) (fsm : S) (s : State S ι) : Prop where
  seen : ∀ pre e post, s.invoked = pre ++ e :: post →
    e.seen = replay client fsm (pre.map Invocation.callback)
  running : ∀ k cb, s.worker = .running k cb → ∃ pre, s.invoked = pre ++ [⟨k, s.fsm, cb⟩]
  resting : (∀ k cb, s.worker ≠ .running k cb) →
    s.fsm = replay client fsm (s.invoked.map Invocation.callback)

section Sequential
variable [DecidableEq ι] {client : Client S} {fsm : S} {s s' : State S ι} {a : Act ι}

omit [DecidableEq ι] in
theorem sequential_initial (client : Client S) (fsm : S) :
    Sequential client fsm (initial fsm : State S ι) :=
  ⟨by simp [initial], by simp [initial], by simp [initial, replay]⟩

omit [DecidableEq ι] in
/-- A step outside the client's functions. -/
theorem Sequential.keep (h : Sequential client fsm s) (hf : s'.fsm = s.fsm)
    (hi : s'.invoked = s.invoked)
    (hw : s'.worker = s.worker ∨
      (∀ k cb, s.worker ≠ .running k cb) ∧ ∀ k cb, s'.worker ≠ .running k cb) :
    Sequential client fsm s' := by
  refine ⟨hi ▸ h.seen, ?_, ?_⟩
  · rw [hf, hi]
    rcases hw with hw | hw
    · exact hw ▸ h.running
    · exact fun k cb hk => absurd hk (hw.2 k cb)
  · rw [hf, hi]
    rcases hw with hw | hw
    · exact hw ▸ h.resting
    · exact fun _ => h.resting hw.1

omit [DecidableEq ι] in
/-- The client's function returns and leaves the state `fsm'` behind. -/
theorem Sequential.returned (h : Sequential client fsm s) {k : ℕ} {cb : Callback}
    (hwk : s.worker = .running k cb) (hf : s'.fsm = (cb.run client s.fsm).1)
    (hi : s'.invoked = s.invoked) (hw : ∀ k cb, s'.worker ≠ .running k cb) :
    Sequential client fsm s' := by
  obtain ⟨pre, hpre⟩ := h.running k cb hwk
  have hseen : s.fsm = replay client fsm (pre.map Invocation.callback) :=
    h.seen pre ⟨k, s.fsm, cb⟩ [] hpre
  refine ⟨hi ▸ h.seen, fun k cb hk => absurd hk (hw k cb), fun _ => ?_⟩
  calc s'.fsm = (cb.run client s.fsm).1 := hf
    _ = (cb.run client (replay client fsm (pre.map Invocation.callback))).1 := by rw [← hseen]
    _ = replay client fsm (s'.invoked.map Invocation.callback) := by
        rw [hi, hpre, List.map_append, List.map_singleton, replay_concat]

omit [DecidableEq ι] in
theorem Sequential.invoke (h : Sequential client fsm s) {k : ℕ} {cb : Callback}
    (hwk : s.worker = .invoke k cb) :
    Sequential client fsm
      { s with invoked := s.invoked ++ [⟨k, s.fsm, cb⟩], worker := .running k cb } := by
  have hfsm := h.resting (by simp [hwk])
  refine ⟨fun pre e post hsplit => ?_, fun j cb' hj => ?_, fun hno => absurd rfl (hno k cb)⟩
  · rcases List.eq_nil_or_concat post with rfl | ⟨post', e', rfl⟩
    · obtain ⟨hpre, he⟩ := List.append_inj' hsplit rfl
      rw [← hpre, ← (List.singleton_inj.mp he)]
      exact hfsm
    · have hsplit' : s.invoked ++ [⟨k, s.fsm, cb⟩] = (pre ++ e :: post') ++ [e'] := by
        simpa using hsplit
      exact h.seen pre e post' (List.append_inj' hsplit' rfl).1
  · obtain ⟨rfl, rfl⟩ : k = j ∧ cb = cb' := by simpa using hj
    exact ⟨s.invoked, rfl⟩

theorem Sequential.trans (h : Sequential client fsm s) (ht : Trans client s a s') :
    Sequential client fsm s' := by
  cases ht with
  | send hs | queue ha hs | other hq hc => exact h.keep rfl rfl (.inl rfl)
  | invoke hwk => exact h.invoke hwk
  | returnReply hwk hr | returnQuiet hwk hr => exact h.returned hwk (by simp [hr]) rfl (by simp)
  | taken hwk | closed hwk => exact h.keep rfl rfl (.inr (by simp [hwk]))
  | lock hwk | abort hwk => exact h.keep rfl rfl (.inr (by simp [hwk]))
  | call hwk | skip hwk => exact h.keep rfl rfl (.inr (by simp [hwk]))
  | reply hwk | replied hwk => exact h.keep rfl rfl (.inr (by simp [hwk]))
  | unlock hwk => exact h.keep rfl rfl (.inr (by simp [hwk]))

omit [DecidableEq ι] in
/-- What an invocation has left behind is where the later ones have begun. -/
theorem Sequential.after (h : Sequential client fsm s) {pre post : List (Invocation S)}
    {e : Invocation S} (hsplit : s.invoked = pre ++ e :: post)
    (hno : ∀ cb, s.worker ≠ .running e.slot cb) :
    ∃ later, s.fsm = replay client (e.callback.run client e.seen).1 later := by
  have hrun : (e.callback.run client e.seen).1 =
      replay client fsm ((pre ++ [e]).map Invocation.callback) := by
    rw [List.map_append, List.map_singleton, replay_concat, h.seen pre e post hsplit]
  have hlater (post' : List (Invocation S)) :
      replay client fsm ((pre ++ e :: post').map Invocation.callback) =
        replay client (e.callback.run client e.seen).1 (post'.map Invocation.callback) := by
    rw [hrun, ← replay_append, ← List.map_append, List.append_assoc, List.singleton_append]
  by_cases hw : ∃ k cb, s.worker = .running k cb
  · obtain ⟨k, cb, hk⟩ := hw
    obtain ⟨pre', hpre'⟩ := h.running k cb hk
    have hseen := h.seen pre' ⟨k, s.fsm, cb⟩ [] hpre'
    rcases List.eq_nil_or_concat post with rfl | ⟨post', e', rfl⟩
    · have hlast := (List.append_inj' (hsplit.symm.trans hpre') rfl).2
      obtain rfl : e = ⟨k, s.fsm, cb⟩ := List.singleton_inj.mp hlast
      exact absurd hk (hno cb)
    · have hsplit' : (pre ++ e :: post') ++ [e'] = pre' ++ [⟨k, s.fsm, cb⟩] := by
        simpa using hsplit.symm.trans hpre'
      obtain rfl := (List.append_inj' hsplit' rfl).1
      exact ⟨_, hseen.trans (hlater post')⟩
  · have hrest := h.resting fun k cb hk => hw ⟨k, cb, hk⟩
    exact ⟨_, hrest.trans (hsplit ▸ hlater post)⟩

end Sequential

/-- The slot which has left the queue and for which no function has been called. -/
def State.uncalled (s : State S ι) : Option ℕ :=
  match s.worker with
  | .take => (s.queue.pc none).inHand.map Prod.snd
  | .lock _ k | .dispatch _ k | .invoke k _ => some k
  | .running _ _ | .replying _ _ | .unlock _ | .stopped | .aborted => none

/-- The slots for which a function has been called or is going to be called next,
in order. -/
def State.called (s : State S ι) : List ℕ :=
  s.invoked.map Invocation.slot ++ s.uncalled.toList

/-- What a step does to these slots: it leaves them alone, the worker takes the
next one from the queue, or it drops the one in its hands, whose request does not
come to a function of the client. -/
inductive CallStep (s s' : State S ι) : Prop
  | keep (hc : s'.called = s.called) (hd : s'.queue.delivered = s.queue.delivered)
  | take (r : CallTag × ℕ) (hc : s'.called = s.called ++ [r.2])
      (hd : s'.queue.delivered = s.queue.delivered ++ [r])
  | drop (k : ℕ) (hk : k < s.next) (hreq : ¬ (s.slots k).request.ReachesClient)
      (hc : s.called = s'.called ++ [k]) (hd : s'.queue.delivered = s.queue.delivered)

section Called
variable [DecidableEq ι] {client : Client S} {fsm : S} {s s' : State S ι} {a : Act ι}

theorem callStep_of_queue (hw : Wired s)
    {q : ArrayBlockingQueue.State (CallTag × ℕ) (Option ι)}
    {b : ArrayBlockingQueue.Act (CallTag × ℕ) (Option ι)}
    (ha : queueAllowed s.worker b = true)
    (hs : ArrayBlockingQueue.step callQueueCapacity s.queue b = some q) :
    CallStep s { s with queue := q } := by
  rcases hw.consumer_step ha (ArrayBlockingQueue.trans_of_step hs) with
    ⟨hdel, hin⟩ | ⟨r, htake, hnone, hin, hdel⟩
  · exact .keep (by simp only [State.called, State.uncalled, hin]) hdel
  · exact .take r (by simp [State.called, State.uncalled, htake, hnone, hin]) hdel

theorem callStep_of_trans (hw : Wired s) (htr : Tracked client s) (ht : Trans client s a s') :
    CallStep s s' := by
  cases ht with
  | send hs =>
      have hq := ArrayBlockingQueue.trans_of_step hs
      have hpc := ArrayBlockingQueue.pc_of_ne (u := none) hq
        (by simp [ArrayBlockingQueue.Act.thread])
      exact .keep (by simp only [State.called, State.uncalled, hpc])
        (ArrayBlockingQueue.delivered_of_ne hq hw.consumer
          (by simp [ArrayBlockingQueue.Act.thread]))
  | queue ha hs => exact callStep_of_queue hw ha hs
  | taken hwk hp | closed hwk hp =>
      exact .keep (by simp [State.called, State.uncalled, hwk, hp, ArrayBlockingQueue.Pc.inHand])
        rfl
  | @abort w tag k base hwk hbad hb =>
      have hsent := hw.sent_of_dispatch hwk
      have hpending := (htr.fresh_of_dispatch hw hwk).state
      exact .drop k hsent.1 (fun h => hbad hpending hsent.2 h.passes)
        (by simp [State.called, State.uncalled, hwk]) rfl
  | @skip w k log hwk hp hr htype =>
      exact .drop k (hw.sent_of_dispatch hwk).1 (fun h => h.not_skipped ⟨log, hr, htype⟩)
        (by simp [State.called, State.uncalled, hwk]) rfl
  | lock hwk | call hwk | invoke hwk | returnReply hwk | reply hwk | replied hwk =>
      exact .keep (by simp [State.called, State.uncalled, hwk]) rfl
  | returnQuiet hwk | unlock hwk =>
      have hidle := hw.away (by simp [hwk])
      exact .keep
        (by simp [State.called, State.uncalled, hwk, hidle, ArrayBlockingQueue.Pc.inHand]) rfl
  | other hq hc => exact .keep rfl rfl

/-- Functions are called in the order of the queue. -/
theorem called_sublist_of_reach {guard : State S ι → Act ι → State S ι → Prop}
    (h : (system client fsm).Reach guard s) :
    s.called.Sublist (s.queue.delivered.map Prod.snd) := by
  refine h.invariant (I := fun s => s.called.Sublist (s.queue.delivered.map Prod.snd))
    (List.Sublist.refl _) ?_
  intro s a s' hs ih hstep _
  cases callStep_of_trans (wired_of_reach hs) (tracked_of_reach hs) (trans_of_step hstep) with
  | keep hc hd => rwa [hc, hd]
  | take r hc hd =>
      rw [hc, hd, List.map_append, List.map_singleton]
      exact ih.append (List.Sublist.refl _)
  | drop k hk hreq hc hd =>
      rw [hd]
      exact (hc ▸ List.sublist_append_left s'.called [k]).trans ih

/-- If every request comes to the client, functions are called for everything
which has left the queue. -/
theorem called_eq_of_reach
    (h : (system client fsm).Reach (fun _ a _ => a.Sends Request.ReachesClient) s) :
    s.called = s.queue.delivered.map Prod.snd := by
  refine h.invariant (I := fun s => s.called = s.queue.delivered.map Prod.snd) rfl ?_
  intro s a s' hs ih hstep _
  cases callStep_of_trans (wired_of_reach hs) (tracked_of_reach hs) (trans_of_step hstep) with
  | keep hc hd => rw [hc, hd, ih]
  | take r hc hd => rw [hc, hd, ih, List.map_append, List.map_singleton]
  | drop k hk hreq hc hd => exact absurd (request_of_reach hs k hk) hreq

theorem sequential_of_reach {guard : State S ι → Act ι → State S ι → Prop}
    (h : (system client fsm).Reach guard s) : Sequential client fsm s :=
  h.invariant (sequential_initial client fsm) fun _ _ _ _ hq hstep _ =>
    hq.trans (trans_of_step hstep)

omit [DecidableEq ι] in
/-- The invocations so far are the callbacks of their slots. -/
theorem Tracked.invoked_eq (ht : Tracked client s) :
    (s.invoked.map fun e => (e.slot, e.callback)) =
      (s.invoked.map Invocation.slot).map fun k =>
        (k, (s.slots k).request.callback client k) := by
  rw [List.map_map]
  apply List.map_congr_left
  intro e he
  simp [(ht.own e he).2]

omit [DecidableEq ι] in
/-- The answer which an invocation is owed is what its slot has to hold. -/
theorem served_of_owed {k : ℕ} {slot : Slot} {first : Reply}
    (ho : Owed client s.invoked k slot.request first) (hf : first.Finished slot.base) :
    ∃ e ∈ s.invoked, e.slot = k ∧ Served client e slot := by
  obtain ⟨e, he, hk, hcb, hrun⟩ := ho
  refine ⟨e, he, hk, ?_⟩
  obtain ⟨hstate, hstores⟩ := hf
  unfold Served
  cases hr : slot.request with
  | apply log =>
      rw [hcb, hr] at hrun
      obtain rfl := Option.some.inj hrun
      rcases hstores with h | ⟨h, herr⟩
      · cases h
      · exact ⟨(Reply.retval.inj h).symm, herr, by rw [hstate, herr]; rfl⟩
  | snapshot path => trivial
  | restore path =>
      rw [hcb, hr] at hrun
      obtain rfl := Option.some.inj hrun
      rcases hstores with h | ⟨h, -⟩
      · refine ⟨?_, hstate⟩
        rw [← Reply.error.inj h]
        by_cases hz : (client.restore e.seen path).2 = 0
        · simp [hz]
        · simp [hz]
      · cases h

/-- The invocations so far are in the order of the requested callbacks. -/
theorem invoked_sublist_of_reach {guard : State S ι → Act ι → State S ι → Prop}
    (h : (system client fsm).Reach guard s) :
    (s.invoked.map fun e => (e.slot, e.callback)).Sublist (s.requested client) := by
  have hw : Wired s := wired_of_reach h
  have hslots : (s.invoked.map Invocation.slot).Sublist (s.queue.accepted.map Prod.snd) :=
    ((List.sublist_append_left _ _).trans (called_sublist_of_reach h)).trans
      (hw.delivered_prefix.map Prod.snd).sublist
  rw [(tracked_of_reach h).invoked_eq, s.requested_eq]
  exact hslots.map _

/-- A processed command is answered with the result of its own invocation. -/
theorem served_of_command (h : (system client fsm).Reachable s) {k : ℕ} {log : LogEntry}
    (hlog : (s.slots k).request = .apply log) (htype : log.logType = .command)
    (hp : (s.slots k).processed = true) :
    ∃ e ∈ s.invoked, e.slot = k ∧ Served client e (s.slots k) := by
  have ht : Tracked client s := tracked_of_reach h
  have hne : s.worker.engaged ≠ some k := fun hk => by
    simp [((wired_of_reach h).hand k (hand_of_engaged hk)).2] at hp
  rcases (ht.resting k hne).ended hp with ⟨path, hpath⟩ | hun | han
  · simp [hlog] at hpath
  · obtain ⟨log', hlog', hother⟩ := hun.skipped
    rw [hlog, Request.apply.injEq] at hlog'
    exact absurd (hlog' ▸ htype) hother
  · obtain ⟨first, howed, hf⟩ := han.own
    exact served_of_owed howed hf

theorem served_of_reach
    (h : (system client fsm).Reach (fun _ a _ => a.Sends Request.ReachesClient) s) {k : ℕ}
    (hp : (s.slots k).processed = true) :
    ∃ e ∈ s.invoked, e.slot = k ∧ Served client e (s.slots k) := by
  have hw : Wired s := wired_of_reach h
  have ht : Tracked client s := tracked_of_reach h
  have hmem := hw.processed k hp
  have hreq := request_of_reach h k (hw.lt_of_delivered hmem)
  have hne : s.hand ≠ some k := fun hk => by simp [(hw.hand k hk).2] at hp
  have hinv : k ∈ s.invoked.map Invocation.slot := by
    rw [← called_eq_of_reach h, State.called, List.mem_append] at hmem
    refine hmem.resolve_right fun hu => hne ?_
    have hu' : s.uncalled = some k := by simpa [Option.mem_toList] using hu
    cases hwk : s.worker <;> simp_all [State.uncalled, State.hand]
  rcases (ht.resting k fun hk => hne (hand_of_engaged hk)).ended hp with ⟨path, hpath⟩ | hun | han
  · obtain ⟨e, he, rfl⟩ := List.mem_map.mp hinv
    exact ⟨e, he, rfl, by simp [Served, hpath]⟩
  · exact absurd hun.skipped hreq.not_skipped
  · obtain ⟨first, howed, hf⟩ := han.own
    exact served_of_owed howed hf

/-- The invocations are a prefix of the requests which entered the queue, with
the arguments stored in the slots and each at most once; each sees the state
which the requests ahead of it have produced; between two invocations the
client's state is the one produced so far; and every processed slot is
answered with the result of its own invocation. -/
theorem fsm_worker_refines_sequential_machine (client : Client S) (fsm : S)
    (h : (system client fsm).Reach (fun _ a _ => a.Sends Request.ReachesClient) s) :
    (s.invoked.map fun e => (e.slot, e.callback)) <+: s.requested client ∧
    (s.invoked.map Invocation.slot).Nodup ∧
    (∀ pre e post, s.invoked = pre ++ e :: post →
      e.seen = replay client fsm (((s.requested client).take pre.length).map Prod.snd)) ∧
    ((∀ k cb, s.worker ≠ .running k cb) →
      s.fsm = replay client fsm (((s.requested client).take s.invoked.length).map Prod.snd)) ∧
    ∀ k, (s.slots k).processed = true →
      ∃ e ∈ s.invoked, e.slot = k ∧ Served client e (s.slots k) := by
  have hw : Wired s := wired_of_reach h
  have ht : Tracked client s := tracked_of_reach h
  have hs : Sequential client fsm s := sequential_of_reach h
  have hcalled := called_eq_of_reach h
  have hnodup : s.called.Nodup := hcalled ▸ hw.nodup_delivered
  have hpre : (s.invoked.map fun e => (e.slot, e.callback)) <+: s.requested client := by
    have hslots : s.invoked.map Invocation.slot <+: s.queue.accepted.map Prod.snd :=
      .trans ⟨_, hcalled⟩ (hw.delivered_prefix.map Prod.snd)
    rw [ht.invoked_eq, s.requested_eq]
    exact hslots.map _
  -- the callbacks invoked for the first requests are those requests' callbacks
  have htake {pre post : List (Invocation S)} (hsplit : s.invoked = pre ++ post) :
      pre.map Invocation.callback =
        ((s.requested client).take pre.length).map Prod.snd := by
    have hp : (pre.map fun e => (e.slot, e.callback)) <+: s.requested client := by
      refine .trans ⟨post.map fun e => (e.slot, e.callback), ?_⟩ hpre
      rw [hsplit, List.map_append]
    have heq := List.prefix_iff_eq_take.mp hp
    rw [List.length_map] at heq
    rw [← heq, List.map_map]
    rfl
  refine ⟨hpre, (List.nodup_append.mp hnodup).1, fun pre e post hsplit => ?_, fun hno => ?_,
    fun k hp => served_of_reach h hp⟩
  · rw [hs.seen pre e post hsplit, htake hsplit]
  · rw [hs.resting hno, htake (List.append_nil _).symm]

end Called

/-- Two commands, a snapshot and a restore are sent and processed: the second
command is answered with the count left by the first, and the snapshot sees
both commands. -/
theorem fsm_worker_refines_sequential_machine_counter :
    ∃ s : State ℕ Unit, (s.slots 3).processed = true ∧
      (s.invoked.map fun e => (e.slot, e.callback)) <+: s.requested counter ∧
      (s.invoked.map fun e => (e.slot, e.seen)) = [(0, 0), (1, 1), (2, 2), (3, 2)] := by
  have hinit : (system counter 0).Reach (fun _ a _ => a.Sends Request.ReachesClient)
      (initial 0 : State ℕ Unit) := .init
  obtain ⟨s, hs, hp, hseen⟩ := hinit.exists_of_run
    (sendRun (.apply ⟨1, 1, .command, 64, 8⟩) ++ sendRun (.apply ⟨2, 1, .command, 72, 8⟩) ++
      workerRun 10 ++ sendRun (.snapshot [115]) ++ workerRun 10 ++
      sendRun (.restore [115]) ++ workerRun 4 ++ workerRun 9)
    (by decide +kernel)
    (fun s => (s.slots 3).processed = true ∧
      (s.invoked.map fun e => (e.slot, e.seen)) = [(0, 0), (1, 1), (2, 2), (3, 2)]) (by decide)
  exact ⟨s, hp, (fsm_worker_refines_sequential_machine counter 0 hs).1, hseen⟩

end Libraft.Fsm
