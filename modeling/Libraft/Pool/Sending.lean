import Libraft.Pool.Transitions

/-!
# Calls in the API queue

`send_request` puts the record of a call into the API queue once, and fails
the call only if the queue has refused the record. The Raft side works only on
calls whose record it has taken out of the queue.
-/

namespace Libraft.Pool

open Libraft.Foundation Libraft.Calls
open Libraft.Queue

variable {τ ρ : Type*}

/-- The stages in which a call has not been given to the API queue. -/
def Life.unsent : Life → Bool
  | .unborn | .creating (.allocate _) | .creating .enqueue => true
  | _ => false

/-- A record names a call which has been given to the queue, by its own tag. -/
def State.Sent (s : State τ ρ) (r : CallTag × ℕ) : Prop :=
  (s.calls r.2).life.unsent = false ∧ r.1 = (s.calls r.2).tag

/-- The calls which have entered the API queue. -/
def State.accepted (s : State τ ρ) : List ℕ := s.api.accepted.map Prod.snd

/-- What the creating thread of a call does in the API queue. -/
def CreatorOk (s : State τ ρ) (c : ℕ) : Prop :=
  if (s.calls c).life = .creating .sending then
    (s.api.pc (.inl c)).runs (.put ((s.calls c).tag, c)) ∨
      (∃ val, s.api.pc (.inl c) = .done (.putDone val)) ∨
      ((∃ val, s.api.pc (.inl c) = .done (.putClosed val)) ∧ c ∉ s.accepted)
  else s.api.pc (.inl c) = .idle

/-- The API queue, its creators and its records. -/
structure ApiOk [DecidableEq ρ] (s : State τ ρ) : Prop where
  reach : (ArrayBlockingQueue.system callQueueCapacity noRecords).Reachable s.api
  supplied : ArrayBlockingQueue.Supplied Prod.snd s.Sent s.api
  takers : ∀ r val, ¬ (s.api.pc (.inr r)).runs (.put val)
  creator : ∀ c, CreatorOk s c
  rejected : ∀ c, (s.calls c).rejected = true → c ∉ s.accepted
  taken : ∀ c, (s.calls c).raft ≠ .idle → c ∈ s.taken
  born : ∀ c, s.next ≤ c → (s.calls c).life = .unborn

theorem apiOk_initial [DecidableEq ρ] : ApiOk (initial : State τ ρ) where
  reach := .init
  supplied := ArrayBlockingQueue.supplied_initial _
  takers := by simp [initial, ArrayBlockingQueue.initial, ArrayBlockingQueue.Pc.runs]
  creator := by simp [CreatorOk, initial, Call.unborn, ArrayBlockingQueue.initial]
  rejected := by simp [initial, Call.unborn]
  taken := by simp [initial, Call.unborn]
  born := fun _ _ => rfl

section Facts
variable [DecidableEq ρ] {s : State τ ρ}

theorem ApiOk.not_accepted_of_unsent (h : ApiOk s) {c : ℕ}
    (hc : (s.calls c).life.unsent = true) : c ∉ s.accepted := by
  simp only [State.accepted, List.mem_map]
  rintro ⟨r, hr, rfl⟩
  simp [(h.supplied.accepted r hr).1] at hc

/-- What the Raft side works on was accepted. -/
theorem ApiOk.accepted_of_taken (h : ApiOk s) {c : ℕ} (hc : c ∈ s.taken) : c ∈ s.accepted := by
  have hpre : s.api.delivered <+: s.api.accepted :=
    ⟨_, ArrayBlockingQueue.delivered_append_contents (by decide) h.reach⟩
  exact (hpre.map Prod.snd).subset hc

theorem ApiOk.not_rejected_of_taken (h : ApiOk s) {c : ℕ} (hc : c ∈ s.taken) :
    (s.calls c).rejected = false := by
  by_contra hr
  exact h.rejected c (by simpa using hr) (h.accepted_of_taken hc)

theorem ApiOk.sent_of_taken (h : ApiOk s) {c : ℕ} (hc : c ∈ s.taken) :
    (s.calls c).life.unsent = false := by
  by_contra hu
  exact h.not_accepted_of_unsent (by simpa using hu) (h.accepted_of_taken hc)

theorem ApiOk.idle_of_not_accepted (h : ApiOk s) {c : ℕ} (hc : c ∉ s.accepted) :
    (s.calls c).raft = .idle := by
  by_contra hr
  exact hc (h.accepted_of_taken (h.taken c hr))

theorem ApiOk.idle_of_unsent (h : ApiOk s) {c : ℕ} (hc : (s.calls c).life.unsent = true) :
    (s.calls c).raft = .idle :=
  h.idle_of_not_accepted (h.not_accepted_of_unsent hc)

/-- A refused record was not accepted. -/
theorem ApiOk.refused_not_accepted (h : ApiOk s) {c : ℕ}
    (hl : (s.calls c).life = .creating .sending) {val : CallTag × ℕ}
    (hp : s.api.pc (.inl c) = .done (.putClosed val)) : c ∉ s.accepted := by
  have hc := h.creator c
  rw [CreatorOk, if_pos hl, hp] at hc
  rcases hc with hr | ⟨val, hv⟩ | ⟨-, hn⟩
  · simp [ArrayBlockingQueue.Pc.runs] at hr
  · simp at hv
  · exact hn

/-- Every `put` is that of a creating thread, with the record of its own call. -/
theorem ApiOk.creator_of_put (h : ApiOk s) {t : ℕ ⊕ ρ} {val : CallTag × ℕ}
    (hr : (s.api.pc t).runs (.put val)) :
    t = .inl val.2 ∧ (s.calls val.2).life = .creating .sending := by
  cases t with
  | inr r => exact absurd hr (h.takers r val)
  | inl c =>
      have hc := h.creator c
      unfold CreatorOk at hc
      split at hc
      · rename_i hl
        rcases hc with hrun | ⟨v, hv⟩ | ⟨⟨v, hv⟩, -⟩
        · have hval : val = ((s.calls c).tag, c) := by
            rcases hr with he | he | he | he | he | he <;>
              simpa [ArrayBlockingQueue.Pc.runs, he] using hrun
          rw [hval]
          exact ⟨rfl, hl⟩
        · simp [hv, ArrayBlockingQueue.Pc.runs] at hr
        · simp [hv, ArrayBlockingQueue.Pc.runs] at hr
      · simp [hc, ArrayBlockingQueue.Pc.runs] at hr

/-- A call enters the queue by a step of its creating thread. -/
theorem ApiOk.accepted_trans (h : ApiOk s) {s' : State τ ρ}
    {a : ArrayBlockingQueue.Act (CallTag × ℕ) (ℕ ⊕ ρ)}
    (ht : ArrayBlockingQueue.Trans callQueueCapacity s.api a s'.api) {c : ℕ}
    (hc : c ∈ s'.accepted) :
    c ∈ s.accepted ∨ (a.thread = .inl c ∧ (s.calls c).life = .creating .sending) := by
  rcases ArrayBlockingQueue.accepted_cases ht with he | ⟨t, w, val, rfl, hpc, -, he⟩
  · rw [State.accepted, he] at hc
    exact .inl hc
  · rw [State.accepted, he, List.map_append, List.mem_append, List.map_singleton,
      List.mem_singleton] at hc
    rcases hc with hc | rfl
    · exact .inl hc
    · exact .inr (h.creator_of_put (t := t) (by simp [ArrayBlockingQueue.Pc.runs, hpc]))

end Facts

/-- What the API queue has to do with a call does not change. -/
structure SameSending (call call' : Call τ) : Prop where
  sent : call.life.unsent = false → call'.life.unsent = false ∧ call'.tag = call.tag
  sending : call'.life = .creating .sending ↔ call.life = .creating .sending
  rejected : call'.rejected = true → call.rejected = true ∨ call.life.unsent = true

theorem SameSending.refl (call : Call τ) : SameSending call call :=
  ⟨fun h => ⟨h, rfl⟩, .rfl, .inl⟩

/-- Whatever happens after the sending. -/
theorem SameSending.of_life {call call' : Call τ} {life : Life} (hl : call.life = life)
    (hs : life ≠ .creating .sending) (hs' : call'.life ≠ .creating .sending)
    (hu : call'.life.unsent = false) (htag : call'.tag = call.tag)
    (hrej : call'.rejected = call.rejected) : SameSending call call' where
  sent := fun _ => ⟨hu, htag⟩
  sending := by rw [hl]; exact iff_of_false hs' hs
  rejected := by rw [hrej]; exact .inl

section Keep
variable [DecidableEq ρ] {s s' : State τ ρ}

omit [DecidableEq ρ] in
theorem CreatorOk.keep {c : ℕ} (h : CreatorOk s c) (hs : SameSending (s.calls c) (s'.calls c))
    (hpc : s'.api.pc (.inl c) = s.api.pc (.inl c)) (hacc : c ∉ s.accepted → c ∉ s'.accepted) :
    CreatorOk s' c := by
  unfold CreatorOk at h ⊢
  split at h
  · rename_i hl
    rw [if_pos (hs.sending.mpr hl), hpc, (hs.sent (by simp [hl, Life.unsent])).2]
    rcases h with hr | hd | ⟨hd, hn⟩
    · exact .inl hr
    · exact .inr (.inl hd)
    · exact .inr (.inr ⟨hd, hacc hn⟩)
  · rename_i hl
    rw [if_neg (mt hs.sending.mp hl), hpc]
    exact h

/-- A step which leaves the queue alone. -/
theorem ApiOk.keep (h : ApiOk s) (hapi : s'.api = s.api)
    (hs : ∀ c, SameSending (s.calls c) (s'.calls c))
    (hr : ∀ c, (s'.calls c).raft ≠ .idle → (s.calls c).raft ≠ .idle ∨ c ∈ s.taken)
    (hborn : ∀ c, s'.next ≤ c → (s'.calls c).life = .unborn) : ApiOk s' := by
  have hacc : s'.accepted = s.accepted := by rw [State.accepted, hapi, State.accepted]
  have htaken : s'.taken = s.taken := by rw [State.taken, hapi, State.taken]
  refine ⟨hapi ▸ h.reach, ?_, hapi ▸ h.takers, fun c => ?_, fun c hc => ?_, fun c hc => ?_, hborn⟩
  · rw [hapi]
    refine h.supplied.mono fun r hr => ?_
    obtain ⟨hu, htag⟩ := (hs r.2).sent hr.1
    exact ⟨hu, hr.2.trans htag.symm⟩
  · exact (h.creator c).keep (hs c) (by rw [hapi]) (by rw [hacc]; exact id)
  · rw [hacc]
    rcases (hs c).rejected hc with hrej | hun
    · exact h.rejected c hrej
    · exact h.not_accepted_of_unsent hun
  · rw [htaken]
    rcases hr c hc with hraft | hmem
    · exact h.taken c hraft
    · exact hmem

/-- A step of one call which leaves the queue alone. -/
theorem ApiOk.setCall (h : ApiOk s) {c : ℕ} {call : Call τ}
    (hcalls : s'.calls = Function.update s.calls c call) (hapi : s'.api = s.api)
    (hnext : s'.next = s.next) (hs : SameSending (s.calls c) call)
    (hr : call.raft ≠ .idle → (s.calls c).raft ≠ .idle ∨ c ∈ s.taken)
    (hborn : (s.calls c).life = .unborn → call.life = .unborn) : ApiOk s' := by
  refine h.keep hapi (fun d => ?_) (fun d hd => ?_) (fun d hd => ?_)
  · by_cases hdc : d = c
    · subst hdc
      simpa [hcalls] using hs
    · simpa [hcalls, hdc] using SameSending.refl (s.calls d)
  · by_cases hdc : d = c
    · subst hdc
      exact hr (by simpa [hcalls] using hd)
    · exact .inl (by simpa [hcalls, hdc] using hd)
  · have hu := h.born d (hnext ▸ hd)
    by_cases hdc : d = c
    · subst hdc
      simpa [hcalls] using hborn hu
    · simpa [hcalls, hdc] using hu

theorem taken_subset {a : ArrayBlockingQueue.Act (CallTag × ℕ) (ℕ ⊕ ρ)}
    (ht : ArrayBlockingQueue.Trans callQueueCapacity s.api a s'.api) : s.taken ⊆ s'.taken := by
  have hsub : s.api.delivered ⊆ s'.api.delivered := by
    rcases ArrayBlockingQueue.delivered_cases ht with hd | ⟨t, w, val, -, -, -, hd⟩
    · rw [hd]
      exact List.Subset.refl _
    · rw [hd]
      exact List.subset_append_left _ _
  exact List.map_subset _ hsub

/-- A creating thread goes on with its `put`. -/
theorem ApiOk.creator_api (h : ApiOk s) {c : ℕ}
    {a : ArrayBlockingQueue.Act (CallTag × ℕ) (ℕ ⊕ ρ)} (ha : apiAllowed a = true)
    (ht : ArrayBlockingQueue.Trans callQueueCapacity s.api a s'.api)
    (hcalls : s'.calls = s.calls) (hc : .inl c = a.thread) : CreatorOk s' c := by
  have hok := h.creator c
  cases a with
  | call t op =>
      cases hc
      cases op <;> simp [apiAllowed] at ha
  | callClose t | leave t =>
      cases hc
      simp [apiAllowed] at ha
  | spurious t =>
      obtain ⟨hpc, hlog⟩ := ArrayBlockingQueue.pc_of_spurious ht
      refine hok.keep (by rw [hcalls]; exact .refl _) (by rw [hpc]) ?_
      simp only [State.accepted, ArrayBlockingQueue.State.accepted, hlog]
      exact id
  | step t w =>
      cases hc
      obtain ⟨hidle, hdone⟩ := ArrayBlockingQueue.pc_of_step ht
      unfold CreatorOk at hok ⊢
      rw [hcalls]
      split at hok
      · rename_i hl
        rw [if_pos hl]
        rcases hok with hr | ⟨v, hv⟩ | ⟨⟨v, hv⟩, -⟩
        · have hfresh := (h.supplied.pending _ _ hr).2
          rcases ArrayBlockingQueue.put_step ht hr with ⟨hr', -⟩ | ⟨hd, -⟩ | ⟨hd, he⟩
          · exact .inl hr'
          · exact .inr (.inl ⟨_, hd⟩)
          · exact .inr (.inr ⟨⟨_, hd⟩, by rw [State.accepted, he]; exact hfresh⟩)
        · exact absurd hv (hdone _)
        · exact absurd hv (hdone _)
      · exact absurd hok hidle

/-- A step of some thread inside the queue. -/
theorem ApiOk.api (h : ApiOk s) {a : ArrayBlockingQueue.Act (CallTag × ℕ) (ℕ ⊕ ρ)}
    (ha : apiAllowed a = true)
    (hq : ArrayBlockingQueue.step callQueueCapacity s.api a = some s'.api)
    (hcalls : s'.calls = s.calls) (hnext : s'.next = s.next)
    (hrej : ∀ c, (s.calls c).life = .creating .sending → (s.calls c).rejected = false) :
    ApiOk s' := by
  have ht := ArrayBlockingQueue.trans_of_step hq
  have hput : ∀ t val, a ≠ .call t (.put val) := by
    rintro t val rfl
    cases t <;> simp [apiAllowed] at ha
  have hsent : s'.Sent = s.Sent := by
    funext r
    simp [State.Sent, hcalls]
  refine ⟨h.reach.next hq, ?_, fun r val hr => ?_, fun c => ?_, fun c hc hacc => ?_,
    fun c hc => ?_, ?_⟩
  · rw [hsent]
    exact h.supplied.trans ht hput
  · exact h.takers r val ((ArrayBlockingQueue.runs_of_trans ht hr).resolve_right (hput _ _))
  · by_cases hc : .inl c = a.thread
    · exact h.creator_api ha ht hcalls hc
    · refine (h.creator c).keep (by rw [hcalls]; exact .refl _)
        (ArrayBlockingQueue.pc_of_ne ht hc) fun hn hacc => ?_
      rcases h.accepted_trans ht hacc with hold | ⟨hth, -⟩
      · exact hn hold
      · exact hc hth.symm
  · rw [hcalls] at hc
    rcases h.accepted_trans ht hacc with hold | ⟨-, hl⟩
    · exact h.rejected c hc hold
    · simp [hrej c hl] at hc
  · rw [hcalls] at hc
    exact taken_subset ht (h.taken c hc)
  · rw [hcalls, hnext]
    exact h.born

/-- A creating thread enters or leaves the queue. -/
theorem ApiOk.byCreator (h : ApiOk s) {c : ℕ} {call : Call τ}
    {a : ArrayBlockingQueue.Act (CallTag × ℕ) (ℕ ⊕ ρ)}
    (hq : (ArrayBlockingQueue.system callQueueCapacity noRecords).step s.api a = some s'.api)
    (hth : a.thread = .inl c) (hlog : s'.api.log = s.api.log)
    (hcalls : s'.calls = Function.update s.calls c call) (hnext : s'.next = s.next)
    (hsup : ArrayBlockingQueue.Supplied Prod.snd s'.Sent s'.api) (hcr : CreatorOk s' c)
    (hrej : call.rejected = true → c ∉ s.accepted) (hraft : call.raft = (s.calls c).raft)
    (hborn : (s.calls c).life ≠ .unborn) : ApiOk s' := by
  have ht := ArrayBlockingQueue.trans_of_step hq
  have hacc : s'.accepted = s.accepted := by
    simp only [State.accepted, ArrayBlockingQueue.State.accepted, hlog]
  have hsame {d : ℕ} (hd : d ≠ c) : s'.calls d = s.calls d := by
    rw [hcalls, Function.update_of_ne hd]
  refine ⟨h.reach.next hq, hsup, fun r val hr => ?_, fun d => ?_, fun d hd => ?_, fun d hd => ?_,
    fun d hd => ?_⟩
  · refine h.takers r val ((ArrayBlockingQueue.runs_of_trans ht hr).resolve_right ?_)
    rintro rfl
    simp [ArrayBlockingQueue.Act.thread] at hth
  · by_cases hdc : d = c
    · subst hdc
      exact hcr
    · refine (h.creator d).keep (by rw [hsame hdc]; exact .refl _)
        (ArrayBlockingQueue.pc_of_ne ht (by simpa [hth] using hdc)) ?_
      rw [hacc]
      exact id
  · rw [hacc]
    by_cases hdc : d = c
    · subst hdc
      exact hrej (by simpa [hcalls] using hd)
    · exact h.rejected d (hsame hdc ▸ hd)
  · refine taken_subset ht (h.taken d ?_)
    by_cases hdc : d = c
    · subst hdc
      simpa [hcalls, hraft] using hd
    · exact hsame hdc ▸ hd
  · have hb := h.born d (hnext ▸ hd)
    have hdc : d ≠ c := by
      rintro rfl
      exact hborn hb
    rw [hsame hdc]
    exact hb

/-- `queue.put` is called. -/
theorem ApiOk.enqueue (h : ApiOk s) {c : ℕ} (hl : (s.calls c).life = .creating .enqueue)
    (hq : ArrayBlockingQueue.step callQueueCapacity s.api
      (.call (.inl c) (.put ((s.calls c).tag, c))) = some s'.api)
    (hcalls : s'.calls = Function.update s.calls c { s.calls c with life := .creating .sending })
    (hnext : s'.next = s.next) : ApiOk s' := by
  have ht := ArrayBlockingQueue.trans_of_step hq
  have hun : (s.calls c).life.unsent = true := by simp [hl, Life.unsent]
  have hgoto : s'.api = s.api.goto (.inl c) (.check (.put ((s.calls c).tag, c))) := by
    generalize s'.api = q at ht
    cases ht
    rfl
  refine h.byCreator (a := .call (.inl c) (.put ((s.calls c).tag, c))) hq rfl (by rw [hgoto]; rfl)
    hcalls hnext ?_ ?_ (fun _ => h.not_accepted_of_unsent hun) rfl (by simp [hl])
  · refine h.supplied.call ht ⟨by simp [hcalls, Life.unsent], by simp [hcalls]⟩ ?_ ?_
    · rintro r ⟨hu, htag⟩
      have hne : r.2 ≠ c := by
        rintro rfl
        simp [hu] at hun
      exact ⟨by simpa [hcalls, hne] using hu, by simpa [hcalls, hne] using htag⟩
    · rintro r ⟨hu, -⟩ rfl
      simp [hu] at hun
  · rw [CreatorOk, if_pos (by simp [hcalls]), hgoto]
    exact .inl (.inl (by simp [hcalls]))

/-- `queue.put` has returned or thrown. -/
theorem ApiOk.sent (h : ApiOk s) {c : ℕ} {call : Call τ}
    {out : ArrayBlockingQueue.Outcome (CallTag × ℕ)}
    (hl : (s.calls c).life = .creating .sending) (hp : s.api.pc (.inl c) = .done out)
    (hapi : s'.api = s.api.goto (.inl c) .idle)
    (hcalls : s'.calls = Function.update s.calls c call) (hnext : s'.next = s.next)
    (hlife : call.life.unsent = false ∧ call.life ≠ .creating .sending)
    (htag : call.tag = (s.calls c).tag) (hraft : call.raft = (s.calls c).raft)
    (hrej : call.rejected = true → c ∉ s.accepted) : ApiOk s' := by
  have hq : ArrayBlockingQueue.step callQueueCapacity s.api (.leave (.inl c)) = some s'.api := by
    simp [ArrayBlockingQueue.step, hp, hapi]
  refine h.byCreator (a := .leave (.inl c)) hq rfl (by rw [hapi]; rfl) hcalls hnext ?_ ?_ hrej hraft
    (by simp [hl])
  · refine (h.supplied.trans (ArrayBlockingQueue.trans_of_step hq) (by simp)).mono ?_
    rintro r ⟨hu, ht⟩
    by_cases hr : r.2 = c
    · exact ⟨by simp [hcalls, hr, hlife.1], by simp [hcalls, hr, ht, htag]⟩
    · exact ⟨by simpa [hcalls, hr] using hu, by simpa [hcalls, hr] using ht⟩
  · rw [CreatorOk, if_neg (by simpa [hcalls] using hlife.2), hapi]
    simp

variable [DecidableEq τ]

/-- No step on the slot concerns the sending. -/
theorem CallTrans.sameSending {c : ℕ} {call call' : Call τ} {slot slot' : BaseSlot (Actor τ)}
    {a : CallAct τ} (ht : CallTrans c call slot a call' slot') : SameSending call call' := by
  cases ht with
  | failError hl | failState hl =>
      exact .of_life hl (by simp) (by simp) rfl rfl rfl
  | dispose hl ha => exact .of_life hl (by simp) (by simp) rfl rfl rfl
  | load hl | abandon hl => exact .of_life hl (by simp) (by simp) rfl rfl rfl
  | _ => exact ⟨fun h => ⟨h, rfl⟩, .rfl, .inl⟩

/-- The Raft side starts on a call by locking its slot. -/
theorem CallTrans.raft_ne_idle {c : ℕ} {call call' : Call τ} {slot slot' : BaseSlot (Actor τ)}
    {a : CallAct τ} (ht : CallTrans c call slot a call' slot') (hne : call'.raft ≠ .idle) :
    call.raft ≠ .idle ∨ a = .raftLock := by
  cases ht with
  | raftLock hr ho => exact .inr rfl
  | replyValue hr | replyError hr => exact .inl (by simp [hr])
  | storeRetval hr | storeError hr | storeState hr hs | notify hr hn | record hr =>
      exact .inl (by simp [hr])
  | raftUnlock hr =>
      rcases hr with hr | hr
      · exact .inl (by simp [hr])
      · exact .inl (by simp [hr])
  | _ => exact .inl hne

/-- No step on a slot brings a call into being. -/
theorem CallTrans.unborn {c : ℕ} {call call' : Call τ} {slot slot' : BaseSlot (Actor τ)}
    {a : CallAct τ} (ht : CallTrans c call slot a call' slot') (hl : call.life = .unborn) :
    call'.life = .unborn := by
  cases ht with
  | failError h | failState h | load h | abandon h => simp [hl] at h
  | dispose h ha => simp [hl] at h
  | _ => exact hl

theorem ApiOk.trans (h : ApiOk s) {a : Act τ ρ} (ht : Trans s a s')
    (htag : ∀ c, (s.calls c).life = .creating .enqueue → (s.slot c).tag = (s.calls c).tag)
    (hrej : ∀ c, (s.calls c).life = .creating .sending → (s.calls c).rejected = false)
    (hgc : ∀ c entry, s.gc = .attempt c entry .test → (s.calls c).life = .orphaned) :
    ApiOk s' := by
  cases ht with
  | create he hb =>
      have hborn := h.born s.next le_rfl
      refine h.keep rfl (fun c => ?_) (fun c hc => ?_) (fun c hc => ?_)
      · by_cases hcn : c = s.next
        · subst hcn
          exact ⟨by simp [hborn, Life.unsent], by simp [hborn, Call.create],
            by simp [Call.create, Call.unborn]⟩
        · simpa [hcn] using SameSending.refl _
      · by_cases hcn : c = s.next
        · simp [hcn, Call.create, Call.unborn] at hc
        · exact .inl (by simpa [hcn] using hc)
      · have hlt : s.next < c := hc
        simpa [hlt.ne'] using h.born c hlt.le
  | @allocate c n err hl hp =>
      have hun : (s.calls c).life.unsent = true := by simp [hl, Life.unsent]
      refine h.setCall rfl rfl rfl ⟨by simp [hun], ?_, fun _ => .inr hun⟩ ?_ (by simp [hl])
      · cases err <;> simp [hl, Call.allocated]
      · cases err <;> exact .inl
  | enqueue hl hq =>
      rw [htag _ hl] at hq
      exact h.enqueue hl hq rfl rfl
  | api ha hq => exact h.api ha hq rfl rfl hrej
  | sentOk hl hp =>
      exact h.sent hl hp rfl rfl rfl ⟨rfl, by simp⟩ rfl rfl (by simp [hrej _ hl])
  | sentClosed hl hp =>
      exact h.sent hl hp rfl rfl rfl ⟨rfl, by simp [Call.refused]⟩ rfl rfl
        fun _ => h.refused_not_accepted hl hp
  | @call c a call slot ht hr =>
      exact h.setCall rfl rfl rfl ht.sameSending (fun hne => (ht.raft_ne_idle hne).imp_right hr)
        ht.unborn
  | track hl ho | trackClosed hl ho =>
      exact h.setCall rfl rfl rfl (.of_life hl (by simp) (by simp) rfl rfl rfl) .inl (by simp [hl])
  | cleanup hl | deallocate hl | count hl =>
      exact h.setCall rfl rfl rfl (.of_life hl (by simp) (by simp) rfl rfl rfl) .inl (by simp [hl])
  | testDone hg hterm =>
      have hl := hgc _ _ hg
      exact h.setCall rfl rfl rfl (.of_life hl (by simp) (by simp) rfl rfl rfl) .inl (by simp [hl])
  | release hg =>
      exact h.keep (by simp) (by simp [SameSending.refl]) (by simpa using fun _ => .inl)
        (by simpa using h.born)
  | _ => exact h.keep rfl (fun _ => .refl _) (fun _ => .inl) h.born

end Keep

end Libraft.Pool
