import Libraft.Calls.Queued
import Libraft.Queue.Closing

/-!
# Calls left in a closed queue

`take` tests `closed` before anything else, so what is in the API queue when it
is closed stays there: its records are taken by nobody, and their slots remain
pending. No call is left behind if the queue is empty when it is closed and no
`put` passes its loop test afterwards.
-/

namespace Libraft.Queue.ArrayBlockingQueue

open Libraft.Foundation

variable {T ι : Type*}

/-- The store to `closed` finds the queue empty, and the loop test of a `put`
finds it open. -/
def Pc.ClosesEmpty (s : State T ι) : Pc T → Prop
  | .closeStore => s.ring.count = 0
  | .loop (.put _) => s.closed = false
  | _ => True

instance (s : State T ι) : DecidablePred (Pc.ClosesEmpty s)
  | .closeStore => inferInstanceAs (Decidable (_ = _))
  | .loop (.put _) => inferInstanceAs (Decidable (_ = _))
  | .loop .take | .idle | .check _ | .lock _ | .wait _ | .recheck _ | .body _ => isTrue trivial
  | .closeLock | .closeNotifyFull | .closeNotifyEmpty | .closeUnlock | .done _ => isTrue trivial

/-- The same for the thread which moves. -/
def ClosesEmpty (s : State T ι) : Act T ι → Prop
  | .step t _ => (s.pc t).ClosesEmpty s
  | _ => True

instance (s : State T ι) : DecidablePred (ClosesEmpty s)
  | .step t _ => inferInstanceAs (Decidable ((s.pc t).ClosesEmpty s))
  | .call _ _ | .callClose _ | .spurious _ | .leave _ => isTrue trivial

/-- Nothing is in a closed queue, and nothing is about to come. -/
structure Emptied (s : State T ι) : Prop where
  count : s.closed = true → s.ring.count = 0
  body : s.closed = true → ∀ t val, s.pc t ≠ .body (.put val)

theorem emptied_initial (cells : ℕ → T) : Emptied (initial cells : State T ι) where
  count := fun _ => rfl
  body := by simp [initial]

section Emptied
variable [DecidableEq ι] {cap : UInt32} {s s' : State T ι} {a : Act T ι}

/-- A step which leaves the ring and the flag alone. -/
theorem Emptied.keep (he : Emptied s) {t : ι} {p : Pc T} (hr : s'.ring = s.ring)
    (hc : s'.closed = s.closed) (hpc : s'.pc = Function.update s.pc t p)
    (hp : s.closed = true → ∀ val, p ≠ .body (.put val)) : Emptied s' where
  count := by
    rw [hr, hc]
    exact he.count
  body := by
    intro hcl u val hu
    rw [hc] at hcl
    rw [hpc] at hu
    by_cases hut : u = t
    · subst hut
      exact hp hcl val (by simpa using hu)
    · exact he.body hcl u val (by simpa [hut] using hu)

omit [DecidableEq ι] in
/-- A step in an open queue which stays open. -/
theorem emptied_of_open (hc : s'.closed = false) : Emptied s' :=
  ⟨by simp [hc], by simp [hc]⟩

theorem Emptied.trans (he : Emptied s) (hs : Sound s) (hg : Guarded cap s)
    (h : Trans cap s a s') (hc : ClosesEmpty s a) : Emptied s' := by
  cases h with
  | call h | callClose h | leave h => exact he.keep rfl rfl rfl (by simp)
  | checkClosed h hcl | checkOpen h hcl | recheckClosed h hcl | recheckOpen h hcl =>
      exact he.keep rfl rfl rfl (by simp)
  | lock h hm | closeLock h hm => exact he.keep rfl rfl rfl (by simp)
  | @block t w op h hb => cases op <;> exact he.keep rfl rfl rfl (by simp)
  | @pass t w op h hb =>
      refine he.keep rfl rfl rfl fun hcl val hp => ?_
      obtain rfl : op = .put val := by simpa using hp
      simp [ClosesEmpty, Pc.ClosesEmpty, h, hcl] at hc
  | @wakeUp t w op h hm hn => cases op <;> exact he.keep rfl rfl rfl (by simp)
  | @put t w val c h hn =>
      refine emptied_of_open ?_
      by_contra hcl
      exact he.body (by simpa using hcl) t val h
  | @take t w c h hn =>
      refine emptied_of_open ?_
      by_contra hcl
      have hpos := count_pos_of_not_empty (hg.body t _ h)
      simp [he.count (by simpa using hcl)] at hpos
  | @closeStore t w h =>
      refine ⟨fun _ => by simpa [ClosesEmpty, Pc.ClosesEmpty, h] using hc, fun _ u val hu => ?_⟩
      by_cases hut : u = t
      · simp [hut] at hu
      · refine hut (hs.holder.unique ?_ (by simp [h, Pc.holds]))
        have hpc : s.pc u = .body (.put val) := by simpa [hut] using hu
        simp [hpc, Pc.holds]
  | closeNotifyFull h | closeNotifyEmpty h | closeUnlock h => exact he.keep rfl rfl rfl (by simp)
  | spuriousFull h | spuriousEmpty h => exact ⟨he.count, he.body⟩

/-- Everything accepted has been delivered when such a queue is closed. -/
theorem Emptied.delivered_eq (he : Emptied s) (hcap : 1 ≤ cap) {cells : ℕ → T}
    (h : (system cap cells).Reachable s) (hc : s.closed = true) : s.delivered = s.accepted := by
  have hcons := delivered_append_contents hcap h
  have hnil : s.ring.contents cap = [] := by simp [Ring.contents, he.count hc]
  rwa [hnil, List.append_nil] at hcons

end Emptied

end Libraft.Queue.ArrayBlockingQueue

namespace Libraft.Pool

open Libraft.Foundation Libraft.Calls
open Libraft.Queue

variable {τ ρ : Type*}

/-- The API queue is closed when it is empty, and no `put` passes its loop test
afterwards. -/
def ClosesEmpty (s : State τ ρ) : Act τ ρ → Prop
  | .api a => ArrayBlockingQueue.ClosesEmpty s.api a
  | _ => True

instance (s : State τ ρ) : DecidablePred (ClosesEmpty s)
  | .api a => inferInstanceAs (Decidable (ArrayBlockingQueue.ClosesEmpty s.api a))
  | .create _ _ _ | .allocate _ _ | .enqueue _ | .sent _ | .call _ _ | .dispose _ => isTrue trivial
  | .gcTake | .gcTimeout | .gcStop | .gcStep | .gcCheck _ | .closeOrphans => isTrue trivial
  | .allocBuffer | .freeBuffer _ => isTrue trivial

/-- A call which its creator has failed is completed, or is just being failed. -/
def FailuresComplete (s : State τ ρ) : Prop :=
  ∀ c, (s.calls c).rejected = true →
    (s.calls c).life.failing = true ∨ (s.calls c).completed = true

section Stranding
variable [DecidableEq τ] [DecidableEq ρ] {s s' : State τ ρ} {a : Act τ ρ}

theorem CallTrans.failuresComplete {c : ℕ} {call call' : Call τ} {slot slot' : BaseSlot (Actor τ)}
    {b : CallAct τ} (ht : CallTrans c call slot b call' slot')
    (h : call.rejected = true → call.life.failing = true ∨ call.completed = true)
    (hrej : call'.rejected = true) : call'.life.failing = true ∨ call'.completed = true := by
  cases ht with
  | failError hl => exact .inl rfl
  | failState hl | storeState hl hs => exact .inr rfl
  | dispose hl ha => exact .inr ((h hrej).resolve_left (by simp [hl, Life.failing]))
  | load hl | abandon hl => exact .inr ((h hrej).resolve_left (by simp [hl, Life.failing]))
  | _ => exact h hrej

theorem FailuresComplete.trans (h : FailuresComplete s) (hi : Inv s) (ht : Trans s a s') :
    FailuresComplete s' := by
  have hupd {d : ℕ} {call : Call τ}
      (hd : call.rejected = true → call.life.failing = true ∨ call.completed = true) (c : ℕ)
      (hc : (Function.update s.calls d call c).rejected = true) :
      (Function.update s.calls d call c).life.failing = true ∨
        (Function.update s.calls d call c).completed = true := by
    by_cases hcd : c = d
    · subst hcd
      simpa using hd (by simpa using hc)
    · simpa [hcd] using h c (by simpa [hcd] using hc)
  have hpast {d : ℕ} {life : Life} (hl : (s.calls d).life = life) (hf : life.failing = false)
      (hr : (s.calls d).rejected = true) : (s.calls d).completed = true :=
    (h d hr).resolve_left (by simp [hl, hf])
  cases ht with
  | create he hb => exact hupd (by simp [Call.create, Call.unborn])
  | @allocate d n err hl hp =>
      refine hupd fun hr => ?_
      cases err with
      | none => exact .inr (hpast hl rfl hr)
      | some err => exact .inl rfl
  | enqueue hl hq => exact hupd fun hr => .inr (hpast hl rfl hr)
  | sentOk hl hp => exact hupd fun hr => .inr (hpast hl rfl hr)
  | sentClosed hl hp => exact hupd fun _ => .inl rfl
  | call ht hr => exact hupd (ht.failuresComplete (h _))
  | track hl ho | trackClosed hl ho => exact hupd fun hr => .inr (hpast hl rfl hr)
  | cleanup hl | deallocate hl | count hl => exact hupd fun hr => .inr (hpast hl rfl hr)
  | @testDone d entry hg hterm =>
      have hl : (s.calls d).life = .orphaned := hi.gc.attempt d entry .test hg
      exact hupd fun hr => .inr (hpast hl rfl hr)
  | release hg => simpa [FailuresComplete] using h
  | _ => exact h

theorem failuresComplete_of_reachable
    (h : (system : Scheduled (State τ ρ) (Act τ ρ)).Reachable s) : FailuresComplete s :=
  h.invariant (by simp [FailuresComplete, system, initial, Call.unborn])
    fun _ _ _ hs hf ht _ => hf.trans (inv_of_reachable hs) (trans_of_step ht)

omit [DecidableEq τ] in
/-- A creating thread which is not inside `put` is not in the queue at all. -/
theorem ApiOk.idle_of_not_sending (h : ApiOk s) {c : ℕ}
    (hl : (s.calls c).life ≠ .creating .sending) : s.api.pc (.inl c) = .idle := by
  have hc := h.creator c
  rwa [CreatorOk, if_neg hl] at hc

/-- The queue of the pool under the discipline. -/
theorem emptied_of_reach
    (h : (system : Scheduled (State τ ρ) (Act τ ρ)).Reach (fun s a _ => ClosesEmpty s a) s) :
    ArrayBlockingQueue.Emptied s.api := by
  refine Scheduled.Reach.invariant
    (I := fun s : State τ ρ => ArrayBlockingQueue.Emptied s.api) h
    (ArrayBlockingQueue.emptied_initial _) fun u a v hu he hstep hg => ?_
  have hi := inv_of_reachable hu.reachable
  have hs := ArrayBlockingQueue.sound_of_reachable hi.api.reach
  have hgd := (ArrayBlockingQueue.guarded_of_reachable (by decide) hi.api.reach).1
  cases trans_of_step hstep with
  | enqueue hl hq =>
      exact he.trans hs hgd (ArrayBlockingQueue.trans_of_step hq) trivial
  | api ha hq => exact he.trans hs hgd (ArrayBlockingQueue.trans_of_step hq) hg
  | sentOk hl hp | sentClosed hl hp => exact he.keep rfl rfl rfl (by simp)
  | release _ => simpa using he
  | _ => exact he

/-- When the API queue is closed empty and no `put` passes its loop test
afterwards, every call returned to its caller has been taken by the Raft side or
is completed once `close` has returned. -/
theorem no_call_left_in_closed_queue
    (h : (system : Scheduled (State τ ρ) (Act τ ρ)).Reach (fun s a _ => ClosesEmpty s a) s)
    (hclose : s.api.closeReturned) {c : ℕ} (hc : (s.calls c).life.returned = true) :
    c ∈ s.taken ∨ (s.calls c).completed = true := by
  have hi := inv_of_reachable h.reachable
  cases hrej : (s.calls c).rejected with
  | true =>
      refine .inr ((failuresComplete_of_reachable h.reachable c hrej).resolve_left fun hf => ?_)
      cases hl : (s.calls c).life <;> simp_all [Life.failing, Life.returned]
  | false =>
      have hmem := (admitted_of_reachable h.reachable).returned c hc hrej
      have hflag := (ArrayBlockingQueue.flagOk_of_reachable hi.api.reach).returned hclose
      refine .inl ?_
      rw [State.taken, (emptied_of_reach h).delivered_eq (by decide) hi.api.reach hflag]
      exact hmem

end Stranding

/-- A call is sent and taken before the queue is closed, and another one is
refused afterwards. -/
theorem no_call_left_in_closed_queue_taken :
    ∃ s : State (Fin 2) (Fin 2), s.api.closeReturned ∧ (s.calls 0).life = .held ∧
      (s.calls 1).life = .held ∧ (0 ∈ s.taken ∨ (s.calls 0).completed = true) ∧
      (1 ∈ s.taken ∨ (s.calls 1).completed = true) := by
  have hinit : (system : Scheduled (State (Fin 2) (Fin 2)) _).Reach
      (fun s a _ => ClosesEmpty s a) initial := .init
  obtain ⟨s, hs, hclose, h0, h1⟩ := hinit.exists_of_run
    (sendRun 0 0 .barrier none ++ takeRun 0 ++ closeRun 1 ++ refuseRun) (by decide)
    (fun s => ArrayBlockingQueue.Outcome.closeDone ∈ s.api.log ∧ (s.calls 0).life = .held ∧
      (s.calls 1).life = .held) (by decide)
  exact ⟨s, hclose, h0, h1, no_call_left_in_closed_queue hs hclose (by rw [h0]; rfl),
    no_call_left_in_closed_queue hs hclose (by rw [h1]; rfl)⟩

/-- A call is sent, and the queue is closed before anybody takes it. -/
theorem call_left_in_closed_queue :
    ∃ s : State (Fin 2) (Fin 2), system.Reachable s ∧ s.api.closeReturned ∧
      (∀ t op, ¬ (s.api.pc t).runs op) ∧ (s.calls 0).life = .held ∧ 0 ∉ s.taken ∧
      (s.slot 0).state = .pending := by
  obtain ⟨s, hs, hclose, hraft, hnext, hheld, htaken, hstate⟩ :=
    Scheduled.exists_reachable_of_run system (sendRun 0 0 .barrier none ++ closeRun 1)
      (fun s : State (Fin 2) (Fin 2) => ArrayBlockingQueue.Outcome.closeDone ∈ s.api.log ∧
        (∀ r, s.api.pc (.inr r) = .idle ∨ s.api.pc (.inr r) = .done .closeDone) ∧ s.next = 1 ∧
        (s.calls 0).life = .held ∧ 0 ∉ s.taken ∧ (s.slot 0).state = .pending) (by decide)
  refine ⟨s, hs, hclose, ?_, hheld, htaken, hstate⟩
  rintro (c | r) op hrun
  · have hidle : s.api.pc (.inl c) = .idle := by
      refine (inv_of_reachable hs).api.idle_of_not_sending ?_
      by_cases hc : c = 0
      · simp [hc, hheld]
      · have hborn := (inv_of_reachable hs).api.born c (by omega)
        simp [hborn]
    simp [hidle, ArrayBlockingQueue.Pc.runs] at hrun
  · rcases hraft r with hp | hp <;> simp [hp, ArrayBlockingQueue.Pc.runs] at hrun

end Libraft.Pool
