import Libraft.Pool.CallSpec

/-!
# The invariants of a single call

`Completion` says who completes a call and when, `Usage` what the client
threads working on the future may rely on, `Lifecycle` what each stage between
creation and deallocation means for the rest of the record, and `Coh` that the
slot agrees with the call. Each is kept by every step on the call's slot.
-/

namespace Libraft.Pool

open Libraft.Foundation Libraft.Calls

variable {τ : Type*}

/-- The stages at which the slot of the call exists. -/
def Life.live : Life → Bool
  | .unborn | .creating (.allocate _) | .disposing _ .count | .gone => false
  | _ => true

/-- Some operation has gone into `BaseSlot::wait`. -/
def Call.entered (call : Call τ) : Bool := call.waitCalled || call.foundPending

/-- The stages of creation before the call is known to be failed. -/
def Life.early : Life → Bool
  | .unborn | .creating (.allocate _) | .creating .enqueue | .creating .sending => true
  | _ => false

/-- The stages at which the creating thread fails the call. -/
def Life.failing : Life → Bool
  | .creating (.setError _) | .creating (.setState _) => true
  | _ => false

/-- A call is completed by its creator or by the Raft side, and not by both. -/
structure Completion (call : Call τ) : Prop where
  rejected : call.rejected = true → call.raft = .idle ∧ call.outcome.isSome = true
  quiet : call.rejected = false → call.raft = .idle ∨ call.raft = .locked →
    call.outcome = none ∧ call.completed = false
  replying : ∀ r, call.raft = .replying r →
    call.outcome.isSome = true ∧ call.completed = !r.beforeStore
  outcome : call.completed = true → call.outcome.isSome = true
  failing : call.life.failing = true → call.rejected = true ∧ call.completed = false
  early : call.life.early = true → call.rejected = false

/-- The positions inside `BaseSlot::wait` before the store to `client_state`. -/
def Use.enters : Use → Bool
  | .waiting _ pc => pc ≠ .unlock
  | _ => false

/-- What a fetch reports of an outcome. -/
def Op.report (tag : CallTag) (op : Op) (fast : Bool) (err : RaftError) (val : UInt64) : Result :=
  if op.isGet && !fast && err ≠ .success then .got err none else op.result tag err val

/-- The operations which can be refused because of their arguments. -/
def Op.mayRefuse (tag : CallTag) : Op → Prop
  | .getFsmReply _ => True
  | .getStats res => tag ≠ .stats ∨ res = false
  | _ => False

/-- A result given to the client tells the truth about the outcome, up to what
`report` makes of it. -/
def Reported (call : Call τ) (op : Op) (fast : Bool) : Result → Prop
  | .polled terminal => op.isGet = false ∧ (terminal = true → call.completed = true)
  | .waited err => op.isGet = false ∧ call.completed = true ∧
      ∃ val, call.outcome = some (err, val)
  | .refused _ => op.mayRefuse call.tag
  | res => call.completed = true ∧
      ∃ err val, call.outcome = some (err, val) ∧ res = op.report call.tag fast err val

/-- What a client thread may rely on. -/
def UseOk (call : Call τ) : Use → Prop
  | .idle | .test _ => True
  | .waiting _ pc => call.entered = true ∧ (pc = .observe → call.completed = true) ∧
      (pc = .unlock → call.client = .observed)
  | .readError _ => call.client = .observed
  | .polling op pc => op.isGet = false ∧ (pc = .unlock true → call.completed = true)
  | .value op fast => call.completed = true ∧
      (op.isGet = true → fast = false → ∃ val, call.outcome = some (.success, val))
  | .done op fast res => Reported call op fast res

structure Usage (call : Call τ) : Prop where
  active : ∀ t, t ∈ call.active ↔ call.uses t ≠ .idle
  free : call.life ≠ .held → call.active = ∅
  use : ∀ t, UseOk call (call.uses t)
  entered : call.entered = true →
    call.client = .observed ∨ ∃ t, (call.uses t).enters = true
  observed : call.client = .observed → call.completed = true ∧ call.entered = true

/-- What the stage of a call says about its disposal. -/
def Lifecycle (call : Call τ) : Prop :=
  match call.life with
  | .unborn | .creating _ =>
      call.client = .issued ∧ call.handed = false ∧ call.frees = 0 ∧ call.cleanups = 0
  | .held | .disposing false .load =>
      call.client ≠ .abandoned ∧ call.handed = false ∧ call.frees = 0 ∧ call.cleanups = 0
  | .disposing false .abandon =>
      call.client = .issued ∧ call.handed = false ∧ call.frees = 0 ∧ call.cleanups = 0
  | .disposing false .track | .thrown =>
      call.client = .abandoned ∧ call.handed = false ∧ call.frees = 0 ∧ call.cleanups = 0
  | .disposing false .deallocate =>
      call.client = .observed ∧ call.handed = false ∧ call.frees = 0 ∧ call.cleanups = 0
  | .disposing false .count =>
      call.client = .observed ∧ call.handed = false ∧ call.frees = 1 ∧ call.cleanups = 0
  | .orphaned =>
      call.client = .abandoned ∧ call.handed = true ∧ call.frees = 0 ∧ call.cleanups = 0
  | .disposing true .load | .disposing true .cleanup =>
      call.client = .abandoned ∧ call.handed = true ∧ call.frees = 0 ∧ call.cleanups = 0 ∧
        call.completed = true
  | .disposing true .deallocate =>
      call.client = .abandoned ∧ call.handed = true ∧ call.frees = 0 ∧ call.cleanups = 1 ∧
        call.completed = true
  | .disposing true .count =>
      call.client = .abandoned ∧ call.handed = true ∧ call.frees = 1 ∧ call.cleanups = 1 ∧
        call.completed = true
  | .gone => call.frees = 1 ∧ call.completed = true ∧
      ((call.client = .observed ∧ call.handed = false ∧ call.cleanups = 0) ∨
        (call.client = .abandoned ∧ call.handed = true ∧ call.cleanups = 1))
  | .disposing false .cleanup | .disposing true .abandon | .disposing true .track => False

/-- The store which a reply comes to next. -/
def Raft.storing : Raft → Option Reply
  | .replying r => if r.beforeStore then some r else none
  | _ => none

/-- The store which the completion of the call comes to next. -/
def Call.storing (call : Call τ) : Option Reply :=
  match call.life with
  | .creating (.setError err) => some (.error err)
  | .creating (.setState err) => some (.state err)
  | _ => call.raft.storing

/-- How far the outcome has been stored. -/
def Stored (outcome : Option (RaftError × UInt64)) (slot : BaseSlot (Actor τ)) :
    Option Reply → Prop
  | some (.retval val) => outcome = some (.success, val)
  | some (.error err) => outcome = some (err, slot.retval)
  | some (.state err) => outcome = some (err, slot.retval) ∧ slot.error = err
  | _ => (outcome = none ∧ slot.retval = 0) ∨ outcome = some (slot.error, slot.retval)

/-- The slot agrees with the call. -/
structure Coh (call : Call τ) (slot : BaseSlot (Actor τ)) : Prop where
  tag : slot.tag = call.tag
  client : slot.clientState = call.client
  terminal : isTerminal slot.state = call.completed
  stored : Stored call.outcome slot call.storing

/-- The slots differ in the mutex and the condition variable at most. -/
structure Soft (slot slot' : BaseSlot (Actor τ)) : Prop where
  tag : slot'.tag = slot.tag
  state : slot'.state = slot.state
  clientState : slot'.clientState = slot.clientState
  retval : slot'.retval = slot.retval
  error : slot'.error = slot.error

theorem Coh.soft {call : Call τ} {slot slot' : BaseSlot (Actor τ)} (h : Coh call slot)
    (hs : Soft slot slot') : Coh call slot' where
  tag := hs.tag.trans h.tag
  client := hs.clientState.trans h.client
  terminal := by rw [hs.state, h.terminal]
  stored := by
    have hst := h.stored
    unfold Stored at hst ⊢
    rw [hs.retval, hs.error]
    exact hst

section Completion
variable {call call' : Call τ}

/-- A step which completes nothing. -/
theorem Completion.keep (h : Completion call) (hraft : call'.raft = call.raft)
    (hout : call'.outcome = call.outcome) (hcomp : call'.completed = call.completed)
    (hrej : call'.rejected = call.rejected)
    (hfail : call'.life.failing = true → call.life.failing = true)
    (hearly : call'.life.early = true → call.life.early = true) : Completion call' where
  rejected := by rw [hraft, hout, hrej]; exact h.rejected
  quiet := by rw [hraft, hout, hcomp, hrej]; exact h.quiet
  replying := by rw [hraft, hout, hcomp]; exact h.replying
  outcome := by rw [hout, hcomp]; exact h.outcome
  failing := by rw [hrej, hcomp]; exact fun hl => h.failing (hfail hl)
  early := by rw [hrej]; exact fun hl => h.early (hearly hl)

/-- A step of the Raft side. -/
theorem Completion.byRaft (h : Completion call) (hrej : call.rejected = false)
    (hrej' : call'.rejected = call.rejected) (hlife : call'.life = call.life)
    (hquiet : call'.raft = .idle ∨ call'.raft = .locked →
      call'.outcome = none ∧ call'.completed = false)
    (hrep : ∀ r, call'.raft = .replying r →
      call'.outcome.isSome = true ∧ call'.completed = !r.beforeStore)
    (hout : call'.completed = true → call'.outcome.isSome = true) : Completion call' where
  rejected := by simp [hrej', hrej]
  quiet := fun _ => hquiet
  replying := hrep
  outcome := hout
  failing := by
    rw [hlife]
    intro hl
    simpa [hrej] using (h.failing hl).1
  early := by rw [hrej', hrej]; exact fun _ => rfl

theorem Completion.not_rejected (h : Completion call) (hr : call.raft ≠ .idle) :
    call.rejected = false := by
  by_contra hrej
  exact hr (h.rejected (by simpa using hrej)).1

variable [DecidableEq τ] {c : ℕ} {slot slot' : BaseSlot (Actor τ)} {a : CallAct τ}

theorem Completion.step (h : Completion call) (ht : CallTrans c call slot a call' slot')
    (hr : a = .raftLock → call.rejected = false) : Completion call' := by
  cases ht with
  | failError hl =>
      exact h.keep rfl rfl rfl rfl (by simp [hl, Life.failing]) (by simp [Life.early])
  | failState hl =>
      obtain ⟨hrej, -⟩ := h.failing (by simp [hl, Life.failing])
      obtain ⟨hidle, hsome⟩ := h.rejected hrej
      exact ⟨fun _ => ⟨hidle, hsome⟩, by simp [hrej], by simp [hidle], fun _ => hsome,
        by simp [Life.failing], by simp [Life.early]⟩
  | start hl hu => exact h.keep rfl rfl rfl rfl id id
  | use hu => exact h.keep rfl rfl rfl rfl id id
  | leave hu => exact h.keep rfl rfl rfl rfl id id
  | wake hw => exact h
  | raftLock hraft ho =>
      obtain ⟨hout, hcomp⟩ := h.quiet (hr rfl) (.inl hraft)
      exact h.byRaft (hr rfl) rfl rfl (fun _ => ⟨hout, hcomp⟩) (by simp) (by simp [hcomp])
  | replyValue hraft | replyError hraft =>
      have hrej := h.not_rejected (by simp [hraft])
      obtain ⟨-, hcomp⟩ := h.quiet hrej (.inr hraft)
      exact h.byRaft hrej rfl rfl (by simp) (by rintro r ⟨⟩; exact ⟨rfl, hcomp⟩) (by simp)
  | storeRetval hraft | storeError hraft =>
      obtain ⟨hsome, hcomp⟩ := h.replying _ hraft
      exact h.byRaft (h.not_rejected (by simp [hraft])) rfl rfl (by simp)
        (by rintro r ⟨⟩; exact ⟨hsome, hcomp⟩) (fun _ => hsome)
  | storeState hraft hs =>
      obtain ⟨hsome, -⟩ := h.replying _ hraft
      exact h.byRaft (h.not_rejected (by simp [hraft])) rfl rfl (by simp)
        (by rintro r ⟨⟩; exact ⟨hsome, rfl⟩) (fun _ => hsome)
  | notify hraft hn =>
      obtain ⟨hsome, hcomp⟩ := h.replying _ hraft
      exact h.byRaft (h.not_rejected (by simp [hraft])) rfl rfl (by simp)
        (by rintro r ⟨⟩; exact ⟨hsome, hcomp⟩) (fun _ => hsome)
  | record hraft =>
      obtain ⟨hsome, -⟩ := h.replying _ hraft
      exact h.byRaft (h.not_rejected (by simp [hraft])) rfl rfl (by simp) (by simp)
        (fun _ => hsome)
  | raftUnlock hraft =>
      exact h.byRaft (h.not_rejected (by rcases hraft with hraft | hraft <;> simp [hraft]))
        rfl rfl (by simp) (by simp) h.outcome
  | dispose hl ha => exact h.keep rfl rfl rfl rfl (by simp [Life.failing]) (by simp [Life.early])
  | load hl => exact h.keep rfl rfl rfl rfl (by simp [Life.failing]) (by simp [Life.early])
  | abandon hl => exact h.keep rfl rfl rfl rfl (by simp [Life.failing]) (by simp [Life.early])

end Completion

section Usage
variable {call call' : Call τ}

/-- What a thread relies on survives every change which takes nothing back. -/
theorem UseOk.mono {use : Use} (h : UseOk call use) (htag : call'.tag = call.tag)
    (hent : call.entered = true → call'.entered = true)
    (hcomp : call.completed = true → call'.completed = true)
    (hobs : call.client = .observed → call'.client = .observed)
    (hout : call.completed = true → call'.outcome = call.outcome) : UseOk call' use := by
  cases use with
  | idle | test op => trivial
  | waiting op pc => exact ⟨hent h.1, fun hp => hcomp (h.2.1 hp), fun hp => hobs (h.2.2 hp)⟩
  | readError op => exact hobs h
  | polling op pc => exact ⟨h.1, fun hp => hcomp (h.2 hp)⟩
  | value op fast =>
      refine ⟨hcomp h.1, fun hg hf => ?_⟩
      rw [hout h.1]
      exact h.2 hg hf
  | done op fast res =>
      cases res with
      | polled b => exact ⟨h.1, fun hb => hcomp (h.2 hb)⟩
      | waited err =>
          obtain ⟨hg, hc, hv⟩ := h
          exact ⟨hg, hcomp hc, by rw [hout hc]; exact hv⟩
      | refused err =>
          simp only [UseOk, Reported, htag] at h ⊢
          exact h
      | got err val =>
          obtain ⟨hc, hv⟩ := h
          exact ⟨hcomp hc, by rw [hout hc, htag]; exact hv⟩
      | assertFailed =>
          obtain ⟨hc, hv⟩ := h
          exact ⟨hcomp hc, by rw [hout hc, htag]; exact hv⟩

/-- A step which no client thread takes. -/
theorem Usage.keep (h : Usage call) (hact : call'.active = call.active)
    (huses : call'.uses = call.uses) (htag : call'.tag = call.tag)
    (hfree : call'.life ≠ .held → call'.active = ∅)
    (hent : call'.entered = call.entered) (hclient : call'.client = call.client)
    (hcomp : call.completed = true → call'.completed = true)
    (hout : call.completed = true → call'.outcome = call.outcome) : Usage call' where
  active := by rw [hact, huses]; exact h.active
  free := hfree
  use := by
    rw [huses]
    exact fun t => (h.use t).mono htag (by rw [hent]; exact id) hcomp
      (by rw [hclient]; exact id) hout
  entered := by rw [hent, hclient, huses]; exact h.entered
  observed := by
    rw [hclient, hent]
    exact fun ho => ⟨hcomp (h.observed ho).1, (h.observed ho).2⟩

/-- No thread is inside an operation on a future which the client does not hold. -/
theorem Usage.idle_of_ne_held (h : Usage call) (hl : call.life ≠ .held) (t : τ) :
    call.uses t = .idle := by
  by_contra hne
  have hmem := (h.active t).mpr hne
  rw [h.free hl] at hmem
  simp at hmem

theorem Usage.held_of_ne_idle (h : Usage call) {t : τ} (hne : call.uses t ≠ .idle) :
    call.life = .held := by
  by_contra hl
  exact hne (h.idle_of_ne_held hl t)

/-- An operation runs on a future which the client has. -/
theorem Usage.held_of_use [DecidableEq τ] (h : Usage call) {t : τ} {use : Use}
    {slot slot' : BaseSlot (Actor τ)}
    (hu : UseTrans call.tag slot t (call.uses t) use slot') : call.life = .held := by
  apply h.held_of_ne_idle (t := t)
  intro hi
  rw [hi] at hu
  cases hu

/-- Once nobody is left inside `wait`, the call has been observed or never entered. -/
theorem Usage.observed_of_entered (h : Usage call) (ha : call.active = ∅)
    (he : call.entered = true) : call.client = .observed := by
  rcases h.entered he with ho | ⟨t, ht⟩
  · exact ho
  · have hne : call.uses t ≠ .idle := by
      intro hi
      simp [hi, Use.enters] at ht
    have hmem := (h.active t).mpr hne
    rw [ha] at hmem
    simp at hmem

variable [DecidableEq τ] {t : τ} {slot slot' : BaseSlot (Actor τ)} {use : Use}

/-- A thread moves on in its operation. -/
theorem Usage.setUse (h : Usage call) {old : Use} (hu : call.uses t = old) (hold : old ≠ .idle)
    (hnew : use ≠ .idle) (hok : UseOk (call.setUse t old use) use)
    (hent : old.enters = true →
      use.enters = true ∨ (call.setUse t old use).client = .observed)
    (hslow : (call.setUse t old use).entered = true →
      call.entered = true ∨ use.enters = true)
    (hobs : (call.setUse t old use).client = .observed →
      call.completed = true ∧ call.entered = true) :
    Usage (call.setUse t old use) := by
  have hclient : call.client = .observed → (call.setUse t old use).client = .observed := by
    intro hc
    simp only [Call.setUse]
    split
    · rfl
    · exact hc
  have hmono : call.entered = true → (call.setUse t old use).entered = true := by
    simp only [Call.entered, Call.setUse, Bool.or_eq_true]
    rintro (hw | hf)
    · exact .inl hw
    · right
      split
      · rfl
      · exact hf
  refine ⟨fun u => ?_, h.free, fun u => ?_, fun he => ?_, fun hc => ?_⟩
  · by_cases hut : u = t
    · subst hut
      simpa [Call.setUse, hnew] using (h.active u).mpr (hu ▸ hold)
    · simpa [Call.setUse, hut] using h.active u
  · by_cases hut : u = t
    · subst hut
      simpa [Call.setUse] using hok
    · have hmu : UseOk (call.setUse t old use) (call.uses u) :=
        (h.use u).mono rfl hmono id hclient fun _ => rfl
      simpa [Call.setUse, hut] using hmu
  · rcases hslow he with he | he
    · rcases h.entered he with ho | ⟨u, hue⟩
      · exact .inl (hclient ho)
      · by_cases hut : u = t
        · subst hut
          rcases hent (hu ▸ hue) with hn | ho
          · exact .inr ⟨u, by simpa [Call.setUse] using hn⟩
          · exact .inl ho
        · exact .inr ⟨u, by simpa [Call.setUse, hut] using hue⟩
    · exact .inr ⟨t, by simpa [Call.setUse] using he⟩
  · obtain ⟨hcomp, he⟩ := hobs hc
    exact ⟨hcomp, hmono he⟩

omit [DecidableEq τ] in
theorem storing_of_not_failing (h : call.life.failing = false) :
    call.storing = call.raft.storing := by
  unfold Call.storing
  split
  case h_1 hl | h_2 hl => simp [hl, Life.failing] at h
  case h_3 => rfl

omit [DecidableEq τ] in
theorem Completion.not_failing (h : Completion call) (hrej : call.rejected = false) :
    call.life.failing = false := by
  by_contra hf
  simp [(h.failing (by simpa using hf)).1] at hrej

omit [DecidableEq τ] in
/-- A completed call can be read from its slot. -/
theorem Coh.outcome (hc : Coh call slot) (hcompl : Completion call)
    (hdone : call.completed = true) : call.outcome = some (slot.error, slot.retval) := by
  have hst := hc.stored
  have hsome := hcompl.outcome hdone
  have hfail : call.life.failing = false := by
    by_contra hf
    simp [(hcompl.failing (by simpa using hf)).2] at hdone
  have hnone : call.raft.storing = none := by
    cases hr : call.raft with
    | replying r =>
        have hb := (hcompl.replying r hr).2
        simp [Raft.storing, show r.beforeStore = false by simpa [hdone] using hb.symm]
    | _ => rfl
  rw [storing_of_not_failing hfail, hnone] at hst
  rcases hst with ⟨hn, -⟩ | ho
  · simp [hn] at hsome
  · exact ho

omit [DecidableEq τ] in
/-- What the result of a fetch reports. -/
theorem reported_result {op : Op} {fast : Bool} {err : RaftError} {val : UInt64}
    (hdone : call.completed = true) (hout : call.outcome = some (err, val))
    (hslow : op.isGet = true → fast = false → err = .success) :
    Reported call op fast (op.result call.tag err val) := by
  have hrep : op.report call.tag fast err val = op.result call.tag err val := by
    unfold Op.report
    split
    case isFalse => rfl
    case isTrue hc =>
        simp only [Bool.and_eq_true, Bool.not_eq_true', decide_eq_true_eq] at hc
        exact absurd (hslow hc.1.1 hc.1.2) hc.2
  cases hres : op.result call.tag err val with
  | got err' val' => exact ⟨hdone, err, val, hout, by rw [hrep, hres]⟩
  | assertFailed => exact ⟨hdone, err, val, hout, by rw [hrep, hres]⟩
  | refused err' =>
      cases op with
      | getFsmReply res => trivial
      | _ =>
          simp only [Op.result, futureGetResult] at hres
          split at hres
          · split at hres <;> cases hres
          · cases hres
  | waited err' | polled b =>
      cases op with
      | getFsmReply res =>
          simp only [Op.result, getPtrResult] at hres
          repeat' split at hres
          all_goals cases hres
      | _ =>
          simp only [Op.result, futureGetResult] at hres
          repeat' split at hres
          all_goals cases hres

/-- A step of an operation which is neither the store to `client_state` nor the
unlocked test. -/
theorem Usage.setUse_plain (h : Usage call) {old : Use} (hu : call.uses t = old)
    (hold : old ≠ .idle) (hnew : use ≠ .idle) (hobs : ∀ op, old ≠ .waiting op .observe)
    (htest : ∀ op, old ≠ .test op) (hok : UseOk call use)
    (hent : old.enters = true → use.enters = true) : Usage (call.setUse t old use) := by
  have hclient : (call.setUse t old use).client = call.client := by
    simp only [Call.setUse]
  have hentered : (call.setUse t old use).entered = call.entered := by
    simp only [Call.entered, Call.setUse]
    split
    · exact absurd rfl (htest _)
    · rfl
  refine h.setUse hu hold hnew ?_ (fun he => .inl (hent he)) ?_ ?_
  · exact hok.mono rfl (by rw [hentered]; exact id) id (by rw [hclient]; exact id) fun _ => rfl
  · rw [hentered]
    exact .inl
  · rw [hclient]
    exact h.observed

/-- Each statement of an operation leads to a position its thread may rely on. -/
theorem Usage.use_step (h : Usage call) (hcompl : Completion call) (hc : Coh call slot)
    (ht : UseTrans call.tag slot t (call.uses t) use slot') :
    Usage (call.setUse t (call.uses t) use) := by
  have hok := h.use t
  generalize hu : call.uses t = old at ht hok
  cases ht with
  | lock ho | resume ho hn =>
      exact h.setUse_plain hu (by simp) (by simp) (by simp) (by simp)
        ⟨hok.1, by simp, by simp⟩ (by simp [Use.enters])
  | ready hterm =>
      exact h.setUse_plain hu (by simp) (by simp) (by simp) (by simp)
        ⟨hok.1, fun _ => by rw [← hc.terminal, hterm], by simp⟩ (by simp [Use.enters])
  | block hterm =>
      exact h.setUse_plain hu (by simp) (by simp) (by simp) (by simp)
        ⟨hok.1, by simp, by simp⟩ (by simp [Use.enters])
  | observe =>
      refine h.setUse hu (by simp) (by simp) ⟨?_, by simp, fun _ => rfl⟩ (fun _ => .inr rfl)
        (fun _ => .inl hok.1) (fun _ => ⟨hok.2.1 rfl, hok.1⟩)
      simpa [Call.entered, Call.setUse] using hok.1
  | @unlock op =>
      have hobs := hok.2.2 rfl
      have hdone := (h.observed hobs).1
      cases op with
      | getFsmReply res =>
          exact h.setUse_plain hu (by simp) (by simp [Op.afterWait]) (by simp) (by simp)
            ⟨hdone, by simp [Op.isGet]⟩ (by simp [Use.enters])
      | _ =>
          exact h.setUse_plain hu (by simp) (by simp [Op.afterWait]) (by simp) (by simp)
            hobs (by simp [Use.enters])
  | @readError op =>
      have hdone := (h.observed hok).1
      have hout := hc.outcome hcompl hdone
      have hnew : UseOk call (op.withError slot.error) := by
        unfold Op.withError
        split
        case isTrue hget =>
            split
            case isTrue herr => exact ⟨hdone, fun _ _ => ⟨slot.retval, by rw [hout, herr]⟩⟩
            case isFalse herr =>
                exact ⟨hdone, slot.error, slot.retval, hout, by simp [Op.report, hget, herr]⟩
        case isFalse hget => exact ⟨by simpa using hget, hdone, slot.retval, hout⟩
      refine h.setUse_plain hu (by simp) ?_ (by simp) (by simp) hnew (by simp [Use.enters])
      unfold Op.withError
      repeat' split
      all_goals simp
  | tryLock ho =>
      exact h.setUse_plain hu (by simp) (by simp) (by simp) (by simp) ⟨hok.1, by simp⟩
        (by simp [Use.enters])
  | tryFail ho =>
      exact h.setUse_plain hu (by simp) (by simp) (by simp) (by simp) ⟨hok.1, by simp⟩
        (by simp [Use.enters])
  | pollTest =>
      refine h.setUse_plain hu (by simp) (by simp) (by simp) (by simp) ⟨hok.1, fun hb => ?_⟩
        (by simp [Use.enters])
      rw [← hc.terminal]
      simpa using hb
  | @pollUnlock op b =>
      refine h.setUse_plain hu (by simp) (by simp) (by simp) (by simp) ⟨hok.1, ?_⟩
        (by simp [Use.enters])
      rintro rfl
      exact hok.2 rfl
  | testFast hterm =>
      refine h.setUse hu (by simp) (by simp) ⟨?_, by simp⟩ (by simp [Use.enters])
        (fun he => .inl (by simpa [Call.entered, Call.setUse] using he))
        (fun hobs => h.observed (by simpa [Call.setUse] using hobs))
      change call.completed = true
      rw [← hc.terminal, hterm]
  | testSlow hterm =>
      exact h.setUse hu (by simp) (by simp)
        ⟨by simp [Call.entered, Call.setUse], by simp, by simp⟩ (by simp [Use.enters])
        (fun _ => .inr (by simp [Use.enters]))
        (fun hobs => h.observed (by simpa [Call.setUse] using hobs))
  | @value op fast =>
      have hout := hc.outcome hcompl hok.1
      refine h.setUse_plain hu (by simp) (by simp) (by simp) (by simp) ?_ (by simp [Use.enters])
      refine reported_result hok.1 hout fun hget hfast => ?_
      obtain ⟨val, hval⟩ := hok.2 hget hfast
      rw [hout] at hval
      exact congrArg Prod.fst (Option.some.inj hval)

omit [DecidableEq τ] in
/-- The first position of an operation. -/
theorem useOk_first (op : Op) (hw : op = .wait → call.entered = true) :
    UseOk call (op.first call.tag) := by
  cases op with
  | wait => exact ⟨hw rfl, by simp, by simp⟩
  | poll | waitFor => exact ⟨rfl, by simp⟩
  | futureGet | leader => trivial
  | getFsmReply res =>
      simp only [Op.first]
      split <;> trivial
  | getStats res =>
      simp only [Op.first]
      split
      case isTrue ht =>
          split
          · trivial
          · rename_i hres
            exact .inr (by simpa using hres)
      case isFalse ht => exact .inl ht

theorem Usage.start (h : Usage call) {op : Op} (hl : call.life = .held)
    (hu : call.uses t = .idle) :
    Usage { call.setUse t .idle (op.first call.tag) with
      active := insert t call.active
      waitCalled := call.waitCalled || op = .wait } := by
  have hne : op.first call.tag ≠ .idle := by
    cases op with
    | getFsmReply res =>
        simp only [Op.first]
        split <;> simp
    | getStats res =>
        simp only [Op.first]
        repeat' split
        all_goals simp
    | _ => simp [Op.first]
  have hent : call.entered = true → (call.waitCalled || op = .wait) = true ∨
      call.foundPending = true := by
    simp only [Call.entered, Bool.or_eq_true, decide_eq_true_eq]
    rintro (hw | hf)
    · exact .inl (.inl hw)
    · exact .inr hf
  refine ⟨fun u => ?_, fun hne => absurd hl hne, fun u => ?_, fun he => ?_, fun ho => ?_⟩
  · by_cases hut : u = t
    · subst hut
      simp [Call.setUse, hne]
    · simpa [Call.setUse, hut] using h.active u
  · by_cases hut : u = t
    · subst hut
      simp only [Call.setUse, Function.update_self]
      refine useOk_first op ?_
      rintro rfl
      simp [Call.entered]
    · simp only [Call.setUse, Function.update_of_ne hut]
      refine (h.use u).mono rfl ?_ id id fun _ => rfl
      simpa [Call.entered] using hent
  · by_cases hw : op = .wait
    · subst hw
      exact .inr ⟨t, by simp [Call.setUse, Op.first, Use.enters]⟩
    · have he' : call.entered = true := by
        simpa [Call.entered, Call.setUse, hw] using he
      rcases h.entered he' with ho | ⟨u, hue⟩
      · exact .inl ho
      · have hut : u ≠ t := by
          rintro rfl
          simp [hu, Use.enters] at hue
        exact .inr ⟨u, by simpa [Call.setUse, hut] using hue⟩
  · obtain ⟨hcomp, he⟩ := h.observed ho
    refine ⟨hcomp, ?_⟩
    simpa [Call.entered, Call.setUse] using hent he

theorem Usage.leave (h : Usage call) {op : Op} {fast : Bool} {res : Result}
    (hu : call.uses t = .done op fast res) :
    Usage { call with uses := Function.update call.uses t .idle
                      active := call.active.erase t } := by
  have hl : call.life = .held := h.held_of_ne_idle (t := t) (by simp [hu])
  refine ⟨fun u => ?_, fun hne => absurd hl hne, fun u => ?_, fun he => ?_, h.observed⟩
  · by_cases hut : u = t
    · subst hut
      simp
    · simpa [hut] using h.active u
  · by_cases hut : u = t
    · subst hut
      simp only [Function.update_self]
      trivial
    · simp only [Function.update_of_ne hut]
      exact (h.use u).mono rfl id id id fun _ => rfl
  · rcases h.entered he with ho | ⟨u, hue⟩
    · exact .inl ho
    · have hut : u ≠ t := by
        rintro rfl
        simp [hu, Use.enters] at hue
      exact .inr ⟨u, by simpa [hut] using hue⟩

variable {c : ℕ} {a : CallAct τ}

theorem Usage.step (h : Usage call) (hcompl : Completion call) (hlife : Lifecycle call)
    (hc : call.life.live = true → Coh call slot)
    (ht : CallTrans c call slot a call' slot') : Usage call' := by
  have hfree {life : Life} (hl : call.life ≠ .held) : life ≠ .held → call.active = ∅ :=
    fun _ => h.free hl
  cases ht with
  | failError hl =>
      exact h.keep rfl rfl rfl (hfree (by simp [hl])) rfl rfl id fun _ => rfl
  | failState hl =>
      exact h.keep rfl rfl rfl (by simp) rfl rfl (fun _ => rfl) fun _ => rfl
  | start hl hu => exact h.start hl hu
  | @use t use slot' hu =>
      have hheld := h.held_of_use hu
      exact h.use_step hcompl (hc (by simp [hheld, Life.live])) hu
  | leave hu => exact h.leave hu
  | wake hw => exact h
  | raftLock hraft ho => exact h.keep rfl rfl rfl h.free rfl rfl id fun _ => rfl
  | replyValue hraft | replyError hraft =>
      have hfalse := (hcompl.quiet (hcompl.not_rejected (by simp [hraft])) (.inr hraft)).2
      exact h.keep rfl rfl rfl h.free rfl rfl id (by simp [hfalse])
  | storeRetval hraft | storeError hraft =>
      exact h.keep rfl rfl rfl h.free rfl rfl id fun _ => rfl
  | storeState hraft hs => exact h.keep rfl rfl rfl h.free rfl rfl (fun _ => rfl) fun _ => rfl
  | notify hraft hn => exact h.keep rfl rfl rfl h.free rfl rfl id fun _ => rfl
  | record hraft => exact h.keep rfl rfl rfl h.free rfl rfl id fun _ => rfl
  | raftUnlock hraft => exact h.keep rfl rfl rfl h.free rfl rfl id fun _ => rfl
  | dispose hl ha => exact h.keep rfl rfl rfl (fun _ => ha) rfl rfl id fun _ => rfl
  | load hl => exact h.keep rfl rfl rfl (hfree (by simp [hl])) rfl rfl id fun _ => rfl
  | @abandon byGc hl =>
      have hact := h.free (by simp [hl])
      have hissued : call.client = .issued := by
        cases byGc with
        | false => exact (by simpa [Lifecycle, hl] using hlife : _ ∧ _).1
        | true => simp [Lifecycle, hl] at hlife
      have hne : call.entered = false := by
        by_contra he
        have hobs := h.observed_of_entered hact (by simpa using he)
        simp [hissued] at hobs
      refine ⟨h.active, fun _ => hact, fun u => ?_, ?_, by simp⟩
      · have hidle := h.idle_of_ne_held (by simp [hl]) u
        simp only [hidle]
        trivial
      · intro he
        simp [Call.entered] at he hne
        simp [hne] at he

end Usage

section Lifecycle
variable {call call' : Call τ}

/-- A step which leaves the stage and the record of disposal alone. -/
theorem Lifecycle.keep (h : Lifecycle call) (hl : call'.life = call.life)
    (hclient : call'.client = call.client) (hhand : call'.handed = call.handed)
    (hfree : call'.frees = call.frees) (hclean : call'.cleanups = call.cleanups)
    (hcomp : call.completed = true → call'.completed = true) : Lifecycle call' := by
  unfold Lifecycle at h ⊢
  rw [hl, hclient, hhand, hfree, hclean]
  split at h <;> simp_all

variable [DecidableEq τ] {c : ℕ} {slot slot' : BaseSlot (Actor τ)} {a : CallAct τ}

theorem Lifecycle.step (h : Lifecycle call) (hu : Usage call)
    (hc : call.life.live = true → Coh call slot)
    (ht : CallTrans c call slot a call' slot') : Lifecycle call' := by
  cases ht with
  | failError hl => simpa [Lifecycle, hl] using h
  | failState hl =>
      have h' : call.client = .issued ∧ call.handed = false ∧ call.frees = 0 ∧
          call.cleanups = 0 := by simpa [Lifecycle, hl] using h
      simp [Lifecycle, h']
  | start hl hu => exact h.keep rfl rfl rfl rfl rfl id
  | @use t use slot' hut =>
      have hheld := hu.held_of_use hut
      have h' : call.client ≠ .abandoned ∧ call.handed = false ∧ call.frees = 0 ∧
          call.cleanups = 0 := by simpa [Lifecycle, hheld] using h
      have hclient : (call.setUse t (call.uses t) use).client ≠ .abandoned := by
        simp only [Call.setUse]
        split
        · simp
        · exact h'.1
      have hheld' : (call.setUse t (call.uses t) use).life = .held := hheld
      unfold Lifecycle
      rw [hheld']
      exact ⟨hclient, h'.2⟩
  | leave hut => exact h.keep rfl rfl rfl rfl rfl id
  | wake hw => exact h
  | storeState hraft hs => exact h.keep rfl rfl rfl rfl rfl fun _ => rfl
  | dispose hl ha => simpa [Lifecycle, hl] using h
  | @load byGc hl =>
      have hcoh := (hc (by simp [hl, Life.live])).client
      cases byGc with
      | false =>
          have h' : call.client ≠ .abandoned ∧ call.handed = false ∧ call.frees = 0 ∧
              call.cleanups = 0 := by simpa [Lifecycle, hl] using h
          cases hcl : call.client with
          | issued => simpa [Lifecycle, hcoh, hcl, Dispose.branch] using h'.2
          | observed => simpa [Lifecycle, hcoh, hcl, Dispose.branch] using h'.2
          | abandoned => exact absurd hcl h'.1
      | true =>
          have h' : call.client = .abandoned ∧ call.handed = true ∧ call.frees = 0 ∧
              call.cleanups = 0 ∧ call.completed = true := by simpa [Lifecycle, hl] using h
          simpa [Lifecycle, hcoh, h'.1, Dispose.branch] using h'.2
  | @abandon byGc hl =>
      cases byGc with
      | false =>
          have h' : call.client = .issued ∧ call.handed = false ∧ call.frees = 0 ∧
              call.cleanups = 0 := by simpa [Lifecycle, hl] using h
          simpa [Lifecycle] using h'.2
      | true => simp [Lifecycle, hl] at h
  | _ => exact h.keep rfl rfl rfl rfl rfl id

end Lifecycle

section Coherence
variable [DecidableEq τ] {call call' : Call τ} {c : ℕ} {slot slot' : BaseSlot (Actor τ)}
  {a : CallAct τ} {t : τ} {use : Use}

/-- An operation of a client thread changes `client_state` at most, and the
record of the call follows. -/
theorem Coh.use_step (h : Coh call slot)
    (ht : UseTrans call.tag slot t (call.uses t) use slot') :
    Coh (call.setUse t (call.uses t) use) slot' := by
  have hstoring (old : Use) : (call.setUse t old use).storing = call.storing := rfl
  have hkeep {old : Use} (hobs : ∀ op, old ≠ .waiting op .observe) (hs : Soft slot slot') :
      Coh (call.setUse t old use) slot' := by
    have hclient : (call.setUse t old use).client = call.client := by
      simp only [Call.setUse]
    exact ⟨(h.soft hs).tag, by rw [hclient]; exact (h.soft hs).client, (h.soft hs).terminal,
      (h.soft hs).stored⟩
  generalize call.uses t = old at ht ⊢
  cases ht with
  | observe => exact ⟨h.tag, rfl, h.terminal, h.stored⟩
  | _ => exact hkeep (by simp) ⟨rfl, rfl, rfl, rfl, rfl⟩

omit [DecidableEq τ] in
/-- A step which leaves the record and the stores of the completion alone. -/
theorem Coh.keep (h : Coh call slot) (hs : Soft slot slot') (htag : call'.tag = call.tag)
    (hclient : call'.client = call.client) (hcomp : call'.completed = call.completed)
    (hout : call'.outcome = call.outcome) (hst : call'.storing = call.storing) :
    Coh call' slot' where
  tag := by rw [htag]; exact (h.soft hs).tag
  client := by rw [hclient]; exact (h.soft hs).client
  terminal := by rw [hcomp]; exact (h.soft hs).terminal
  stored := by rw [hout, hst]; exact (h.soft hs).stored

omit [DecidableEq τ] in
/-- What has been stored when the Raft side comes to a statement of its reply. -/
theorem Coh.stored_raft (h : Coh call slot) (hcompl : Completion call) {raft : Raft}
    (hraft : call.raft = raft) (hne : raft ≠ .idle) :
    Stored call.outcome slot raft.storing := by
  have hst := h.stored
  rw [storing_of_not_failing (hcompl.not_failing (hcompl.not_rejected (hraft ▸ hne))),
    hraft] at hst
  exact hst

omit [DecidableEq τ] in
/-- A step of the Raft side has stored what its next statement relies on. -/
theorem Coh.byRaft (h : Coh call slot) (hf : call'.life.failing = false)
    (htag : slot'.tag = slot.tag) (htag' : call'.tag = call.tag)
    (hclient : slot'.clientState = slot.clientState) (hclient' : call'.client = call.client)
    (hterm : isTerminal slot'.state = call'.completed)
    (hst : Stored call'.outcome slot' call'.raft.storing) : Coh call' slot' where
  tag := by rw [htag, htag', h.tag]
  client := by rw [hclient, hclient', h.client]
  terminal := hterm
  stored := by
    rw [storing_of_not_failing hf]
    exact hst

/-- Each store of a completion takes the outcome to the next one. -/
theorem Coh.step (h : Coh call slot) (hcompl : Completion call)
    (ht : CallTrans c call slot a call' slot') : Coh call' slot' := by
  have hraft' {raft : Raft} (hr : call.raft = raft) (hne : raft ≠ .idle) :
      call.life.failing = false :=
    hcompl.not_failing (hcompl.not_rejected (hr ▸ hne))
  cases ht with
  | @failError err hl =>
      have hst : call.outcome = some (err, slot.retval) := by
        simpa [Call.storing, hl, Stored] using h.stored
      exact ⟨h.tag, h.client, h.terminal, by simp [Call.storing, Stored, hst]⟩
  | @failState err hl =>
      have hst : call.outcome = some (err, slot.retval) ∧ slot.error = err := by
        simpa [Call.storing, hl, Stored] using h.stored
      have hidle := (hcompl.rejected (hcompl.failing (by simp [hl, Life.failing])).1).1
      refine ⟨h.tag, h.client, rfl, ?_⟩
      simp [Call.storing, Stored, hidle, Raft.storing, hst]
  | start hl hu => exact ⟨h.tag, h.client, h.terminal, h.stored⟩
  | use hu => exact h.use_step hu
  | leave hu => exact ⟨h.tag, h.client, h.terminal, h.stored⟩
  | wake hw => exact h.soft ⟨rfl, rfl, rfl, rfl, rfl⟩
  | raftLock hraft ho =>
      refine h.keep ⟨rfl, rfl, rfl, rfl, rfl⟩ rfl rfl rfl rfl ?_
      unfold Call.storing
      split <;> simp_all [Raft.storing]
  | replyValue hraft =>
      exact h.byRaft (hraft' hraft (by simp)) rfl rfl rfl rfl h.terminal rfl
  | replyError hraft =>
      have hnone := (hcompl.quiet (hcompl.not_rejected (by simp [hraft])) (.inr hraft)).1
      have hzero : slot.retval = 0 := by
        simpa [Raft.storing, Stored, hnone] using h.stored_raft hcompl hraft (by simp)
      refine h.byRaft (hraft' hraft (by simp)) rfl rfl rfl rfl h.terminal ?_
      simp [Raft.storing, Reply.beforeStore, Stored, hzero]
  | storeRetval hraft =>
      have hst := h.stored_raft hcompl hraft (by simp)
      exact h.byRaft (hraft' hraft (by simp)) rfl rfl rfl rfl h.terminal hst
  | storeError hraft =>
      have hst := h.stored_raft hcompl hraft (by simp)
      exact h.byRaft (hraft' hraft (by simp)) rfl rfl rfl rfl h.terminal ⟨hst, rfl⟩
  | @storeState w err hraft hs =>
      obtain ⟨hout, herr⟩ := h.stored_raft hcompl hraft (by simp)
      exact h.byRaft (hraft' hraft (by simp)) rfl rfl rfl rfl (isTerminal_finalState err)
        (.inr (by simp [hout, herr]))
  | notify hraft hn =>
      have hst := h.stored_raft hcompl hraft (by simp)
      exact h.byRaft (hraft' hraft (by simp)) rfl rfl rfl rfl h.terminal hst
  | record hraft =>
      have hst := h.stored_raft hcompl hraft (by simp)
      exact h.byRaft (hraft' hraft (by simp)) rfl rfl rfl rfl h.terminal hst
  | raftUnlock hraft =>
      have hst : Stored call.outcome slot none := by
        rcases hraft with hraft | hraft
        · exact h.stored_raft hcompl hraft (by simp)
        · exact h.stored_raft hcompl hraft (by simp)
      refine h.byRaft ?_ rfl rfl rfl rfl h.terminal hst
      rcases hraft with hraft | hraft
      · exact hraft' hraft (by simp)
      · exact hraft' hraft (by simp)
  | dispose hl ha =>
      exact h.keep ⟨rfl, rfl, rfl, rfl, rfl⟩ rfl rfl rfl rfl (by simp [Call.storing, hl])
  | load hl =>
      exact h.keep ⟨rfl, rfl, rfl, rfl, rfl⟩ rfl rfl rfl rfl (by simp [Call.storing, hl])
  | abandon hl =>
      refine ⟨h.tag, rfl, h.terminal, ?_⟩
      have hst : Stored call.outcome slot call.raft.storing := by
        simpa [Call.storing, hl] using h.stored
      exact hst

end Coherence

/-- The invariants of a call, without its slot. -/
structure CallOk (call : Call τ) : Prop where
  completion : Completion call
  usage : Usage call
  lifecycle : Lifecycle call

section CallOk
variable {call call' : Call τ}

theorem callOk_unborn : CallOk (Call.unborn : Call τ) where
  completion := ⟨by simp [Call.unborn], by simp [Call.unborn], by simp [Call.unborn],
    by simp [Call.unborn], by simp [Call.unborn, Life.failing], by simp [Call.unborn]⟩
  usage := ⟨by simp [Call.unborn], by simp [Call.unborn], fun _ => trivial,
    by simp [Call.unborn, Call.entered], by simp [Call.unborn]⟩
  lifecycle := by simp [Lifecycle, Call.unborn]

/-- A call is deallocated after its completion. -/
theorem CallOk.completed_of_frees (h : CallOk call) (hf : call.frees ≠ 0) :
    call.completed = true := by
  have hl := h.lifecycle
  unfold Lifecycle at hl
  split at hl
  all_goals first
    | exact absurd hl.2.2.1 hf
    | exact (h.usage.observed hl.1).1
    | exact hl.2.2.2.2
    | exact hl.2.1
    | exact hl.elim

variable [DecidableEq τ] {c : ℕ} {slot slot' : BaseSlot (Actor τ)} {a : CallAct τ}

theorem CallOk.step (h : CallOk call) (hc : call.life.live = true → Coh call slot)
    (ht : CallTrans c call slot a call' slot')
    (hr : a = .raftLock → call.rejected = false) : CallOk call' where
  completion := h.completion.step ht hr
  usage := h.usage.step h.completion h.lifecycle hc ht
  lifecycle := h.lifecycle.step h.usage hc ht

/-- What no step on the slot changes. -/
theorem CallTrans.fixed (ht : CallTrans c call slot a call' slot') :
    call'.addr = call.addr ∧ call'.tag = call.tag ∧ call'.buf = call.buf ∧
      call'.life.live = call.life.live := by
  cases ht with
  | failError hl | failState hl => simp [hl, Life.live]
  | dispose hl ha => simp [hl, Life.live]
  | load hl =>
      refine ⟨rfl, rfl, rfl, ?_⟩
      cases slot.clientState <;> simp [hl, Life.live, Dispose.branch]
  | abandon hl => simp [hl, Life.live]
  | _ => exact ⟨rfl, rfl, rfl, rfl⟩

/-- A thread which comes to the node of a deallocated slot touches the mutex and
the condition variable at most. -/
theorem CallTrans.soft_of_dead (ht : CallTrans c call slot a call' slot') (h : CallOk call)
    (hdead : call.life.live = false) (hraft : call.raft ≠ .idle → call.completed = true) :
    Soft slot slot' := by
  have hstore {r : Reply} (hr : call.raft = .replying r) (hb : r.beforeStore = true) : False := by
    have hfalse := (h.completion.replying r hr).2
    rw [hraft (by simp [hr]), hb] at hfalse
    simp at hfalse
  cases ht with
  | failError hl | failState hl | load hl | abandon hl => simp [hl, Life.live] at hdead
  | @use t use slot' hut =>
      have hheld := h.usage.held_of_use hut
      simp [hheld, Life.live] at hdead
  | storeRetval hr | storeError hr | storeState hr hs => exact (hstore hr rfl).elim
  | _ => exact ⟨rfl, rfl, rfl, rfl, rfl⟩

end CallOk

end Libraft.Pool
