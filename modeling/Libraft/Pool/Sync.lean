import Libraft.Pool.Futures

/-!
# Functions which give the answer back through a pointer

`raft_apply_sync` and `raft_leader`, called by any number of threads beside all
other uses of the pool. Both return the outcome of the call which they have
sent. `raft_apply_sync` leaves nothing to the collector. `raft_leader` does not
return when there is no leader to tell of, if it finds this out without waiting.

## Implementation notes

As with the queries, the statements of a function are steps between the steps
of the pool, and nobody else knows its future. The value is what has been
written to `*res`, with the handle of a string in place of its address.
-/

namespace Libraft.Pool

open Libraft.Foundation Libraft.Calls

variable {τ ρ : Type*}

inductive SyncFn
  /-- `sent` says that the command passes the tests of `raft_apply` -/
  | applySync (buf : Option ℕ) (sent : Bool)
  | leader
  deriving DecidableEq, Repr

namespace SyncFn

def tag : SyncFn → CallTag
  | .applySync _ _ => .apply
  | .leader => .getLeader

def buf : SyncFn → Option ℕ
  | .applySync buf _ => buf
  | .leader => none

/-- The argument of `make_error_request`. -/
def err : SyncFn → Option RaftError
  | .applySync _ false => some .invalidAddress
  | .applySync _ true | .leader => none

/-- `raft_future_get_fsm_reply`, or `future_get` inside `future_eat`. -/
def op : SyncFn → Op
  | .applySync _ _ => .getFsmReply true
  | .leader => .futureGet

/-- `raft_future_wait` is called first, for its effect. -/
def waits : SyncFn → Bool
  | .applySync _ _ => true
  | .leader => false

theorem suits_op (f : SyncFn) : suits f.tag f.op = true := by
  cases f <;> rfl

end SyncFn

/-- Where the function stands with its future. -/
inductive SyncStage
  /-- inside `send_api_request` or `make_error_request` -/
  | sending
  /-- inside `raft_future_wait` -/
  | waiting
  /-- before `raft_future_get_fsm_reply` -/
  | fetch
  | fetching
  /-- before `raft_future_dispose` -/
  | dispose (err : RaftError) (val : Option UInt64)
  /-- inside `raft_future_dispose` -/
  | disposing (err : RaftError) (val : Option UInt64)
  deriving DecidableEq, Repr

inductive Sync
  | idle
  /-- `res` is null -/
  | refused
  | on (f : SyncFn) (c : ℕ) (stage : SyncStage)
  | returned (f : SyncFn) (c : ℕ) (err : RaftError) (val : Option UInt64)
  /-- the assertion of `raft_leader` has failed -/
  | aborted (c : ℕ)
  deriving DecidableEq, Repr

structure Syncing (τ ρ : Type*) where
  pool : State τ ρ
  syncs : τ → Sync
  /-- the calls which belong to the functions, with their threads -/
  owner : ℕ → Option τ

inductive SyncAct (τ ρ : Type*)
  /-- the flag says whether `res` is non-null -/
  | call (t : τ) (f : SyncFn) (res : Bool)
  /-- the next statement of the function which thread `t` is in -/
  | go (t : τ)
  | pool (a : Act τ ρ)

/-- What an operation returns and writes. -/
def Result.fetched : Result → Option (RaftError × Option UInt64)
  | .got err val => some (err, val)
  | .refused err => some (err, none)
  | .waited _ | .polled _ | .assertFailed => none

/-- The end of the function, with the assertion of `raft_leader`. -/
def SyncFn.result (f : SyncFn) (c : ℕ) (err : RaftError) (val : Option UInt64) : Sync :=
  match f with
  | .applySync _ _ => .returned f c err val
  | .leader => if err = .success ∧ val.getD 0 = 0 then .aborted c else .returned .leader c err val

section Step
variable [DecidableEq τ] [DecidableEq ρ]

/-- A step of the pool after which thread `t` stands at `sync`. -/
def Syncing.poolStep (s : Syncing τ ρ) (t : τ) (a : Act τ ρ) (sync : Sync) :
    Option (Syncing τ ρ) :=
  (step s.pool a).map fun p => { s with pool := p, syncs := Function.update s.syncs t sync }

def Syncing.go (s : Syncing τ ρ) (t : τ) : Option (Syncing τ ρ) :=
  match s.syncs t with
  | .on f c .sending =>
      if (s.pool.calls c).life = .held then
        if f.waits then s.poolStep t (.call c (.start t .wait)) (.on f c .waiting)
        else s.poolStep t (.call c (.start t f.op)) (.on f c .fetching)
      else none
  | .on f c .waiting =>
      match (s.pool.calls c).uses t with
      | .done _ _ _ => s.poolStep t (.call c (.leave t)) (.on f c .fetch)
      | _ => none
  | .on f c .fetch => s.poolStep t (.call c (.start t f.op)) (.on f c .fetching)
  | .on f c .fetching =>
      match (s.pool.calls c).uses t with
      | .done _ _ res =>
          res.fetched.bind fun (err, val) =>
            s.poolStep t (.call c (.leave t)) (.on f c (.dispose err val))
      | _ => none
  | .on f c (.dispose err val) =>
      s.poolStep t (.call c .dispose) (.on f c (.disposing err val))
  | .on f c (.disposing err val) =>
      match (s.pool.calls c).life with
      | .orphaned | .gone =>
          some { s with syncs := Function.update s.syncs t (f.result c err val) }
      | _ => none
  | .idle | .refused | .returned _ _ _ _ | .aborted _ => none

def Syncing.call (s : Syncing τ ρ) (t : τ) (f : SyncFn) (res : Bool) : Option (Syncing τ ρ) :=
  match s.syncs t with
  | .on _ _ _ | .aborted _ => none
  | .idle | .refused | .returned _ _ _ _ =>
      if res then
        (s.poolStep t (.create f.tag f.buf f.err) (.on f s.pool.next .sending)).map fun s' =>
          { s' with owner := Function.update s.owner s.pool.next (some t) }
      else some { s with syncs := Function.update s.syncs t .refused }

def Syncing.step (s : Syncing τ ρ) : SyncAct τ ρ → Option (Syncing τ ρ)
  | .call t f res => s.call t f res
  | .go t => s.go t
  | .pool a =>
      if a.future.any fun c => (s.owner c).isSome then none
      else (Pool.step s.pool a).map fun p => { s with pool := p }

/-- The functions beside all other uses of the pool as a scheduled system. -/
def syncing : Scheduled (Syncing τ ρ) (SyncAct τ ρ) where
  init := ⟨initial, fun _ => .idle, fun _ => none⟩
  step := Syncing.step

end Step

/-- A call which was completed with an error has no value. -/
def PlainErrors (p : State τ ρ) : Prop :=
  ∀ c o, (p.calls c).outcome = some o → o.1 ≠ .success → o.2 = 0

/-- What the function has found out about the outcome of its call. -/
structure Told (f : SyncFn) (call : Call τ) (err : RaftError) (val : Option UInt64) : Prop where
  completed : call.completed = true
  outcome : call.outcome = some (err, val.getD 0) ∨
    f = .leader ∧ err = .success ∧ ∃ e, call.outcome = some (e, val.getD 0)
  written : val.isSome = true ↔ err = .success

/-- What the function may rely on. -/
def SyncStage.Holds (f : SyncFn) (t : τ) (call : Call τ) : SyncStage → Prop
  | .sending => call.life = .held ∨ ∃ pc, call.life = .creating pc
  | .waiting => call.life = .held ∧ call.waitCalled = true
  | .fetch => call.life = .held ∧ call.waitCalled = true
  | .fetching => call.life = .held ∧ (f.waits = true → call.waitCalled = true) ∧
      works f.op (call.uses t) = true
  | .dispose err val => call.life = .held ∧ (f.waits = true → call.waitCalled = true) ∧
      Told f call err val
  | .disposing err val =>
      (f.waits = true → call.client = .observed ∧ call.life.ending = true) ∧ Told f call err val

/-- The call belongs to the function. -/
structure Owned (p : State τ ρ) (owner : ℕ → Option τ) (t : τ) (f : SyncFn) (c : ℕ) : Prop where
  lt : c < p.next
  owner : owner c = some t
  tag : (p.calls c).tag = f.tag

/-- What a thread knows of its function. -/
def SyncOk (p : State τ ρ) (owner : ℕ → Option τ) (t : τ) : Sync → Prop
  | .idle | .refused => True
  | .on f c stage => Owned p owner t f c ∧ stage.Holds f t (p.calls c)
  | .returned f c err val => Owned p owner t f c ∧ (p.calls c).completed = true ∧
      (p.calls c).outcome = some (err, val.getD 0) ∧ (val.isSome = true ↔ err = .success) ∧
      (f.waits = true → (p.calls c).client = .observed ∧ (p.calls c).life = .gone)
  | .aborted c => Owned p owner t .leader c ∧ (p.calls c).completed = true ∧
      ∃ err, (p.calls c).outcome = some (err, 0)

section Keep
variable [DecidableEq τ] [DecidableEq ρ] {p p' : State τ ρ} {a : Act τ ρ}
variable {owner : ℕ → Option τ} {t : τ} {f : SyncFn} {c : ℕ} {sync : Sync}

theorem PlainErrors.trans (h : PlainErrors p) (ht : Trans p a p') : PlainErrors p' := by
  have hupd {d : ℕ} {call : Call τ} (hcalls : p'.calls = Function.update p.calls d call)
      (hd : ∀ o, call.outcome = some o → o.1 ≠ .success → o.2 = 0) : PlainErrors p' := by
    intro c o
    rw [hcalls]
    by_cases hcd : c = d
    · subst hcd
      simpa using hd o
    · simpa [hcd] using h c o
  cases ht with
  | create he hb => exact hupd rfl nofun
  | @allocate d n err hl hp =>
      cases err with
      | none => exact hupd rfl (h d)
      | some err => exact hupd rfl (by rintro o ⟨⟩ _; rfl)
  | sentClosed hl hp => exact hupd rfl (by rintro o ⟨⟩ _; rfl)
  | @call d b call slot hcall hr =>
      refine hupd rfl ?_
      cases hcall with
      | replyValue hl =>
          rintro o ⟨⟩ hne
          exact absurd rfl hne
      | replyError hl => exact by rintro o ⟨⟩ _; rfl
      | _ => exact h d
  | enqueue _ _ | sentOk _ _ | track _ _ | trackClosed _ _ | cleanup _ | deallocate _ | count _
  | testDone _ _ => exact hupd rfl (h _)
  | release hg => intro c o; simpa using h c o
  | _ => exact h

theorem Told.keep {err : RaftError} {val : Option UInt64} (h : Told f (p.calls c) err val)
    (ht : Trans p a p') (hi : Inv p) : Told f (p'.calls c) err val := by
  obtain ⟨hd, ho⟩ := ht.outcome_kept hi h.completed
  exact ⟨hd, ho ▸ h.outcome, h.written⟩

theorem Owned.trans (h : Owned p owner t f c) (ht : Trans p a p') : Owned p' owner t f c where
  lt := (ht.tag_eq h.lt).1
  owner := h.owner
  tag := (ht.tag_eq h.lt).2.trans h.tag

theorem SyncStage.Holds.keep {stage : SyncStage} (h : stage.Holds f t (p.calls c))
    (ho : Owned p owner t f c) (ht : Trans p a p') (hi : Inv p) (ha : a.future ≠ some c) :
    stage.Holds f t (p'.calls c) := by
  have hne : a ≠ .call c .dispose := by
    rintro rfl
    exact ha rfl
  have hchange := ht.callChange hi ho.lt
  cases stage with
  | sending => exact sending_of_change hchange h hne
  | waiting | fetch => exact ⟨ht.held hi h.1 hne, waited_of_change hchange h.1 h.2⟩
  | fetching =>
      exact ⟨ht.held hi h.1 hne, fun hf => waited_of_change hchange h.1 (h.2.1 hf),
        works_of_trans ht ho.lt ha (ho.tag ▸ f.suits_op) h.2.2⟩
  | dispose err val =>
      exact ⟨ht.held hi h.1 hne, fun hf => waited_of_change hchange h.1 (h.2.1 hf),
        h.2.2.keep ht hi⟩
  | disposing err val =>
      exact ⟨fun hf => ending_of_change hchange hi (h.1 hf).1 (h.1 hf).2, h.2.keep ht hi⟩

/-- The call of a function which is under way. -/
def Sync.call : Sync → Option ℕ
  | .on _ c _ => some c
  | _ => none

/-- A step which is not on the future of the function. -/
theorem SyncOk.keep (h : SyncOk p owner t sync) (hi : Inv p) (ht : Trans p a p')
    (ha : ∀ c ∈ sync.call, a.future ≠ some c) : SyncOk p' owner t sync := by
  cases sync with
  | idle | refused => trivial
  | on f c stage => exact ⟨h.1.trans ht, h.2.keep h.1 ht hi (ha c rfl)⟩
  | returned f c err val =>
      obtain ⟨hown, hd, hout, hval, hgone⟩ := h
      obtain ⟨hd', ho⟩ := ht.outcome_kept hi hd
      have hchange := ht.callChange hi hown.lt
      refine ⟨hown.trans ht, hd', ho ▸ hout, hval, fun hf => ?_⟩
      obtain ⟨hobs, hl⟩ := hgone hf
      exact ⟨(ending_of_change hchange hi hobs (by rw [hl]; rfl)).1, gone_of_change hchange hl⟩
  | aborted c =>
      obtain ⟨hown, hd, hout⟩ := h
      obtain ⟨hd', ho⟩ := ht.outcome_kept hi hd
      exact ⟨hown.trans ht, hd', ho ▸ hout⟩

omit [DecidableEq τ] [DecidableEq ρ] in
theorem SyncOk.setOwner {owner' : ℕ → Option τ} (h : SyncOk p owner t sync)
    (ho : ∀ c < p.next, owner' c = owner c) : SyncOk p owner' t sync := by
  have hown {f : SyncFn} {c : ℕ} (h : Owned p owner t f c) : Owned p owner' t f c :=
    ⟨h.lt, (ho c h.lt).trans h.owner, h.tag⟩
  cases sync with
  | idle | refused => trivial
  | on f c stage => exact ⟨hown h.1, h.2⟩
  | returned f c err val => exact ⟨hown h.1, h.2⟩
  | aborted c => exact ⟨hown h.1, h.2⟩

omit [DecidableEq τ] [DecidableEq ρ] in
theorem SyncOk.owner_eq (h : SyncOk p owner t sync) (hc : sync.call = some c) :
    owner c = some t := by
  cases sync with
  | on f d stage =>
      cases hc
      exact h.1.owner
  | _ => cases hc

end Keep

section Ends
variable {f : SyncFn} {t : τ} {call : Call τ} {err : RaftError} {val : Option UInt64}

/-- What the second operation of `raft_apply_sync`, or the only one of `raft_leader`, tells. -/
theorem SyncStage.Holds.fetched {op : Op} {fast : Bool} {res : Result}
    (h : SyncStage.fetching.Holds f t call) (htag : call.tag = f.tag)
    (hplain : ∀ o, call.outcome = some o → o.1 ≠ .success → o.2 = 0)
    (hok : UseOk call (call.uses t)) (hu : call.uses t = .done op fast res)
    (hres : res.fetched = some (err, val)) : Told f call err val := by
  obtain ⟨-, -, hw⟩ := h
  rw [hu] at hw hok
  cases res with
  | got err' val' =>
      cases hres
      obtain ⟨rfl, -⟩ : op = f.op ∧ op ≠ .wait := by simpa [works] using hw
      obtain ⟨hd, e, v, hout, hgot⟩ := hok
      have hzero : e ≠ .success → v = 0 := hplain (e, v) hout
      rw [htag] at hgot
      cases f with
      | applySync buf sent =>
          by_cases he : e = .success
          · obtain ⟨rfl, rfl⟩ : err = e ∧ val = some v := by
              simpa [SyncFn.op, SyncFn.tag, Op.report, Op.isGet, Op.result, getPtrResult,
                CallTag.hasRet, he] using hgot
            exact ⟨hd, .inl (by simpa using hout), by simp [he]⟩
          · obtain ⟨rfl, rfl⟩ : err = e ∧ val = none := by
              simpa [SyncFn.op, SyncFn.tag, Op.report, Op.isGet, Op.result, getPtrResult,
                CallTag.hasRet, he] using hgot
            exact ⟨hd, .inl (by simpa [hzero he] using hout), by simp [he]⟩
      | leader =>
          by_cases hslow : fast = false ∧ e ≠ .success
          · obtain ⟨rfl, rfl⟩ : err = e ∧ val = none := by
              simpa [SyncFn.op, Op.report, Op.isGet, hslow] using hgot
            exact ⟨hd, .inl (by simpa [hzero hslow.2] using hout), by simp [hslow.2]⟩
          · -- the error of the slot is not looked at
            obtain ⟨rfl, rfl⟩ : err = .success ∧ val = some v := by
              simpa [SyncFn.op, SyncFn.tag, Op.report, Op.isGet, Op.result, futureGetResult,
                CallTag.hasRet, Op.checksHandle, hslow] using hgot
            exact ⟨hd, .inr ⟨rfl, rfl, e, by simpa using hout⟩, by simp⟩
  | refused err' => cases hw
  | waited _ | polled _ | assertFailed => cases hres

variable {p : State τ ρ} {owner : ℕ → Option τ} {c : ℕ}

/-- `raft_future_dispose` has returned. -/
theorem SyncOk.result (h : SyncOk p owner t (.on f c (.disposing err val)))
    (hplain : PlainErrors p)
    (hl : (p.calls c).life = .orphaned ∨ (p.calls c).life = .gone) :
    SyncOk p owner t (f.result c err val) := by
  obtain ⟨hown, hend, htold⟩ := h
  have hgone (hf : f.waits = true) :
      (p.calls c).client = .observed ∧ (p.calls c).life = .gone := by
    obtain ⟨hobs, hlife⟩ := hend hf
    refine ⟨hobs, hl.resolve_left fun ho => ?_⟩
    simp [ho, Life.ending] at hlife
  cases f with
  | applySync buf sent =>
      have hout := htold.outcome.resolve_right (by simp)
      exact ⟨hown, htold.completed, hout, htold.written, hgone⟩
  | leader =>
      simp only [SyncFn.result]
      split
      case isTrue hnull =>
          refine ⟨hown, htold.completed, ?_⟩
          rcases htold.outcome with hout | ⟨-, -, e, hout⟩
          · exact ⟨err, hnull.2 ▸ hout⟩
          · exact ⟨e, hnull.2 ▸ hout⟩
      case isFalse hval =>
          refine ⟨hown, htold.completed, ?_, htold.written, fun hf => absurd hf Bool.false_ne_true⟩
          rcases htold.outcome with hout | ⟨-, rfl, e, hout⟩
          · exact hout
          · -- a value tells that the call was successful, even if nobody has looked
            have he : e = .success := by
              by_contra hne
              exact hval ⟨rfl, hplain c _ hout hne⟩
            rw [hout, he]

end Ends

section Run
variable [DecidableEq τ] [DecidableEq ρ] {s s' : Syncing τ ρ} {t : τ}

/-- The invariant of the functions. -/
structure SyncsOk (s : Syncing τ ρ) : Prop where
  pool : system.Reachable s.pool
  plain : PlainErrors s.pool
  syncs : ∀ t, SyncOk s.pool s.owner t (s.syncs t)

theorem SyncsOk.inv (h : SyncsOk s) : Inv s.pool := inv_of_reachable h.pool

/-- A step of the pool which thread `t` takes on its own future. -/
theorem SyncsOk.poolStep (h : SyncsOk s) {b : CallAct τ} {f : SyncFn} {c : ℕ}
    {stage stage' : SyncStage} (hon : s.syncs t = .on f c stage)
    (hs : s.poolStep t (.call c b) (.on f c stage') = some s')
    (hb : (Act.call c b : Act τ ρ).future = some c)
    (hnew : ∀ call slot, CallTrans c (s.pool.calls c) (s.pool.slot c) b call slot →
      stage'.Holds f t call) : SyncsOk s' := by
  obtain ⟨p, hp, rfl⟩ := Option.map_eq_some_iff.mp hs
  have ht : Trans s.pool (.call c b) p := trans_of_step hp
  have hown : Owned s.pool s.owner t f c := by
    have hsync := h.syncs t
    rw [hon] at hsync
    exact hsync.1
  refine ⟨h.pool.next (a := .call c b) hp, h.plain.trans ht, fun u => ?_⟩
  by_cases hu : u = t
  · subst hu
    simp only [Function.update_self]
    refine ⟨hown.trans ht, ?_⟩
    cases ht with
    | call hcall hr => simpa using hnew _ _ hcall
  · simp only [Function.update_of_ne hu]
    refine (h.syncs u).keep h.inv ht fun d hd he => ?_
    obtain rfl : c = d := Option.some.inj (hb.symm.trans he)
    have hother := (h.syncs u).owner_eq hd
    rw [hown.owner] at hother
    exact hu (Option.some.inj hother).symm

theorem SyncsOk.setSync (h : SyncsOk s) {sync : Sync} (hsync : SyncOk s.pool s.owner t sync) :
    SyncsOk { s with syncs := Function.update s.syncs t sync } := by
  refine ⟨h.pool, h.plain, fun u => ?_⟩
  by_cases hu : u = t
  · subst hu
    simpa using hsync
  · simpa only [Function.update_of_ne hu] using h.syncs u

theorem SyncsOk.go (h : SyncsOk s) (hs : s.go t = some s') : SyncsOk s' := by
  have hsync := h.syncs t
  cases hon : s.syncs t with
  | on f c stage =>
      rw [hon] at hsync
      obtain ⟨hown, hst⟩ := hsync
      cases stage with
      | sending =>
          simp only [Syncing.go, hon] at hs
          split at hs
          · split at hs
            case isTrue hf =>
                refine h.poolStep hon hs rfl fun call slot hcall => ?_
                cases hcall with
                | start hl hu => exact ⟨hl, by simp⟩
            case isFalse hf =>
                refine h.poolStep hon hs rfl fun call slot hcall => ?_
                cases hcall with
                | start hl hu =>
                    refine ⟨hl, fun hw => absurd hw hf, ?_⟩
                    simpa [Call.setUse, hown.tag] using works_first f.suits_op
          · cases hs
      | waiting =>
          simp only [Syncing.go, hon] at hs
          split at hs
          · refine h.poolStep hon hs rfl fun call slot hcall => ?_
            cases hcall with
            | leave _ => exact hst
          · cases hs
      | fetch =>
          simp only [Syncing.go, hon] at hs
          refine h.poolStep hon hs rfl fun call slot hcall => ?_
          cases hcall with
          | start hl hu =>
              refine ⟨hl, fun _ => by simp [hst.2], ?_⟩
              simpa [Call.setUse, hown.tag] using works_first f.suits_op
      | fetching =>
          simp only [Syncing.go, hon] at hs
          split at hs
          case h_1 op fast res hu =>
              obtain ⟨⟨err, val⟩, hres, hs⟩ := Option.bind_eq_some_iff.mp hs
              have htold := hst.fetched hown.tag (h.plain c) ((h.inv.calls c).usage.use t) hu hres
              refine h.poolStep hon hs rfl fun call slot hcall => ?_
              cases hcall with
              | leave _ => exact ⟨hst.1, hst.2.1, htold.completed, htold.outcome, htold.written⟩
          case h_2 => cases hs
      | dispose err val =>
          simp only [Syncing.go, hon] at hs
          obtain ⟨-, hw, htold⟩ := hst
          refine h.poolStep hon hs rfl fun call slot hcall => ?_
          cases hcall with
          | dispose hl hact =>
              refine ⟨fun hf => ⟨?_, rfl⟩, htold.completed, htold.outcome, htold.written⟩
              exact (h.inv.calls c).usage.observed_of_entered hact (by simp [Call.entered, hw hf])
      | disposing err val =>
          simp only [Syncing.go, hon] at hs
          have hend : SyncOk s.pool s.owner t (.on f c (.disposing err val)) := ⟨hown, hst⟩
          split at hs <;> rename_i hl
          · cases hs
            exact h.setSync (hend.result h.plain (.inl hl))
          · cases hs
            exact h.setSync (hend.result h.plain (.inr hl))
          · cases hs
  | _ => simp [Syncing.go, hon] at hs

/-- A function is called. -/
theorem SyncsOk.call (h : SyncsOk s) {f : SyncFn} {res : Bool}
    (hs : s.call t f res = some s') : SyncsOk s' := by
  have hsend (hs : (s.poolStep t (.create f.tag f.buf f.err) (.on f s.pool.next .sending)).map
      (fun s' => { s' with owner := Function.update s.owner s.pool.next (some t) }) = some s') :
      SyncsOk s' := by
    obtain ⟨s₁, hs₁, rfl⟩ := Option.map_eq_some_iff.mp hs
    obtain ⟨p, hp, rfl⟩ := Option.map_eq_some_iff.mp hs₁
    have ht : Trans s.pool (.create f.tag f.buf f.err) p := trans_of_step hp
    refine ⟨h.pool.next (a := .create f.tag f.buf f.err) hp, h.plain.trans ht, fun u => ?_⟩
    by_cases hu : u = t
    · subst hu
      simp only [Function.update_self]
      cases ht with
      | create he hb =>
          exact ⟨⟨Nat.lt_succ_self _, by simp, by simp [Call.create]⟩,
            .inr ⟨.allocate f.err, by simp [Call.create]⟩⟩
    · simp only [Function.update_of_ne hu]
      refine ((h.syncs u).setOwner fun c hc => ?_).keep h.inv ht (by simp [Act.future])
      exact Function.update_of_ne hc.ne _ _
  unfold Syncing.call at hs
  split at hs
  · cases hs
  · cases hs
  all_goals
    split at hs
    · exact hsend hs
    · cases hs
      exact h.setSync trivial

theorem SyncsOk.step (h : SyncsOk s) {a : SyncAct τ ρ} (hs : s.step a = some s') :
    SyncsOk s' := by
  cases a with
  | call t f res => exact h.call hs
  | go t => exact h.go hs
  | pool a =>
      simp only [Syncing.step] at hs
      split at hs <;> rename_i hf
      · cases hs
      · obtain ⟨p, hp, rfl⟩ := Option.map_eq_some_iff.mp hs
        have ht : Trans s.pool a p := trans_of_step hp
        refine ⟨h.pool.next hp, h.plain.trans ht, fun u => ?_⟩
        refine (h.syncs u).keep h.inv ht fun c hc he => hf ?_
        simp [he, (h.syncs u).owner_eq hc]

theorem syncsOk_of_reachable (h : syncing.Reachable s) : SyncsOk s :=
  h.invariant (I := SyncsOk) ⟨.init, nofun, fun _ => trivial⟩ fun _ _ _ _ hs ht _ => hs.step ht

/-- What the functions return and write is the outcome of the call which they have sent.
`raft_apply_sync` gives its slot back by itself. The assertion of `raft_leader` fails only
for a call which was completed without a handle. -/
theorem sync_functions_tell_outcome (h : syncing.Reachable s) (t : τ) (c : ℕ) :
    (∀ f err val, s.syncs t = .returned f c err val →
      (s.pool.calls c).tag = f.tag ∧ (s.pool.calls c).outcome = some (err, val.getD 0) ∧
        (val.isSome = true ↔ err = .success) ∧
        (f.waits = true → (s.pool.calls c).frees = 1 ∧ (s.pool.calls c).handed = false)) ∧
      (s.syncs t = .aborted c →
        (s.pool.calls c).tag = .getLeader ∧ ∃ err, (s.pool.calls c).outcome = some (err, 0)) := by
  have hok := syncsOk_of_reachable h
  have hsync := hok.syncs t
  refine ⟨fun f err val hret => ?_, fun hab => ?_⟩
  · rw [hret] at hsync
    obtain ⟨hown, -, hout, hval, hend⟩ := hsync
    refine ⟨hown.tag, hout, hval, fun hf => ?_⟩
    obtain ⟨hobs, hl⟩ := hend hf
    exact (hok.inv.calls c).freed_of_gone hl hobs
  · rw [hab] at hsync
    exact ⟨hsync.1.tag, hsync.2.2⟩

end Run

/-- Thread `t` has its call 0 answered with 8 and goes through `raft_apply_sync`. -/
def applySyncRun (t : Fin 2) : List (SyncAct (Fin 2) (Fin 2)) :=
  [SyncAct.call t (.applySync (some 0) true) true] ++
    ((sendRun 0 0 .apply none).tail ++ takeRun 0 ++ replyRun 0 8).map SyncAct.pool ++
    [SyncAct.go t] ++ List.replicate 5 (SyncAct.pool (.call 0 (.use t))) ++
    [SyncAct.go t, SyncAct.go t] ++ List.replicate 2 (SyncAct.pool (.call 0 (.use t))) ++
    [SyncAct.go t, SyncAct.go t, SyncAct.pool (.call 0 .disposeStep), SyncAct.pool (.dispose 0),
      SyncAct.pool (.dispose 0), SyncAct.go t]

/-- Thread `t` finds its call 1 failed when it comes to `future_get` in `raft_leader`. -/
def failedLeaderRun (t : Fin 2) : List (SyncAct (Fin 2) (Fin 2)) :=
  [SyncAct.call t .leader true] ++ ((sendRun 1 0 .getLeader none).tail ++ takeRun 1 ++
    replyErrorRun 1 .notLeader).map SyncAct.pool ++
    [SyncAct.go t] ++ List.replicate 2 (SyncAct.pool (.call 1 (.use t))) ++
    [SyncAct.go t, SyncAct.go t, SyncAct.pool (.call 1 .disposeStep),
      SyncAct.pool (.call 1 .disposeStep), SyncAct.pool (.dispose 1), SyncAct.go t]

theorem sync_functions_tell_outcome_both :
    ∃ s : Syncing (Fin 2) (Fin 2),
      s.syncs 0 = .returned (.applySync (some 0) true) 0 .success (some 8) ∧
      (s.pool.calls 0).outcome = some (.success, 8) ∧ (s.pool.calls 0).frees = 1 ∧
      s.syncs 1 = .aborted 1 ∧ (s.pool.calls 1).tag = .getLeader := by
  obtain ⟨s, hs, hret, hab⟩ := Scheduled.exists_reachable_of_run syncing
    (applySyncRun 0 ++ failedLeaderRun 1)
    (fun s : Syncing (Fin 2) (Fin 2) =>
      s.syncs 0 = .returned (.applySync (some 0) true) 0 .success (some 8) ∧
        s.syncs 1 = .aborted 1) (by decide +kernel)
  obtain ⟨-, hout, -, hend⟩ := (sync_functions_tell_outcome hs 0 0).1 _ _ _ hret
  exact ⟨s, hret, hout, (hend rfl).1, hab, ((sync_functions_tell_outcome hs 1 1).2 hab).1⟩

end Libraft.Pool
