import Libraft.Pool.Results
import Libraft.Pool.Uses

/-!
# The synchronous queries

`raft_state`, `raft_last_contact` and `raft_last_index`: each sends a call of
its own, waits for the reply, fetches the value and disposes of the future. A
policy says what the Raft side answers to a call with a given tag.

## Implementation notes

The statements of a query are steps between the steps of the pool, which go
on by themselves while the query is inside `send_api_request`, an operation on
the future, or `raft_future_dispose`. Nobody else knows the future of a query.
A query ends by returning, or by throwing `queue_closed` out of
`raft_future_dispose`: an unobserved call is put into `orphaned_calls`, and this
queue may be closed. `RaftState` is an enumeration of 32 bits, and a `time_t` is
taken as its 64 bits.
-/

namespace Libraft.Pool

open Libraft.Foundation Libraft.Calls

variable {τ ρ : Type*}

inductive Query
  | state | lastContact | lastIndex
  deriving DecidableEq, Repr

/-- The tag of the call which the query sends. -/
def Query.tag : Query → CallTag
  | .state => .getState
  | .lastContact => .getState
  | .lastIndex => .lastIndex

/-- `raft_future_wait`, or `future_get` inside `future_eat`. -/
def Query.op : Query → Op
  | .state | .lastContact => .wait
  | .lastIndex => .futureGet

/-- The cast to the type which the query returns. -/
def Query.cast : Query → UInt64 → UInt64
  | .state, val => val.toUInt32.toUInt64
  | .lastContact, val | .lastIndex, val => val

/-- Where a query stands. -/
inductive Ask
  | idle
  /-- inside `send_api_request` -/
  | sending (q : Query) (c : ℕ)
  /-- inside `raft_future_wait` or `future_get` -/
  | fetching (q : Query) (c : ℕ)
  /-- before `future_get_f` -/
  | reading (q : Query) (c : ℕ)
  /-- before `raft_future_dispose` -/
  | dispose (q : Query) (c : ℕ) (val : UInt64)
  /-- inside `raft_future_dispose` -/
  | disposing (q : Query) (c : ℕ) (val : UInt64)
  | returned (q : Query) (c : ℕ) (val : UInt64)
  /-- `raft_future_dispose` has thrown `queue_closed` -/
  | threw (q : Query) (c : ℕ)
  deriving DecidableEq, Repr

/-- The query which has ended, its call, and what it has returned, if anything. -/
def Ask.ended : Ask → Option (Query × ℕ × Option UInt64)
  | .returned q c val => some (q, c, some val)
  | .threw q c => some (q, c, none)
  | .idle | .sending _ _ | .fetching _ _ | .reading _ _ | .dispose _ _ _ | .disposing _ _ _ => none

structure Asking (τ ρ : Type*) where
  pool : State τ ρ
  asks : τ → Ask
  /-- the calls which belong to queries, with their threads -/
  asked : ℕ → Option τ

inductive AskAct (τ ρ : Type*)
  | ask (t : τ) (q : Query)
  /-- the next statement of the query which thread `t` makes -/
  | go (t : τ)
  | pool (a : Act τ ρ)

/-- The steps with which a client uses its future. -/
def Act.future : Act τ ρ → Option ℕ
  | .call c (.start _ _) | .call c (.leave _) | .call c .dispose => some c
  | _ => none

section Step
variable [DecidableEq τ] [DecidableEq ρ]

/-- A step of the pool after which the query stands at `ask`. -/
def Asking.poolStep (s : Asking τ ρ) (t : τ) (a : Act τ ρ) (ask : Ask) : Option (Asking τ ρ) :=
  (step s.pool a).map fun p => { s with pool := p, asks := Function.update s.asks t ask }

/-- What follows the operation on the future. -/
def Ask.fetched (q : Query) (c : ℕ) : Result → Option Ask
  | .waited err => some (if err = .success then .reading q c else .dispose q c 0)
  | .got err val => some (.dispose q c (if err = .success then q.cast (val.getD 0) else 0))
  | _ => none

def Asking.go (s : Asking τ ρ) (t : τ) : Option (Asking τ ρ) :=
  match s.asks t with
  | .sending q c =>
      if (s.pool.calls c).life = .held then
        s.poolStep t (.call c (.start t q.op)) (.fetching q c)
      else none
  | .fetching q c =>
      match (s.pool.calls c).uses t with
      | .done _ _ res => (Ask.fetched q c res).bind (s.poolStep t (.call c (.leave t)))
      | _ => none
  | .reading q c =>
      -- the assertions of `future_get_f` and of `value`
      if isTerminal (s.pool.slot c).state && (s.pool.slot c).tag.hasRet then
        some { s with
          asks := Function.update s.asks t (.dispose q c (q.cast (s.pool.slot c).retval)) }
      else none
  | .dispose q c val => s.poolStep t (.call c .dispose) (.disposing q c val)
  | .disposing q c val =>
      match (s.pool.calls c).life with
      | .orphaned | .gone => some { s with asks := Function.update s.asks t (.returned q c val) }
      | .thrown => some { s with asks := Function.update s.asks t (.threw q c) }
      | _ => none
  | .idle | .returned _ _ _ | .threw _ _ => none

def Asking.step (s : Asking τ ρ) : AskAct τ ρ → Option (Asking τ ρ)
  | .ask t q =>
      match s.asks t with
      | .idle =>
          (s.poolStep t (.create q.tag none none) (.sending q s.pool.next)).map fun s' =>
            { s' with asked := Function.update s.asked s.pool.next (some t) }
      | _ => none
  | .go t => s.go t
  | .pool a =>
      if a.future.any fun c => (s.asked c).isSome then none
      else (Pool.step s.pool a).map fun p => { s with pool := p }

/-- Queries beside all other uses of the pool as a scheduled system. -/
def asking : Scheduled (Asking τ ρ) (AskAct τ ρ) where
  init := ⟨initial, fun _ => .idle, fun _ => none⟩
  step := Asking.step

end Step

/-- What the Raft side answers: an error code, and a value for a success. -/
abbrev Policy := CallTag → RaftError × UInt64

namespace Policy

/-- What a call with this tag is completed with. -/
def outcome (policy : Policy) (tag : CallTag) : RaftError × UInt64 :=
  if (policy tag).1 = .success then (.success, (policy tag).2) else ((policy tag).1, 0)

/-- What a query for this tag is to return. -/
def answer (policy : Policy) (tag : CallTag) : UInt64 := (policy.outcome tag).2

/-- The call of `reply` which the policy prescribes. -/
def reply (policy : Policy) (tag : CallTag) : Option UInt64 × RaftError :=
  if (policy tag).1 = .success then (some (policy tag).2, .success) else (none, (policy tag).1)

end Policy

/-- The call which the Raft side answers in the step, with the arguments of `reply`. -/
def AskAct.reply : AskAct τ ρ → Option (ℕ × Option UInt64 × RaftError)
  | .pool (.call c (.raftReply retval err)) => some (c, retval, err)
  | _ => none

/-- The Raft side answers a slot according to its tag. -/
def Obeys (policy : Policy) (s : Asking τ ρ) (a : AskAct τ ρ) (_ : Asking τ ρ) : Prop :=
  ∀ r ∈ a.reply, r.2 = policy.reply (s.pool.slot r.1).tag

instance (policy : Policy) (s : Asking τ ρ) (a : AskAct τ ρ) (s' : Asking τ ρ) :
    Decidable (Obeys policy s a s') :=
  inferInstanceAs (Decidable (∀ r ∈ a.reply, r.2 = policy.reply (s.pool.slot r.1).tag))

section Answers
variable {policy : Policy}

/-- Every call is completed with what the policy says, or failed by its creator. -/
def State.Answered (policy : Policy) (p : State τ ρ) : Prop :=
  ∀ c o, (p.calls c).outcome = some o →
    if (p.calls c).rejected then o.2 = 0 else o = policy.outcome (p.calls c).tag

/-- The answer to the tag which was sent. -/
def State.sentAnswer (policy : Policy) (p : State τ ρ) (c : ℕ) : UInt64 :=
  if (p.calls c).rejected then 0 else policy.answer (p.calls c).tag

theorem State.Answered.value_eq {p : State τ ρ} (h : p.Answered policy) {c : ℕ}
    {o : RaftError × UInt64} (ho : (p.calls c).outcome = some o) :
    o.2 = p.sentAnswer policy c ∧ (o.1 ≠ .success → o.2 = 0) := by
  have hc := h c o ho
  unfold State.sentAnswer
  split at hc <;> rename_i hr
  · rw [if_pos hr]
    exact ⟨hc, fun _ => hc⟩
  · rw [if_neg hr, hc]
    refine ⟨rfl, fun hne => ?_⟩
    unfold Policy.outcome at hne ⊢
    split <;> simp_all

variable [DecidableEq τ] [DecidableEq ρ] {p p' : State τ ρ} {a : Act τ ρ}

omit [DecidableEq τ] in
/-- A call which the Raft side has locked and not answered was not failed by its creator,
and still has its slot. -/
theorem Inv.coh_of_locked (hi : Inv p) {c : ℕ} (hl : (p.calls c).raft = .locked) :
    (p.calls c).rejected = false ∧ Coh (p.calls c) (p.slot c) := by
  have htaken : c ∈ p.taken := hi.api.taken c (by simp [hl])
  have hrej := hi.api.not_rejected_of_taken htaken
  have hnot : (p.calls c).completed = false := ((hi.calls c).completion.quiet hrej (.inr hl)).2
  refine ⟨hrej, hi.coh c ?_⟩
  by_contra hdead
  have hdone := hi.completed_of_dead (by simpa using hdead) (hi.api.sent_of_taken htaken)
  simp [hnot] at hdone

theorem Policy.outcome_of_reply {tag : CallTag} {retval : Option UInt64} {err : RaftError}
    (h : (retval, err) = policy.reply tag) :
    policy.outcome tag = retval.elim (err, 0) fun val => (.success, val) := by
  unfold Policy.reply at h
  unfold Policy.outcome
  split at h <;> cases h
  · rw [if_pos ‹_›]
    rfl
  · rw [if_neg ‹_›]
    rfl

theorem State.Answered.trans (h : p.Answered policy) (hi : Inv p) (ht : Trans p a p')
    (hg : ∀ c retval err, a = .call c (.raftReply retval err) →
      (retval, err) = policy.reply (p.slot c).tag) : p'.Answered policy := by
  have hupd {d : ℕ} {call : Call τ} (hcalls : p'.calls = Function.update p.calls d call)
      (hd : ∀ o, call.outcome = some o →
        if call.rejected then o.2 = 0 else o = policy.outcome call.tag) : p'.Answered policy := by
    intro c o
    rw [hcalls]
    by_cases hcd : c = d
    · subst hcd
      simpa using hd o
    · simpa [hcd] using h c o
  cases ht with
  | create he hb => exact hupd rfl nofun
  | @allocate d n err hl hp =>
      cases err with
      | none => exact hupd rfl (h d)
      | some err => exact hupd rfl (by rintro o ⟨⟩; rfl)
  | sentClosed hl hp => exact hupd rfl (by rintro o ⟨⟩; rfl)
  | @call d b call slot hcall hr =>
      refine hupd rfl ?_
      cases hcall with
      | @replyValue val err hl | @replyError err hl =>
          obtain ⟨hrej, hcoh⟩ := hi.coh_of_locked hl
          have hreply := hg d _ _ rfl
          rw [hcoh.tag] at hreply
          have hout := Policy.outcome_of_reply hreply
          rintro o ⟨⟩
          simp only [hrej, hout]
          rfl
      | _ => exact h d
  | enqueue hl hq | sentOk hl hp | track hl ho | trackClosed hl ho
  | cleanup hl | deallocate hl | count hl | testDone hg ht => exact hupd rfl (h _)
  | release hg => intro c o; simpa using h c o
  | _ => exact h

end Answers

/-- The position belongs to an operation of the given kind. -/
def Use.isFor (op : Op) : Use → Bool
  | .idle => false
  | .waiting op' _ | .readError op' | .polling op' _ | .test op' | .value op' _
  | .done op' _ _ => op' = op

/-- The call which a query is about. -/
def Ask.call : Ask → Option ℕ
  | .idle => none
  | .sending _ c | .fetching _ c | .reading _ c | .threw _ c => some c
  | .dispose _ c _ | .disposing _ c _ | .returned _ c _ => some c

/-- A query has sent a call of its own. -/
structure Sent (p : State τ ρ) (asked : ℕ → Option τ) (t : τ) (q : Query) (c : ℕ) : Prop where
  lt : c < p.next
  owner : asked c = some t
  tag : (p.calls c).tag = q.tag

/-- The query has gone on to the operation on its future. -/
structure Begun (p : State τ ρ) (asked : ℕ → Option τ) (t : τ) (q : Query) (c : ℕ) : Prop extends
    Sent p asked t q c where
  waited : q.op = .wait → (p.calls c).waitCalled = true

/-- What a query may rely on. -/
def AskOk (policy : Policy) (p : State τ ρ) (asked : ℕ → Option τ) (t : τ) : Ask → Prop
  | .idle => True
  | .sending q c => Sent p asked t q c
  | .fetching q c => Begun p asked t q c ∧ ((p.calls c).uses t).isFor q.op = true
  | .reading q c => Begun p asked t q c ∧ (p.calls c).life = .held
  | .dispose q c val | .disposing q c val =>
      Begun p asked t q c ∧ (p.calls c).life.early = false ∧
        val = q.cast (p.sentAnswer policy c)
  | .returned q c val =>
      Begun p asked t q c ∧ (p.calls c).life.disposed = true ∧ (p.calls c).life ≠ .thrown ∧
        val = q.cast (p.sentAnswer policy c)
  | .threw q c => Begun p asked t q c ∧ (p.calls c).life = .thrown

section Asks
variable [DecidableEq τ] {tag : CallTag} {op : Op}

theorem isFor_first (op : Op) (tag : CallTag) : (op.first tag).isFor op = true := by
  cases op with
  | getFsmReply res =>
      simp only [Op.first]
      split <;> simp [Use.isFor]
  | getStats res =>
      simp only [Op.first]
      split
      · split <;> simp [Use.isFor]
      · simp [Use.isFor]
  | wait | poll | waitFor | futureGet | leader => rfl

theorem UseTrans.isFor {slot slot' : BaseSlot (Actor τ)} {t : τ} {use use' : Use}
    (h : UseTrans tag slot t use use' slot') (hop : use.isFor op = true) :
    use'.isFor op = true := by
  cases h with
  | @unlock op' => cases op' <;> exact hop
  | @readError op' =>
      simp only [Op.withError]
      split
      · split <;> exact hop
      · exact hop
  | _ => exact hop

variable [DecidableEq ρ] {policy : Policy} {p p' : State τ ρ} {a : Act τ ρ}
variable {asked : ℕ → Option τ} {t : τ} {ask : Ask}

/-- A future stays with its client until it is disposed of. -/
theorem Trans.held (ht : Trans p a p') (hi : Inv p) {c : ℕ} (hc : (p.calls c).life = .held)
    (ha : a ≠ .call c .dispose) : (p'.calls c).life = .held := by
  have hkeep {d : ℕ} {call : Call τ} (h : p'.calls = Function.update p.calls d call)
      (hd : c = d → call.life = .held) : (p'.calls c).life = .held :=
    of_calls_update (P := fun call => call.life = .held) h hd hc
  cases ht with
  | create he hb =>
      refine hkeep rfl ?_
      rintro rfl
      simp [hi.api.born _ le_rfl] at hc
  | @call d b call slot hcall hr =>
      refine hkeep rfl ?_
      rintro rfl
      cases hcall with
      | failError hl | failState hl | load hl | abandon hl => simp [hl] at hc
      | dispose hl hact => exact absurd rfl ha
      | _ => exact hc
  | allocate hl hp | enqueue hl hq | sentOk hl hp | sentClosed hl hp | track hl ho
  | trackClosed hl ho | cleanup hl | deallocate hl | count hl =>
      refine hkeep rfl ?_
      rintro rfl
      simp [hl] at hc
  | @testDone d entry hg hterm =>
      refine hkeep rfl ?_
      rintro rfl
      have hun : (p.calls c).life.undisposed = true := by
        rw [hc]
        rfl
      exact absurd ⟨entry, .test, hg⟩ (hi.gc.not_attempted_of_undisposed hun)
  | release hg => simpa using hc
  | _ => exact hc

/-- A future which was disposed of stays so, and none of them is refused later. -/
theorem Trans.life_disposed (ht : Trans p a p') (hi : Inv p) {c : ℕ}
    (hc : (p.calls c).life.disposed = true) :
    (p'.calls c).life.disposed = true ∧
      ((p'.calls c).life = .thrown ↔ (p.calls c).life = .thrown) := by
  have hkeep {d : ℕ} {call : Call τ} (h : p'.calls = Function.update p.calls d call)
      (hd : c = d → call.life.disposed = true ∧
        (call.life = .thrown ↔ (p.calls c).life = .thrown)) :
      (p'.calls c).life.disposed = true ∧
        ((p'.calls c).life = .thrown ↔ (p.calls c).life = .thrown) :=
    of_calls_update (P := fun call => call.life.disposed = true ∧
      (call.life = .thrown ↔ (p.calls c).life = .thrown)) h hd ⟨hc, Iff.rfl⟩
  cases ht with
  | create he hb =>
      refine hkeep rfl ?_
      rintro rfl
      simp [hi.api.born _ le_rfl, Life.disposed] at hc
  | @call d b call slot hcall hr =>
      refine hkeep rfl ?_
      rintro rfl
      cases hcall with
      | failError hl | failState hl | dispose hl hact => simp [hl, Life.disposed] at hc
      | @load byGc hl | @abandon byGc hl =>
          cases byGc <;> simp_all [Life.disposed]
      | _ => exact ⟨hc, Iff.rfl⟩
  | allocate hl hp | enqueue hl hq | sentOk hl hp | sentClosed hl hp =>
      refine hkeep rfl ?_
      rintro rfl
      simp [hl, Life.disposed] at hc
  | @track d byGc hl ho | @trackClosed d byGc hl ho =>
      refine hkeep rfl ?_
      rintro rfl
      have hlife := (hi.calls c).lifecycle
      cases byGc <;> simp_all [Life.disposed, Lifecycle]
  | @cleanup d byGc hl | @deallocate d byGc hl | @count d byGc hl =>
      refine hkeep rfl ?_
      rintro rfl
      cases byGc <;> simp_all [Life.disposed]
  | @testDone d entry hg hterm =>
      have hlife : (p.calls d).life = .orphaned := hi.gc.attempt d entry .test hg
      refine hkeep rfl ?_
      rintro rfl
      simp [hlife, Life.disposed]
  | release hg => simpa using hc
  | _ => exact ⟨hc, Iff.rfl⟩

/-- A call is thrown away when `dispose` comes to `track_orphan` and finds
`orphaned_calls` closed. -/
theorem Trans.thrown_iff (ht : Trans p a p') (hi : Inv p) {c : ℕ}
    (hc : (p.calls c).life ≠ .thrown) :
    (p'.calls c).life = .thrown ↔
      a = .dispose c ∧ (p.calls c).life = .disposing false .track ∧ p.orphansClosed = true := by
  have hother {d : ℕ} {call : Call τ} (h : p'.calls = Function.update p.calls d call)
      (hd : call.life = .thrown → (p.calls d).life = .thrown) : (p'.calls c).life ≠ .thrown :=
    of_calls_update (P := fun call => call.life ≠ .thrown) h
      (by rintro rfl; exact mt hd hc) hc
  cases ht with
  | @trackClosed d byGc hl ho =>
      by_cases hcd : c = d
      · subst hcd
        have hlife := (hi.calls c).lifecycle
        cases byGc <;> simp_all [Lifecycle]
      · simpa [hcd, Ne.symm hcd] using hc
  | @call d b call slot hcall hr =>
      refine iff_of_false (hother rfl ?_) (by simp)
      cases hcall with
      | failError hl | failState hl | dispose hl hact | load hl | abandon hl => simp
      | _ => exact id
  | @allocate d n err hl hp =>
      exact iff_of_false (hother rfl (by cases err <;> simp [Call.allocated])) (by simp)
  | create he hb | enqueue hl hq | sentOk hl hp | sentClosed hl hp | testDone hg hterm =>
      exact iff_of_false (hother rfl (by simp [Call.create, Call.refused])) (by simp)
  | track hl ho =>
      exact iff_of_false (hother rfl (by simp)) (by simp [ho])
  | cleanup hl | deallocate hl | count hl =>
      refine iff_of_false (hother rfl (by simp)) ?_
      rintro ⟨⟨⟩, hl', -⟩
      simp [hl] at hl'
  | release hg => exact iff_of_false (by simpa using hc) (by simp)
  | _ => exact iff_of_false hc (by simp)

/-- Nobody forgets that `raft_future_wait` was called. -/
theorem Trans.waited (ht : Trans p a p') {c : ℕ} (hc : c < p.next)
    (hw : (p.calls c).waitCalled = true) : (p'.calls c).waitCalled = true := by
  have hkeep {d : ℕ} {call : Call τ} (h : p'.calls = Function.update p.calls d call)
      (hd : (p.calls d).waitCalled = true → call.waitCalled = true) :
      (p'.calls c).waitCalled = true :=
    of_calls_update (P := fun call => call.waitCalled = true) h (by rintro rfl; exact hd hw) hw
  cases ht with
  | create he hb => simpa [hc.ne] using hw
  | call hcall hr =>
      refine hkeep rfl fun hw => ?_
      cases hcall with
      | start hl hu => simp [hw]
      | _ => exact hw
  | @allocate d n err hl hp => exact hkeep rfl (by cases err <;> exact id)
  | enqueue hl hq | sentOk hl hp | sentClosed hl hp | track hl ho | trackClosed hl ho
  | cleanup hl | deallocate hl | count hl | testDone hg ht => exact hkeep rfl id
  | release hg => simpa using hw
  | _ => exact hw

theorem Sent.trans {q : Query} {c : ℕ} (h : Sent p asked t q c) (ht : Trans p a p') :
    Sent p' asked t q c where
  lt := (ht.tag_eq h.lt).1
  owner := h.owner
  tag := (ht.tag_eq h.lt).2.trans h.tag

theorem Begun.trans {q : Query} {c : ℕ} (h : Begun p asked t q c) (ht : Trans p a p') :
    Begun p' asked t q c where
  toSent := h.toSent.trans ht
  waited hq := ht.waited h.lt (h.waited hq)

/-- The steps of the pool which a query does not make itself while it stands at `ask`. -/
def Ask.Lets (t : τ) (a : Act τ ρ) : Ask → Prop
  | .fetching _ c => (∀ op, a ≠ .call c (.start t op)) ∧ a ≠ .call c (.leave t)
  | .reading _ c => a ≠ .call c .dispose
  | _ => True

omit [DecidableEq τ] [DecidableEq ρ] in
theorem Ask.lets_of_future (h : ∀ c ∈ ask.call, a.future ≠ some c) : ask.Lets t a := by
  cases ask with
  | fetching q c =>
      refine ⟨fun op => ?_, ?_⟩
      · rintro rfl
        exact h c rfl rfl
      · rintro rfl
        exact h c rfl rfl
  | reading q c =>
      rintro rfl
      exact h c rfl rfl
  | _ => trivial

omit [DecidableEq τ] [DecidableEq ρ] in
theorem Life.early_of_disposed {life : Life} (h : life.disposed = true) : life.early = false := by
  cases life <;> simp_all [Life.disposed, Life.early]

/-- What a call is answered with is settled when it is created. -/
theorem Trans.sentAnswer_eq (ht : Trans p a p') (hi : Inv p) {c : ℕ} (hc : c < p.next)
    (hlate : (p.calls c).life.early = false) :
    (p'.calls c).life.early = false ∧ p'.sentAnswer policy c = p.sentAnswer policy c := by
  obtain ⟨hlate', hrej⟩ := ht.rejected_eq (hi.api.born _ le_rfl) hlate
  exact ⟨hlate', by rw [State.sentAnswer, State.sentAnswer, hrej, (ht.tag_eq hc).2]⟩

/-- A step of the pool. -/
theorem AskOk.keep (h : AskOk policy p asked t ask) (hi : Inv p) (ht : Trans p a p')
    (hl : ask.Lets t a) : AskOk policy p' asked t ask := by
  cases ask with
  | idle => trivial
  | sending q c => exact Sent.trans h ht
  | fetching q c =>
      refine ⟨h.1.trans ht, ?_⟩
      cases ht.useChange c t with
      | keep _ hu _ =>
          rw [hu]
          exact h.2
      | idle ha _ => exact absurd (ha.resolve_left hl.2) h.1.lt.ne
      | start ha _ => exact absurd ha (hl.1 _)
      | use _ hu _ => exact hu.isFor h.2
  | reading q c => exact ⟨h.1.trans ht, ht.held hi h.2 hl⟩
  | dispose q c val | disposing q c val =>
      obtain ⟨hbegun, hlate, hval⟩ := h
      obtain ⟨hlate', hanswer⟩ := ht.sentAnswer_eq hi hbegun.lt hlate
      exact ⟨hbegun.trans ht, hlate', by rw [hval, hanswer]⟩
  | returned q c val =>
      obtain ⟨hbegun, hdisp, hth, hval⟩ := h
      obtain ⟨hdisp', hth'⟩ := ht.life_disposed hi hdisp
      obtain ⟨-, hanswer⟩ := ht.sentAnswer_eq hi hbegun.lt (Life.early_of_disposed hdisp)
      exact ⟨hbegun.trans ht, hdisp', mt hth'.mp hth, by rw [hval, hanswer]⟩
  | threw q c =>
      obtain ⟨hbegun, hth⟩ := h
      have hdisp : (p.calls c).life.disposed = true := by
        rw [hth]
        rfl
      exact ⟨hbegun.trans ht, (ht.life_disposed hi hdisp).2.mpr hth⟩

omit [DecidableEq τ] [DecidableEq ρ] in
theorem AskOk.setAsked {asked' : ℕ → Option τ} (h : AskOk policy p asked t ask)
    (ha : ∀ c ∈ ask.call, asked' c = asked c) : AskOk policy p asked' t ask := by
  cases ask with
  | idle => trivial
  | sending q c => exact ⟨h.lt, (ha c rfl).trans h.owner, h.tag⟩
  | fetching q c | reading q c | threw q c =>
      exact ⟨⟨⟨h.1.lt, (ha c rfl).trans h.1.owner, h.1.tag⟩, h.1.waited⟩, h.2⟩
  | dispose q c val | disposing q c val | returned q c val =>
      exact ⟨⟨⟨h.1.lt, (ha c rfl).trans h.1.owner, h.1.tag⟩, h.1.waited⟩, h.2⟩

omit [DecidableEq τ] [DecidableEq ρ] in
theorem AskOk.owner {c : ℕ} (h : AskOk policy p asked t ask) (hc : ask.call = some c) :
    c < p.next ∧ asked c = some t := by
  cases ask with
  | idle => cases hc
  | sending q d =>
      cases hc
      exact ⟨h.lt, h.owner⟩
  | fetching q d | reading q d | threw q d =>
      cases hc
      exact ⟨h.1.lt, h.1.owner⟩
  | dispose q d val | disposing q d val | returned q d val =>
      cases hc
      exact ⟨h.1.lt, h.1.owner⟩

theorem Query.cast_zero (q : Query) : q.cast 0 = 0 := by
  cases q <;> rfl

/-- The operation of a query ends with the value, or with an error. -/
theorem Query.report_eq (q : Query) (fast : Bool) (err : RaftError) (val : UInt64) :
    q.op.report q.tag fast err val = .got .success (some val) ∨
      (err ≠ .success ∧ q.op.report q.tag fast err val = .got err none) := by
  unfold Op.report
  split
  case isTrue hc =>
      simp only [Bool.and_eq_true, decide_eq_true_eq] at hc
      exact .inr ⟨hc.2, rfl⟩
  case isFalse hc => cases q <;> exact .inl rfl

omit [DecidableEq τ] in
/-- What the operation of a query reports is the answer to the tag which was sent. -/
theorem AskOk.fetched {q : Query} {c : ℕ} {op : Op} {fast : Bool} {res : Result}
    (h : AskOk policy p asked t (.fetching q c)) (hi : Inv p) (ha : p.Answered policy)
    (hu : (p.calls c).uses t = .done op fast res) (hf : Ask.fetched q c res = some ask) :
    AskOk policy p asked t ask := by
  obtain ⟨hsent, hop⟩ := h
  have hne : (p.calls c).uses t ≠ .idle := by
    rw [hu]
    nofun
  have hheld := hi.held_of_use hne
  have hearly : (p.calls c).life.early = false := by
    rw [hheld]
    rfl
  have hrep : Reported (p.calls c) op fast res := by
    have huse := (hi.calls c).usage.use t
    rwa [hu] at huse
  cases res with
  | waited err =>
      obtain ⟨-, -, val, hout⟩ := hrep
      obtain ⟨hval, hzero⟩ := ha.value_eq hout
      obtain rfl := Option.some.inj hf
      split
      · exact ⟨hsent, hheld⟩
      · rename_i herr
        exact ⟨hsent, hearly, by rw [← hval, hzero herr, q.cast_zero]⟩
  | got err' val' =>
      obtain ⟨-, err, val, hout, hgot⟩ := hrep
      obtain ⟨hval, hzero⟩ := ha.value_eq hout
      obtain rfl := Option.some.inj hf
      obtain rfl : op = q.op := by
        rw [hu] at hop
        exact of_decide_eq_true hop
      rw [hsent.tag] at hgot
      refine ⟨hsent, hearly, ?_⟩
      rcases q.report_eq fast err val with hr | ⟨herr, hr⟩
      · cases hgot.trans hr
        rw [if_pos rfl, ← hval]
        rfl
      · cases hgot.trans hr
        rw [if_neg herr, ← hval, hzero herr, q.cast_zero]
  | polled b | refused err | assertFailed => cases hf

omit [DecidableEq τ] in
/-- The value which `future_get_f` reads. -/
theorem AskOk.reading {q : Query} {c : ℕ} (h : AskOk policy p asked t (.reading q c)) (hi : Inv p)
    (ha : p.Answered policy) (hterm : isTerminal (p.slot c).state = true) :
    AskOk policy p asked t (.dispose q c (q.cast (p.slot c).retval)) := by
  obtain ⟨hsent, hheld⟩ := h
  have hcoh : Coh (p.calls c) (p.slot c) := hi.coh c (by rw [hheld]; rfl)
  have hout := hcoh.outcome (hi.calls c).completion (hcoh.terminal.symm.trans hterm)
  exact ⟨hsent, by rw [hheld]; rfl, by rw [← (ha.value_eq hout).1]⟩

end Asks

section Run
variable [DecidableEq τ] [DecidableEq ρ] {policy : Policy} {s s' : Asking τ ρ}

/-- The pool keeps to the policy, and the queries know what they have. -/
structure AsksOk (policy : Policy) (s : Asking τ ρ) : Prop where
  pool : system.Reachable s.pool
  answered : s.pool.Answered policy
  asks : ∀ t, AskOk policy s.pool s.asked t (s.asks t)

/-- A step of the pool which is made by the query of thread `t`, whose call is `c`. -/
theorem AsksOk.poolStep (h : AsksOk policy s) {t : τ} {a : Act τ ρ} {ask : Ask} {c : ℕ}
    (hs : s.poolStep t a ask = some s') (hc : s.asked c = some t) (hf : a.future = some c)
    (hreply : ∀ c retval err, a ≠ .call c (.raftReply retval err))
    (hask : ∀ p, Trans s.pool a p → AskOk policy p s.asked t ask) : AsksOk policy s' := by
  obtain ⟨p, hp, rfl⟩ := Option.map_eq_some_iff.mp hs
  have hi := inv_of_reachable h.pool
  have ht : Trans s.pool a p := trans_of_step hp
  refine ⟨h.pool.next hp, h.answered.trans hi ht fun c retval err he => ?_, fun u => ?_⟩
  · exact absurd he (hreply c retval err)
  · by_cases hu : u = t
    · subst hu
      simpa using hask p ht
    · simp only [Function.update_of_ne hu]
      refine (h.asks u).keep hi ht (Ask.lets_of_future fun d hd => ?_)
      rw [hf]
      rintro ⟨⟩
      have howner := ((h.asks u).owner hd).2
      rw [hc] at howner
      exact hu (Option.some.inj howner).symm

/-- A statement of a query which leaves the pool alone. -/
theorem AsksOk.setAsk (h : AsksOk policy s) {t : τ} {ask : Ask}
    (hask : AskOk policy s.pool s.asked t ask) :
    AsksOk policy { s with asks := Function.update s.asks t ask } := by
  refine ⟨h.pool, h.answered, fun u => ?_⟩
  by_cases hu : u = t
  · subst hu
    simpa using hask
  · simpa only [Function.update_of_ne hu] using h.asks u

theorem AsksOk.go (h : AsksOk policy s) {t : τ} (hs : s.go t = some s') : AsksOk policy s' := by
  have hi := inv_of_reachable h.pool
  have ht := h.asks t
  unfold Asking.go at hs
  split at hs
  case h_1 q c hask =>
      rw [hask] at ht
      split at hs
      · refine h.poolStep hs (ht.owner rfl).2 rfl (by simp) fun p htr =>
          ⟨⟨Sent.trans ht htr, fun hop => ?_⟩, ?_⟩ <;>
        · cases htr with
          | call hcall hr =>
              cases hcall with
              | start hl hu => first | simp [hop] | simpa [Call.setUse] using isFor_first q.op _
      · cases hs
  case h_2 q c hask =>
      rw [hask] at ht
      split at hs
      · rename_i op fast res hu
        obtain ⟨ask, hf, hs⟩ := Option.bind_eq_some_iff.mp hs
        refine h.poolStep hs ht.1.owner rfl (by simp) fun p htr => ?_
        refine (ht.fetched hi h.answered hu hf).keep hi htr ?_
        cases res with
        | waited err =>
            obtain rfl := Option.some.inj hf
            split
            · simp [Ask.Lets]
            · trivial
        | got err val =>
            obtain rfl := Option.some.inj hf
            trivial
        | polled b | refused err | assertFailed => cases hf
      · cases hs
  case h_3 q c hask =>
      rw [hask] at ht
      split at hs <;> rename_i hassert <;> cases hs
      rw [Bool.and_eq_true] at hassert
      exact h.setAsk (ht.reading hi h.answered hassert.1)
  case h_4 q c val hask =>
      rw [hask] at ht
      exact h.poolStep hs ht.1.owner rfl (by simp) fun p htr => ht.keep hi htr trivial
  case h_5 q c val hask =>
      rw [hask] at ht
      split at hs <;> rename_i hlife <;> cases hs
      · exact h.setAsk ⟨ht.1, by rw [hlife]; rfl, by simp [hlife], ht.2.2⟩
      · exact h.setAsk ⟨ht.1, by rw [hlife]; rfl, by simp [hlife], ht.2.2⟩
      · exact h.setAsk ⟨ht.1, hlife⟩
  case h_6 | h_7 | h_8 => cases hs

theorem AsksOk.ask (h : AsksOk policy s) {t : τ} {q : Query}
    (hs : s.step (.ask t q) = some s') : AsksOk policy s' := by
  simp only [Asking.step] at hs
  split at hs
  · obtain ⟨s₁, hs₁, rfl⟩ := Option.map_eq_some_iff.mp hs
    obtain ⟨p, hp, rfl⟩ := Option.map_eq_some_iff.mp hs₁
    have hi := inv_of_reachable h.pool
    have ht : Trans s.pool (.create q.tag none none) p := trans_of_step hp
    refine ⟨h.pool.next (a := .create q.tag none none) hp, h.answered.trans hi ht (by simp),
      fun u => ?_⟩
    by_cases hu : u = t
    · subst hu
      simp only [Function.update_self]
      cases ht with
      | create he hb => exact ⟨Nat.lt_succ_self _, by simp, by simp [Call.create]⟩
    · simp only [Function.update_of_ne hu]
      have hlets : ∀ c ∈ (s.asks u).call, (Act.create q.tag none none : Act τ ρ).future = some c →
          False := fun _ _ he => by cases he
      refine ((h.asks u).keep hi ht (Ask.lets_of_future hlets)).setAsked fun c hc => ?_
      exact Function.update_of_ne ((h.asks u).owner hc).1.ne _ _
  · cases hs

theorem AsksOk.step (h : AsksOk policy s) {a : AskAct τ ρ} (hs : s.step a = some s')
    (hg : Obeys policy s a s') : AsksOk policy s' := by
  cases a with
  | ask t q => exact h.ask hs
  | go t => exact h.go hs
  | pool a =>
      simp only [Asking.step] at hs
      split at hs
      · cases hs
      · rename_i hf
        obtain ⟨p, hp, rfl⟩ := Option.map_eq_some_iff.mp hs
        have hi := inv_of_reachable h.pool
        have ht : Trans s.pool a p := trans_of_step hp
        refine ⟨h.pool.next hp, h.answered.trans hi ht ?_, fun t => ?_⟩
        · rintro c retval err rfl
          exact hg (c, retval, err) rfl
        · refine (h.asks t).keep hi ht (Ask.lets_of_future fun c hc hfut => hf ?_)
          simp [hfut, ((h.asks t).owner hc).2]

theorem asksOk_of_reach (h : asking.Reach (Obeys policy) s) : AsksOk policy s := by
  refine h.invariant (I := AsksOk policy) ⟨.init, nofun, fun _ => trivial⟩ ?_
  exact fun s a s' _ hs ht hg => hs.step ht hg

/-- The tag of the question which the query stands for. -/
def Query.question : Query → CallTag
  | .state => .getState
  | .lastContact => .lastContact
  | .lastIndex => .lastIndex

/-- The policies for which the query answers its own question. -/
def Query.Suits (policy : Policy) : Query → Prop
  | .state => (policy.answer .getState).toNat < 2 ^ 32
  | .lastContact => policy.answer .getState = policy.answer .lastContact
  | .lastIndex => True

omit [DecidableEq τ] [DecidableEq ρ] in
theorem Query.suits_iff (policy : Policy) (q : Query) :
    q.cast (policy.answer q.tag) = policy.answer q.question ↔ q.Suits policy := by
  cases q with
  | state =>
      simp only [Query.cast, Query.tag, Query.question, Query.Suits, ← UInt64.toNat_inj,
        UInt32.toNat_toUInt64, UInt64.toNat_toUInt32]
      exact Nat.mod_eq_iff_lt (by decide)
  | lastContact => rfl
  | lastIndex => simp [Query.cast, Query.tag, Query.question, Query.Suits]

theorem Asking.pool_of_poolStep {t : τ} {a : Act τ ρ} {ask : Ask}
    (hs : s.poolStep t a ask = some s') : Trans s.pool a s'.pool := by
  obtain ⟨p, hp, rfl⟩ := Option.map_eq_some_iff.mp hs
  exact trans_of_step hp

/-- The steps of `dispose` inside of the pool are no statements of a query. -/
theorem Asking.pool_of_step {a : AskAct τ ρ} (hs : s.step a = some s') :
    (∃ b, a = .pool b ∧ Trans s.pool b s'.pool) ∨
    ((∀ b, a ≠ .pool b) ∧ (s'.pool = s.pool ∨
      ∃ b, (∀ c, b ≠ .dispose c) ∧ Trans s.pool b s'.pool)) := by
  cases a with
  | ask t q =>
      simp only [Asking.step] at hs
      split at hs
      · obtain ⟨s₁, hs₁, rfl⟩ := Option.map_eq_some_iff.mp hs
        have ht := Asking.pool_of_poolStep hs₁
        exact .inr ⟨by simp, .inr ⟨.create q.tag none none, by simp, ht⟩⟩
      · cases hs
  | go t =>
      refine .inr ⟨by simp, ?_⟩
      simp only [Asking.step, Asking.go] at hs
      split at hs
      case h_1 =>
          split at hs
          · exact .inr ⟨_, by simp, Asking.pool_of_poolStep hs⟩
          · cases hs
      case h_2 =>
          split at hs
          · obtain ⟨ask, -, hs⟩ := Option.bind_eq_some_iff.mp hs
            exact .inr ⟨_, by simp, Asking.pool_of_poolStep hs⟩
          · cases hs
      case h_3 =>
          split at hs <;> cases hs
          exact .inl rfl
      case h_4 => exact .inr ⟨_, by simp, Asking.pool_of_poolStep hs⟩
      case h_5 => split at hs <;> cases hs <;> exact .inl rfl
      case h_6 | h_7 | h_8 => cases hs
  | pool b =>
      simp only [Asking.step] at hs
      split at hs
      · cases hs
      · obtain ⟨p, hp, rfl⟩ := Option.map_eq_some_iff.mp hs
        exact .inl ⟨b, rfl, trans_of_step hp⟩

omit [DecidableEq τ] in
/-- Nobody has waited for a call which is thrown away. -/
theorem Inv.not_entered_of_thrown {p : State τ ρ} (h : Inv p) {c : ℕ}
    (hl : (p.calls c).life = .thrown) : (p.calls c).entered = false := by
  have hlife := (h.calls c).lifecycle
  simp only [Lifecycle, hl] at hlife
  have husage := (h.calls c).usage
  by_contra he
  have hobs := husage.observed_of_entered (husage.free (by simp [hl])) (by simpa using he)
  cases hobs.symm.trans hlife.1

omit [DecidableEq τ] in
/-- Only `raft_last_index` can have its call thrown away: the others wait for theirs. -/
theorem Begun.lastIndex_of_thrown {p : State τ ρ} {asked : ℕ → Option τ} {t : τ} {q : Query}
    {c : ℕ} (h : Begun p asked t q c) (hi : Inv p) (hl : (p.calls c).life = .thrown) :
    q = .lastIndex := by
  have hent := hi.not_entered_of_thrown hl
  cases q with
  | lastIndex => rfl
  | state | lastContact => simp [Call.entered, h.waited rfl] at hent

end Run

/-- A leader which has heard from another one. -/
def samplePolicy : Policy
  | .getState => (.success, 3)
  | .lastContact => (.success, 1000)
  | _ => (.success, 0)

/-- Thread `t` makes a query for which call 0 is sent, taken and answered. -/
def queryRun (t : Fin 2) (q : Query) : List (AskAct (Fin 2) (Fin 2)) :=
  [AskAct.ask t q] ++ ((sendRun 0 0 q.tag none).tail ++ takeRun 0 ++ replyRun 0 3).map
    AskAct.pool ++ [AskAct.go t] ++ List.replicate 5 (AskAct.pool (.call 0 (.use t))) ++
    [AskAct.go t, AskAct.go t, AskAct.go t, AskAct.pool (.call 0 .disposeStep),
      AskAct.pool (.dispose 0), AskAct.pool (.dispose 0), AskAct.go t]

/-- Thread `t` calls `raft_last_index` with both queues closed: its call is failed by
`send_api_request`, nobody waits for it, and it cannot be handed over. -/
def closedRun (t : Fin 2) : List (AskAct (Fin 2) (Fin 2)) :=
  [AskAct.pool (.api (.callClose (.inr t)))] ++
    List.replicate 5 (AskAct.pool (.api (.step (.inr t) none))) ++
    [AskAct.pool .closeOrphans, AskAct.ask t .lastIndex, AskAct.pool (.allocate 0 0),
      AskAct.pool (.enqueue 0), AskAct.pool (.api (.step (.inl 0) none)), AskAct.pool (.sent 0),
      AskAct.pool (.call 0 .fail), AskAct.pool (.call 0 .fail), AskAct.go t,
      AskAct.pool (.call 0 (.use t)), AskAct.pool (.call 0 (.use t)), AskAct.go t, AskAct.go t,
      AskAct.pool (.call 0 .disposeStep), AskAct.pool (.call 0 .disposeStep),
      AskAct.pool (.dispose 0), AskAct.go t]

end Libraft.Pool
