import Libraft.Pool.Sharing

/-!
# The outcome of a shared slot and its waiters

`reply` stores the return value and the error before it asserts that the slot
has no final state yet, and it wakes one waiter. So the outcome of a slot is
final as long as no second answer comes to it, and every waiter is released as
long as there is one.
-/

namespace Libraft.Pool

open Libraft.Foundation Libraft.Calls

variable {τ : Type*}

/-- What the completion of a slot consists of. -/
def outcome (slot : BaseSlot (Actor τ)) : CallState × RaftError × UInt64 :=
  (slot.state, slot.error, slot.retval)

/-- The stores of the reply from this statement on find their values in the slot. -/
def Repeats (slot : BaseSlot (Actor τ)) : Reply → Prop
  | .retval val => slot.retval = val ∧ slot.error = .success
  | .error err => slot.error = err
  | .state _ | .notify | .record => True

instance (slot : BaseSlot (Actor τ)) : DecidablePred (Repeats slot)
  | .retval _ => inferInstanceAs (Decidable (_ ∧ _))
  | .error _ => inferInstanceAs (Decidable (_ = _))
  | .state _ | .notify | .record => isTrue trivial

/-- The answer whose `reply` begins in the step. -/
def Shared.entering (s : Shared τ) : SharedAct τ → Option Answer
  | .replier n _ =>
      match s.repliers n with
      | .call ans => some ans
      | _ => none
  | _ => none

/-- A `reply` which begins with a final state in the slot brings the outcome
which is there. -/
def NoSecondAnswer (s : Shared τ) (a : SharedAct τ) (_ : Shared τ) : Prop :=
  ∀ ans ∈ s.entering a, isTerminal s.slot.state = true → Repeats s.slot ans.first

instance (s : Shared τ) (a : SharedAct τ) (s' : Shared τ) : Decidable (NoSecondAnswer s a s') :=
  inferInstanceAs (Decidable
    (∀ ans ∈ s.entering a, isTerminal s.slot.state = true → Repeats s.slot ans.first))

/-- The thread is inside a critical section of the slot. -/
def Shared.inside (s : Shared τ) : Actor τ → Bool
  | .client t => (s.uses t).holds
  | .raft n => (s.repliers n).holds
  | .gc => false

/-- The mutex of the slot works, and a reply under way changes nothing in a slot
which has its final state. -/
structure Steady (s : Shared τ) : Prop where
  held : HeldAt id s.slot.owned s.inside
  replying : ∀ n r, s.repliers n = .replying r → isTerminal s.slot.state = true → Repeats s.slot r

theorem steady_initial (tag : CallTag) : Steady (Shared.initial tag : Shared τ) where
  held := by
    intro x
    cases x <;> simp [Shared.initial, BaseSlot.new, Shared.inside, Use.holds, Replier.holds]
  replying := by simp [Shared.initial]

section Steps
variable [DecidableEq τ] {s s' : Shared τ} {a : SharedAct τ}

theorem UseTrans.outcome_eq {tag : CallTag} {slot slot' : BaseSlot (Actor τ)} {t : τ}
    {use use' : Use} (h : UseTrans tag slot t use use' slot') : outcome slot' = outcome slot := by
  obtain ⟨hstate, herr, hval⟩ := h.frame
  rw [outcome, hstate, herr, hval, outcome]

/-- Nobody starts to wait for a slot with a final state. -/
theorem UseTrans.waiting_subset {tag : CallTag} {slot slot' : BaseSlot (Actor τ)} {t : τ}
    {use use' : Use} (h : UseTrans tag slot t use use' slot')
    (hterm : isTerminal slot.state = true) : slot'.retCond.waiting ⊆ slot.retCond.waiting := by
  cases h with
  | block hpending => simp [hterm] at hpending
  | _ => exact subset_rfl

omit [DecidableEq τ] in
theorem holds_of_statement {n : ℕ} {r : Reply} (h : (s.repliers n).statement = some r) :
    (s.repliers n).holds = true := by
  cases hn : s.repliers n <;> simp_all [Replier.statement, Replier.holds]

omit [DecidableEq τ] in
theorem holds_after (next : Option Reply) : (Replier.after next).holds = true := by
  cases next <;> rfl

theorem inside_use {t : τ} {use : Use} {slot : BaseSlot (Actor τ)} :
    Shared.inside { s with slot := slot, uses := Function.update s.uses t use } =
      Function.update s.inside (.client t) use.holds := by
  funext x
  cases x with
  | client u =>
      by_cases hu : u = t
      · simp [Shared.inside, hu]
      · simp [Shared.inside, hu]
  | raft n => simp [Shared.inside]
  | gc => simp [Shared.inside]

theorem inside_replier {n : ℕ} {replier : Replier} {slot : BaseSlot (Actor τ)} :
    Shared.inside { s with slot := slot, repliers := Function.update s.repliers n replier } =
      Function.update s.inside (.raft n) replier.holds := by
  funext x
  cases x with
  | client u => simp [Shared.inside]
  | raft m =>
      by_cases hm : m = n
      · simp [Shared.inside, hm]
      · simp [Shared.inside, hm]
  | gc => simp [Shared.inside]

/-- One statement of `reply`. -/
theorem outcome_of_reply {slot slot' : BaseSlot (Actor τ)} {w : Option (Actor τ)} {r : Reply}
    {next : Option Reply} (hr : slot.reply w r = some (slot', next))
    (hrep : isTerminal slot.state = true → Repeats slot r) :
    (isTerminal slot.state = true → outcome slot' = outcome slot) ∧
      ∀ r', next = some r' → isTerminal slot'.state = true → Repeats slot' r' := by
  cases r with
  | retval val =>
      cases hr
      refine ⟨fun hterm => ?_, ?_⟩
      · simp [outcome, (hrep hterm).1]
      · rintro r' ⟨⟩ hterm
        exact (hrep hterm).2
  | error err =>
      cases hr
      refine ⟨fun hterm => ?_, ?_⟩
      · have herr : slot.error = err := hrep hterm
        simp [outcome, herr]
      · rintro r' ⟨⟩ _
        trivial
  | state err =>
      simp only [BaseSlot.reply] at hr
      split at hr <;> rename_i hterm <;> cases hr
      refine ⟨fun ht => absurd ht hterm, ?_⟩
      rintro r' ⟨⟩ _
      trivial
  | notify =>
      obtain ⟨c, -, hc⟩ := Option.map_eq_some_iff.mp hr
      cases hc
      refine ⟨fun _ => rfl, ?_⟩
      rintro r' ⟨⟩ _
      trivial
  | record =>
      cases hr
      exact ⟨fun _ => rfl, by simp⟩

omit [DecidableEq τ] in
/-- What a replier is about to do repeats the outcome, if there is one. -/
theorem Steady.repeats (h : Steady s) {n : ℕ} {w : Option (Actor τ)}
    (hg : NoSecondAnswer s (.replier n w) s') {r : Reply}
    (hr : (s.repliers n).statement = some r) (hterm : isTerminal s.slot.state = true) :
    Repeats s.slot r := by
  cases hn : s.repliers n with
  | call ans =>
      rw [hn] at hr
      cases hr
      exact hg ans (by simp [Shared.entering, hn]) hterm
  | replying r' =>
      rw [hn] at hr
      cases hr
      exact h.replying n r hn hterm
  | idle | lock ans | unlock | done => simp [hn, Replier.statement] at hr

theorem Steady.held_trans (h : Steady s) (ht : SharedTrans s a s') :
    HeldAt id s'.slot.owned s'.inside := by
  have hclient {t : τ} {use : Use} (slot : BaseSlot (Actor τ))
      (hs : LockStep (.client t) s.slot.owned (s.uses t).holds slot.owned use.holds) :
      HeldAt id slot.owned (Shared.inside
        { s with slot := slot, uses := Function.update s.uses t use }) := by
    rw [inside_use]
    exact h.held.step hs
  have hreplier {n : ℕ} {replier : Replier} (slot : BaseSlot (Actor τ))
      (hs : LockStep (.raft n) s.slot.owned (s.repliers n).holds slot.owned replier.holds) :
      HeldAt id slot.owned (Shared.inside
        { s with slot := slot, repliers := Function.update s.repliers n replier }) := by
    rw [inside_replier]
    exact h.held.step hs
  cases ht with
  | start hu =>
      refine hclient s.slot ?_
      rw [hu, holds_first]
      exact .keep
  | use hu => exact hclient _ hu.lockStep
  | leave hu =>
      refine hclient s.slot ?_
      rw [hu]
      exact .keep
  | wake hw => exact h.held
  | answer hn =>
      refine hreplier s.slot ?_
      rw [hn]
      exact .keep
  | lock hn ho =>
      refine hreplier _ ?_
      rw [hn, ho]
      exact .acquire
  | @statement n w r slot next hn hr =>
      refine hreplier _ ?_
      rw [(BaseSlot.frame_of_reply hr).1, holds_of_statement hn, holds_after]
      exact .keep
  | unlock hn =>
      refine hreplier _ ?_
      rw [hn]
      exact .release
  | dispose ha => exact h.held

/-- A statement of one replier finds no other replier inside `reply`. -/
theorem Steady.replying_trans (h : Steady s) (ht : SharedTrans s a s')
    (hg : NoSecondAnswer s a s') :
    ∀ n r, s'.repliers n = .replying r → isTerminal s'.slot.state = true → Repeats s'.slot r := by
  have hkeep {slot : BaseSlot (Actor τ)} (ho : outcome slot = outcome s.slot) {n : ℕ} {r : Reply}
      (hn : s.repliers n = .replying r) (hterm : isTerminal slot.state = true) :
      Repeats slot r := by
    simp only [outcome, Prod.mk.injEq] at ho
    obtain ⟨hstate, herr, hval⟩ := ho
    have hrep := h.replying n r hn (hstate ▸ hterm)
    cases r <;> simp_all [Repeats]
  have hupd {slot : BaseSlot (Actor τ)} (ho : outcome slot = outcome s.slot) {m : ℕ}
      {replier : Replier} (hm : ∀ r, replier ≠ .replying r) {n : ℕ} {r : Reply}
      (hn : Function.update s.repliers m replier n = .replying r)
      (hterm : isTerminal slot.state = true) : Repeats slot r := by
    by_cases hnm : n = m
    · subst hnm
      exact absurd (by simpa using hn) (hm r)
    · exact hkeep ho (by simpa [hnm] using hn) hterm
  cases ht with
  | start hu | leave hu => exact fun n r => hkeep rfl
  | use hu => exact fun n r => hkeep hu.outcome_eq
  | wake hw => exact fun n r => hkeep rfl
  | answer hn => exact fun n r => hupd rfl (by simp)
  | lock hn ho => exact fun n r => hupd rfl (by simp)
  | @statement m w r slot next hm hr =>
      intro n r' hn hterm
      by_cases hnm : n = m
      · subst hnm
        refine (outcome_of_reply hr (h.repeats hg hm)).2 r' ?_ hterm
        cases next <;> simp_all [Replier.after]
      · have hin : s.repliers n = .replying r' := by simpa [hnm] using hn
        have hsame : (Actor.raft n : Actor τ) = .raft m :=
          h.held.unique (by simp [Shared.inside, hin, Replier.holds])
            (by simpa [Shared.inside] using holds_of_statement hm)
        cases hsame
        exact absurd rfl hnm
  | unlock hn => exact fun n r => hupd rfl (by simp)
  | dispose ha => exact fun n r => hkeep rfl

theorem Steady.trans (h : Steady s) (ht : SharedTrans s a s') (hg : NoSecondAnswer s a s') :
    Steady s' :=
  ⟨h.held_trans ht, h.replying_trans ht hg⟩

/-- A step without a second answer leaves a final outcome alone. -/
theorem Steady.outcome_trans (h : Steady s) (ht : SharedTrans s a s')
    (hg : NoSecondAnswer s a s') (hterm : isTerminal s.slot.state = true) :
    outcome s'.slot = outcome s.slot := by
  cases ht with
  | use hu => exact hu.outcome_eq
  | statement hn hr => exact (outcome_of_reply hr (h.repeats hg hn)).1 hterm
  | _ => rfl

theorem steady_of_reach {tag : CallTag} (h : (sharing tag).Reach NoSecondAnswer s) : Steady s :=
  h.invariant (steady_initial tag) fun _ _ _ _ hs ht hg => hs.trans (sharedTrans_of_step ht) hg

/-- Once a slot has a final state, its outcome stays for as long as the slot
exists, in every run without a second answer. -/
theorem terminal_outcome_kept {tag : CallTag} (h : (sharing tag).Reach NoSecondAnswer s)
    (hterm : isTerminal s.slot.state = true) {sched : List (SharedAct τ)}
    (ha : (sharing tag).Along NoSecondAnswer s sched) {t : Shared τ}
    (hv : (sharing tag).Visits s sched t) : outcome t.slot = outcome s.slot := by
  have hinv : Steady t ∧ isTerminal t.slot.state = true ∧ outcome t.slot = outcome s.slot := by
    refine ha.visits_invariant (I := fun u => Steady u ∧ isTerminal u.slot.state = true ∧
      outcome u.slot = outcome s.slot) ?_ ⟨steady_of_reach h, hterm, rfl⟩ hv
    rintro u a u' ⟨hu, hterm', hout⟩ hstep hg
    have htr := sharedTrans_of_step hstep
    have hout' := hu.outcome_trans htr hg hterm'
    have hstate : u'.slot.state = u.slot.state := congrArg Prod.fst hout'
    exact ⟨hu.trans htr hg, hstate ▸ hterm', hout'.trans hout⟩
  exact hinv.2.2

end Steps

/-- Replier `n` makes its answer from beginning to end. -/
def answerRun (n : ℕ) (ans : Answer) : List (SharedAct (Fin 2)) :=
  .answer n ans :: List.replicate 6 (.replier n none)

/-- Thread `t` goes through `raft_future_wait`. -/
def waitRun (t : Fin 2) : List (SharedAct (Fin 2)) :=
  .start t .wait :: List.replicate 5 (.use t)

/-- A snapshot fails, and a thread waits for it afterwards. -/
theorem terminal_outcome_kept_waiting :
    ∃ s t : Shared (Fin 2), s.slot.state = .error ∧
      t.uses 0 = .done .wait false (.waited .other) ∧ outcome t.slot = outcome s.slot := by
  have hinit : (sharing .fsmSnapshot : Scheduled (Shared (Fin 2)) _).Reach NoSecondAnswer
      (.initial .fsmSnapshot) := .init
  obtain ⟨s, hs, hstate, ha, ht⟩ := hinit.exists_of_run (answerRun 0 (.snapshotComplete false))
    (by decide) (fun s => s.slot.state = .error ∧
      (sharing .fsmSnapshot).Along NoSecondAnswer s (waitRun 0) ∧
      ((sharing .fsmSnapshot).run s (waitRun 0)).any
        (fun t => t.uses 0 = .done .wait false (.waited .other)) = true) (by decide)
  obtain ⟨t, hrun, hdone⟩ := (Option.any_eq_true _ _).mp ht
  exact ⟨s, t, hstate, by simpa using hdone,
    terminal_outcome_kept hs (by rw [hstate]; rfl) ha ⟨_, List.prefix_rfl, hrun⟩⟩

/-- `raft_fsm_snapshot_complete` is called twice. The second call stores its
error into a slot which was completed as a success. -/
theorem second_completion_overwrites_error :
    ∃ s t : Shared (Fin 2), (sharing .fsmSnapshot).Reachable s ∧
      (sharing .fsmSnapshot).Visits s
        [.answer 1 (.snapshotComplete false), .replier 1 none, .replier 1 none] t ∧
      outcome s.slot = (.success, .success, 0) ∧ outcome t.slot = (.success, .other, 0) ∧
      t.deallocated = false := by
  obtain ⟨s, hs, hout, ht⟩ := Scheduled.exists_reachable_of_run (sharing .fsmSnapshot)
    (answerRun 0 (.snapshotComplete true)) (fun s : Shared (Fin 2) =>
      outcome s.slot = (.success, .success, 0) ∧
      ((sharing .fsmSnapshot).run s
        [.answer 1 (.snapshotComplete false), .replier 1 none, .replier 1 none]).any
        (fun t => outcome t.slot = (.success, .other, 0) ∧ t.deallocated = false) = true)
    (by decide)
  obtain ⟨t, hrun, ht⟩ := (Option.any_eq_true _ _).mp ht
  simp only [decide_eq_true_eq] at ht
  exact ⟨s, t, hs, ⟨_, List.prefix_rfl, hrun⟩, hout, ht.1, ht.2⟩

/-- The slot has its final state, the replier has unlocked it, and a thread is
blocked in `ret_cond.wait` without a notification. -/
def Shared.Stranded (s : Shared τ) : Prop :=
  isTerminal s.slot.state = true ∧ s.repliers 0 = .done ∧
    ∃ t op, s.uses t = .waiting op .blocked ∧ .client t ∈ s.slot.retCond.waiting

/-- There is one reply, by the replier 0. -/
def SingleReply : SharedAct τ → Prop
  | .answer n _ => n = 0
  | _ => True

/-- The `notify_one` of a reply finds at most one thread to wake. -/
def NotifiesAll (s : Shared τ) : SharedAct τ → Prop
  | .replier n _ => s.repliers n = .replying .notify → s.slot.retCond.waiting.card ≤ 1
  | _ => True

instance : DecidablePred (SingleReply : SharedAct τ → Prop)
  | .answer _ _ => inferInstanceAs (Decidable (_ = _))
  | .start _ _ | .use _ | .leave _ | .wake _ | .replier _ _ | .dispose | .disposeStep =>
      isTrue trivial

instance (s : Shared τ) : DecidablePred (NotifiesAll s)
  | .replier _ _ => inferInstanceAs (Decidable (_ → _))
  | .start _ _ | .use _ | .leave _ | .wake _ | .answer _ _ | .dispose | .disposeStep =>
      isTrue trivial

/-- From the notification on nobody waits for the slot. -/
structure Released (s : Shared τ) : Prop where
  single : ∀ n, n ≠ 0 → s.repliers n = .idle
  waiting : isTerminal s.slot.state = true → s.repliers 0 ≠ .replying .notify →
    s.slot.retCond.waiting = ∅

theorem released_initial (tag : CallTag) : Released (Shared.initial tag : Shared τ) where
  single := fun _ _ => rfl
  waiting := fun _ _ => rfl

section Released
variable [DecidableEq τ] {s s' : Shared τ} {a : SharedAct τ}

omit [DecidableEq τ] in
/-- A step which is none of the replier's. -/
theorem Released.keep (h : Released s) (hr : s'.repliers = s.repliers)
    (hs : s'.slot.state = s.slot.state)
    (hw : isTerminal s.slot.state = true → s'.slot.retCond.waiting ⊆ s.slot.retCond.waiting) :
    Released s' where
  single := hr ▸ h.single
  waiting := by
    intro hterm hn
    rw [hs] at hterm
    rw [hr] at hn
    exact Finset.subset_empty.mp (h.waiting hterm hn ▸ hw hterm)

omit [DecidableEq τ] in
/-- A step of the replier which leaves the condition variable alone. -/
theorem Released.move (h : Released s) {replier : Replier} {n : ℕ} (hn : n = 0)
    (hr : s'.repliers = Function.update s.repliers n replier)
    (hw : isTerminal s'.slot.state = true → replier ≠ .replying .notify →
      s'.slot.retCond.waiting = ∅) : Released s' where
  single := by
    intro m hm
    rw [hr, Function.update_of_ne (hn ▸ hm)]
    exact h.single m hm
  waiting := by
    subst hn
    rw [hr]
    simpa using hw

omit [DecidableEq τ] in
/-- Only the replier 0 is at work. -/
theorem Released.eq_zero (h : Released s) {n : ℕ} (hn : s.repliers n ≠ .idle) : n = 0 := by
  by_contra hne
  exact hn (h.single n hne)

omit [DecidableEq τ] in
theorem replying_of_notify {n : ℕ} (h : (s.repliers n).statement = some .notify) :
    s.repliers n = .replying .notify := by
  cases hn : s.repliers n with
  | call ans => cases ans <;> simp [hn, Replier.statement, Answer.first] at h
  | replying r => simpa [hn, Replier.statement] using h
  | idle | lock ans | unlock | done => simp [hn, Replier.statement] at h

theorem Released.trans (h : Released s) (ht : SharedTrans s a s') (hone : SingleReply a)
    (hall : NotifiesAll s a) : Released s' := by
  cases ht with
  | start hu | leave hu => exact h.keep rfl rfl fun _ => subset_rfl
  | use hu => exact h.keep rfl (congrArg Prod.fst hu.outcome_eq) hu.waiting_subset
  | wake hw => exact h.keep rfl rfl fun _ => Finset.erase_subset _ _
  | @answer n ans hn =>
      have hzero : n = 0 := hone
      exact h.move hzero rfl fun hterm _ => h.waiting hterm (by simp [← hzero, hn])
  | @lock n w ans hn ho =>
      have hzero := h.eq_zero (n := n) (by simp [hn])
      exact h.move hzero rfl fun hterm _ => h.waiting hterm (by simp [← hzero, hn])
  | @unlock n w hn =>
      have hzero := h.eq_zero (n := n) (by simp [hn])
      exact h.move hzero rfl fun hterm _ => h.waiting hterm (by simp [← hzero, hn])
  | @statement n w r slot next hn hr =>
      have hzero := h.eq_zero (n := n) (by
        intro hidle
        simp [hidle, Replier.statement] at hn)
      refine h.move hzero rfl fun hterm hnext => ?_
      cases r with
      | retval val | error err | record =>
          cases hr
          refine h.waiting hterm fun hnotify => ?_
          rw [← hzero] at hnotify
          simp [hnotify, Replier.statement] at hn
      | state err =>
          simp only [BaseSlot.reply] at hr
          split at hr <;> cases hr
          exact absurd rfl hnext
      | notify =>
          obtain ⟨c, hc, hslot⟩ := Option.map_eq_some_iff.mp hr
          cases hslot
          exact CondVar.waiting_eq_empty_of_card_le_one hc (hall (replying_of_notify hn))
  | dispose ha => exact h.keep rfl rfl fun _ => subset_rfl

/-- Every waiter of a completed call is released in every run in which the
`notify_one` of the reply has at most one thread to wake. -/
theorem waiters_released {tag : CallTag}
    (h : (sharing tag).Reach (fun s a _ => SingleReply a ∧ NotifiesAll s a) s) :
    ¬ s.Stranded := by
  have hrel : Released s := h.invariant (released_initial tag) fun _ _ _ _ hs ht hg =>
    hs.trans (sharedTrans_of_step ht) hg.1 hg.2
  rintro ⟨hterm, hdone, t, op, -, hw⟩
  simp [hrel.waiting hterm (by simp [hdone])] at hw

end Released

/-- Thread `t` calls `raft_future_wait` and blocks. -/
def blockRun (t : Fin 2) : List (SharedAct (Fin 2)) := [.start t .wait, .use t, .use t]

/-- Replier 0 answers and wakes thread `t`. -/
def wakeRun (t : Fin 2) : List (SharedAct (Fin 2)) :=
  [.answer 0 (.retval 7), .replier 0 none, .replier 0 none, .replier 0 none, .replier 0 none,
    .replier 0 (some (.client t)), .replier 0 none, .replier 0 none]

/-- One thread waits for the call, and another one looks at it afterwards. -/
theorem waiters_released_single :
    ∃ s : Shared (Fin 2), s.slot.state = .success ∧ s.repliers 0 = .done ∧
      s.uses 0 = .waiting .wait .blocked ∧ s.uses 1 = .done .wait false (.waited .success) ∧
      ¬ s.Stranded := by
  have hinit : (sharing .barrier : Scheduled (Shared (Fin 2)) _).Reach
      (fun s a _ => SingleReply a ∧ NotifiesAll s a) (.initial .barrier) := .init
  obtain ⟨s, hs, hstate, hdone, h0, h1⟩ := hinit.exists_of_run
    (blockRun 0 ++ wakeRun 0 ++ waitRun 1) (by decide)
    (fun s => s.slot.state = .success ∧ s.repliers 0 = .done ∧
      s.uses 0 = .waiting .wait .blocked ∧ s.uses 1 = .done .wait false (.waited .success))
    (by decide)
  exact ⟨s, hstate, hdone, h0, h1, waiters_released hs⟩

/-- Two threads wait for the call. -/
theorem second_waiter_stranded :
    ∃ s : Shared (Fin 2), (sharing .barrier).Reach (fun _ a _ => SingleReply a) s ∧
      s.Stranded := by
  have hinit : (sharing .barrier : Scheduled (Shared (Fin 2)) _).Reach
      (fun _ a _ => SingleReply a) (.initial .barrier) := .init
  obtain ⟨s, hs, hterm, hdone, hu, hw⟩ := hinit.exists_of_run
    (blockRun 0 ++ blockRun 1 ++ wakeRun 0) (by decide)
    (fun s => isTerminal s.slot.state = true ∧ s.repliers 0 = .done ∧
      s.uses 1 = .waiting .wait .blocked ∧ .client 1 ∈ s.slot.retCond.waiting) (by decide)
  exact ⟨s, hs, hterm, hdone, 1, .wait, hu, hw⟩

end Libraft.Pool
