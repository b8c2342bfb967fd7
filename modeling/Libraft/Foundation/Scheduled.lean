import Mathlib.Data.List.Basic
import Mathlib.Data.List.Infix

/-!
# Scheduled transition systems

A scheduler chooses one action at a time. An action fixes everything that is
left open by the program: which thread moves, which waiter a notification
wakes, which address an allocator hands out. The step function is therefore
a partial function, and a schedule is a plain list of actions which can be
replayed by evaluation.

## Implementation notes

`Reach` carries a guard on the transitions of the run, so that results about
all runs and results about the runs whose steps meet a condition share one
induction rule. A schedule whose next action is not enabled stops there.
-/

namespace Libraft.Foundation

/-- A state space with one initial state and a partial step for each action. -/
structure Scheduled (σ α : Type*) where
  init : σ
  step : σ → α → Option σ

namespace Scheduled

variable {σ α : Type*} (S : Scheduled σ α)

/-- The state after a whole schedule, provided every action was enabled. -/
def run : σ → List α → Option σ
  | s, [] => some s
  | s, a :: rest => (S.step s a).bind fun t => run t rest

/-- States reached by runs all of whose transitions satisfy the guard. -/
inductive Reach (guard : σ → α → σ → Prop) : σ → Prop
  | init : Reach guard S.init
  | step {s a t} (hs : Reach guard s) (ht : S.step s a = some t)
      (hg : guard s a t) : Reach guard t

/-- States reached by any run. -/
def Reachable (s : σ) : Prop := S.Reach (fun _ _ _ => True) s

/-- Every transition taken by the schedule satisfies the predicate. -/
def Along (P : σ → α → σ → Prop) : σ → List α → Prop
  | _, [] => True
  | s, a :: rest =>
      match S.step s a with
      | none => True
      | some t => P s a t ∧ Along P t rest

/-- The states which a schedule passes through, its first and last included. -/
def Visits (s : σ) (sched : List α) (t : σ) : Prop :=
  ∃ pre, pre <+: sched ∧ S.run s pre = some t

theorem run_cons (s : σ) (a : α) (rest : List α) :
    S.run s (a :: rest) = (S.step s a).bind fun t => S.run t rest := rfl

variable {S}

/-- A predicate which holds initially and survives every guarded transition
holds in every state the guard lets the system reach. -/
theorem Reach.invariant {guard : σ → α → σ → Prop} {I : σ → Prop} {s : σ}
    (h : S.Reach guard s) (h₀ : I S.init)
    (hstep : ∀ s a t, S.Reach guard s → I s → S.step s a = some t →
      guard s a t → I t) : I s := by
  induction h with
  | init => exact h₀
  | step hs ht hg ih => exact hstep _ _ _ hs ih ht hg

theorem Reach.mono {guard guard' : σ → α → σ → Prop} {s : σ}
    (h : S.Reach guard s) (hg : ∀ s a t, guard s a t → guard' s a t) :
    S.Reach guard' s := by
  induction h with
  | init => exact .init
  | step _ ht hgs ih => exact .step ih ht (hg _ _ _ hgs)

theorem Reach.reachable {guard : σ → α → σ → Prop} {s : σ}
    (h : S.Reach guard s) : S.Reachable s :=
  h.mono fun _ _ _ _ => trivial

theorem run_append (s : σ) (pre rest : List α) :
    S.run s (pre ++ rest) = (S.run s pre).bind fun t => S.run t rest := by
  induction pre generalizing s with
  | nil => rfl
  | cons a pre ih =>
      rw [List.cons_append, run_cons, run_cons, Option.bind_assoc]
      exact congrArg _ (funext ih)

/-- An invariant which speaks of the schedule so far. -/
theorem run_induction {I : List α → σ → Prop} {s : σ} (h₀ : I [] s)
    (hstep : ∀ pre a t u, S.run s pre = some t → I pre t → S.step t a = some u → I (pre ++ [a]) u)
    {sched : List α} {t : σ} (hr : S.run s sched = some t) : I sched t := by
  induction sched using List.reverseRecOn generalizing t with
  | nil =>
      cases hr
      exact h₀
  | append_singleton pre a ih =>
      rw [run_append] at hr
      obtain ⟨u, hu, hrest⟩ := Option.bind_eq_some_iff.mp hr
      obtain ⟨v, hv, ⟨⟩⟩ := Option.bind_eq_some_iff.mp hrest
      exact hstep pre a u t hu (ih hu) hv

theorem Reachable.next {s t : σ} {a : α} (h : S.Reachable s)
    (ht : S.step s a = some t) : S.Reachable t :=
  Reach.step h ht trivial

/-- A schedule extends a guarded run when its own transitions meet the guard. -/
theorem Reach.extend {guard : σ → α → σ → Prop} {s : σ} (h : S.Reach guard s)
    {sched : List α} (ha : S.Along guard s sched) {t : σ}
    (hr : S.run s sched = some t) : S.Reach guard t := by
  induction sched generalizing s with
  | nil => cases hr; exact h
  | cons a rest ih =>
      cases hs : S.step s a with
      | none => simp [run_cons, hs] at hr
      | some u =>
          simp only [Along, hs] at ha
          simp only [run_cons, hs, Option.bind_some] at hr
          exact ih (.step h hs ha.1) ha.2 hr

/-- A decidable condition can be checked by replaying the schedule. -/
instance decidableAlong (P : σ → α → σ → Prop) [∀ s a t, Decidable (P s a t)] :
    ∀ (s : σ) (sched : List α), Decidable (S.Along P s sched)
  | _, [] => isTrue trivial
  | s, a :: rest =>
      match hs : S.step s a with
      | none => isTrue (by simp [Along, hs])
      | some t =>
          have := decidableAlong P t rest
          decidable_of_iff (P s a t ∧ S.Along P t rest) (by simp [Along, hs])

/-- A condition on actions holds along a schedule of such actions. -/
theorem along_of_forall {guard : σ → α → σ → Prop} {sched : List α}
    (h : ∀ a ∈ sched, ∀ s t, guard s a t) (s : σ) : S.Along guard s sched := by
  induction sched generalizing s with
  | nil => trivial
  | cons a rest ih =>
      simp only [Along]
      split
      · trivial
      · exact ⟨h a List.mem_cons_self _ _, ih (fun b hb => h b (List.mem_cons_of_mem _ hb)) _⟩

theorem Along.and_mem {guard : σ → α → σ → Prop} {P : α → Prop} {s : σ} {sched : List α}
    (h : S.Along guard s sched) (hP : ∀ a ∈ sched, P a) :
    S.Along (fun s a t => P a ∧ guard s a t) s sched := by
  induction sched generalizing s with
  | nil => trivial
  | cons a rest ih =>
      cases hst : S.step s a with
      | none => simp [Along, hst]
      | some t =>
          simp only [Along, hst] at h ⊢
          exact ⟨⟨hP a List.mem_cons_self, h.1⟩,
            ih h.2 fun b hb => hP b (List.mem_cons_of_mem _ hb)⟩

theorem Reachable.run {s t : σ} (h : S.Reachable s) {sched : List α}
    (hr : S.run s sched = some t) : S.Reachable t :=
  Reach.extend h (along_of_forall (fun _ _ _ _ => trivial) s) hr

theorem reachable_of_run {sched : List α} {t : σ}
    (hr : S.run S.init sched = some t) : S.Reachable t :=
  Reachable.run .init hr

/-- Evaluating a test at the end of a schedule exhibits a reachable state. -/
theorem exists_reachable_of_run (S : Scheduled σ α) (sched : List α) (p : σ → Prop)
    [DecidablePred p] (h : (S.run S.init sched).any (fun t => decide (p t)) = true) :
    ∃ t, S.Reachable t ∧ p t := by
  cases hr : S.run S.init sched with
  | none => simp [hr] at h
  | some t => exact ⟨t, reachable_of_run hr, by simpa [hr] using h⟩

/-- The same for guarded runs. -/
theorem Reach.exists_of_run {guard : σ → α → σ → Prop} {s : σ} (h : S.Reach guard s)
    (sched : List α) (ha : S.Along guard s sched) (p : σ → Prop) [DecidablePred p]
    (hr : (S.run s sched).any (fun t => decide (p t)) = true) : ∃ t, S.Reach guard t ∧ p t := by
  cases ht : S.run s sched with
  | none => simp [ht] at hr
  | some t => exact ⟨t, h.extend ha ht, by simpa [ht] using hr⟩

/-- The same for a step after a run. -/
theorem Reach.exists_step_of_run {guard : σ → α → σ → Prop} {s : σ} (h : S.Reach guard s)
    (sched : List α) (ha : S.Along guard s sched) (a : α) (p : σ → σ → Prop)
    [∀ t u, Decidable (p t u)]
    (hr : (S.run s sched).any (fun t => (S.step t a).any fun u => decide (p t u)) = true) :
    ∃ t u, S.Reach guard t ∧ S.step t a = some u ∧ p t u := by
  obtain ⟨t, ht, hstep⟩ := h.exists_of_run sched ha
    (fun t => (S.step t a).any (fun u => decide (p t u)) = true) (by simpa using hr)
  obtain ⟨u, hu, hp⟩ := (Option.any_eq_true _ _).mp hstep
  exact ⟨t, u, ht, hu, of_decide_eq_true hp⟩

theorem visits_self (s : σ) (sched : List α) : S.Visits s sched s :=
  ⟨[], List.nil_prefix, rfl⟩

theorem visits_cons {s t u : σ} {a : α} {rest : List α}
    (hs : S.step s a = some t) (h : S.Visits t rest u) :
    S.Visits s (a :: rest) u := by
  obtain ⟨pre, hp, hr⟩ := h
  exact ⟨a :: pre, List.cons_prefix_cons.mpr ⟨rfl, hp⟩, by simp [run_cons, hs, hr]⟩

/-- A visited state is the first one or is visited by the rest of the run. -/
theorem visits_cons_iff {s u : σ} {a : α} {rest : List α} :
    S.Visits s (a :: rest) u ↔
      u = s ∨ ∃ t, S.step s a = some t ∧ S.Visits t rest u := by
  constructor
  · rintro ⟨pre, hp, hr⟩
    cases pre with
    | nil => exact .inl (Option.some.inj hr).symm
    | cons b pre =>
        obtain ⟨rfl, hpre⟩ := List.cons_prefix_cons.mp hp
        cases hs : S.step s b with
        | none => simp [run_cons, hs] at hr
        | some t => exact .inr ⟨t, rfl, pre, hpre, by simpa [run_cons, hs] using hr⟩
  · rintro (rfl | ⟨t, hs, hv⟩)
    · exact visits_self u _
    · exact visits_cons hs hv

/-- If a condition on transitions keeps an invariant which gives the goal on
each transition, every schedule meeting the condition meets the goal. -/
theorem Along.imp_of_invariant {C G : σ → α → σ → Prop} {I : σ → Prop}
    (hstep : ∀ s a t, I s → S.step s a = some t → C s a t → I t ∧ G s a t)
    {s : σ} (hs : I s) {sched : List α} (ha : S.Along C s sched) :
    S.Along G s sched := by
  induction sched generalizing s with
  | nil => trivial
  | cons a rest ih =>
      cases hst : S.step s a with
      | none => simp [Along, hst]
      | some t =>
          simp only [Along, hst] at ha ⊢
          obtain ⟨hi, hg⟩ := hstep s a t hs hst ha.1
          exact ⟨hg, ih hi ha.2⟩

/-- The states visited by a schedule which meets the condition satisfy every
invariant kept under that condition. -/
theorem Along.visits_invariant {C : σ → α → σ → Prop} {I : σ → Prop}
    (hstep : ∀ s a t, I s → S.step s a = some t → C s a t → I t)
    {s : σ} (hs : I s) {sched : List α} (ha : S.Along C s sched) {u : σ}
    (hv : S.Visits s sched u) : I u := by
  induction sched generalizing s with
  | nil =>
      obtain ⟨pre, hp, hr⟩ := hv
      rw [List.prefix_nil.mp hp] at hr
      exact Option.some.inj hr ▸ hs
  | cons a rest ih =>
      rcases visits_cons_iff.mp hv with rfl | ⟨t, hst, hv⟩
      · exact hs
      · simp only [Along, hst] at ha
        exact ih (hstep s a t hs hst ha.1) ha.2 hv

/-- Conversely a property of all visited states gives a property of all
transitions, when a bad transition always ends in a bad state. -/
theorem along_of_visits {C : σ → α → σ → Prop} {Q : σ → Prop}
    (hstep : ∀ s a t, S.Reachable s → S.step s a = some t → Q t → C s a t)
    {s : σ} (hs : S.Reachable s) {sched : List α}
    (hq : ∀ u, S.Visits s sched u → Q u) : S.Along C s sched := by
  induction sched generalizing s with
  | nil => trivial
  | cons a rest ih =>
      cases hst : S.step s a with
      | none => simp [Along, hst]
      | some t =>
          simp only [Along, hst]
          refine ⟨hstep s a t hs hst (hq t ?_), ih (hs.next hst) ?_⟩
          · exact visits_cons hst (visits_self t rest)
          · exact fun u hv => hq u (visits_cons hst hv)

/-- A condition on the states behind the transitions is one on the visited states. -/
theorem along_iff_visits {P : σ → Prop} {s : σ} (hs : P s) {sched : List α} :
    S.Along (fun _ _ t => P t) s sched ↔ ∀ u, S.Visits s sched u → P u := by
  constructor
  · intro ha u hv
    exact ha.visits_invariant (I := P) (fun _ _ _ _ _ ht => ht) hs hv
  · intro h
    induction sched generalizing s with
    | nil => trivial
    | cons a rest ih =>
        cases hst : S.step s a with
        | none => simp [Along, hst]
        | some t =>
            simp only [Along, hst]
            have ht : P t := h t (visits_cons hst (visits_self t rest))
            exact ⟨ht, ih ht fun u hv => h u (visits_cons hst hv)⟩

section History
variable {η : Type*}

/-- The system with a history variable beside its state, which no step reads. -/
def withHistory (S : Scheduled σ α) (start : η) (record : σ → α → η → η) :
    Scheduled (σ × η) α where
  init := (S.init, start)
  step := fun p a => (S.step p.1 a).map fun t => (t, record p.1 a p.2)

variable {start : η} {record : σ → α → η → η}

theorem withHistory_step {p q : σ × η} {a : α}
    (h : (S.withHistory start record).step p a = some q) :
    S.step p.1 a = some q.1 ∧ q.2 = record p.1 a p.2 := by
  obtain ⟨t, ht, rfl⟩ := Option.map_eq_some_iff.mp h
  exact ⟨ht, rfl⟩

/-- The history can be forgotten. -/
theorem Reachable.forget {p : σ × η} (h : (S.withHistory start record).Reachable p) :
    S.Reachable p.1 := by
  refine Reach.invariant (I := fun p : σ × η => S.Reachable p.1) h Reach.init ?_
  exact fun _ _ _ _ hs ht _ => hs.next (withHistory_step ht).1

/-- Every run has a history. -/
theorem Reachable.remember {s : σ} (h : S.Reachable s) (start : η) (record : σ → α → η → η) :
    ∃ past, (S.withHistory start record).Reachable (s, past) := by
  refine Reach.invariant (I := fun s => ∃ past, (S.withHistory start record).Reachable (s, past))
    h ⟨start, Reach.init⟩ ?_
  rintro s a t - ⟨past, hp⟩ ht -
  exact ⟨record s a past, hp.next (a := a) (by simp [withHistory, ht])⟩

end History

end Scheduled

end Libraft.Foundation
