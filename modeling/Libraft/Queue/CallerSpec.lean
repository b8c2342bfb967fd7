import Libraft.Queue.BoundedFifo

/-!
# What the callers of the blocking queue see

The specification of `put` and `take` for programs built on the queue. One
step of one thread changes no other thread's position; a `put` in progress
either stays in progress, or ends normally with its value accepted, or ends
with `queue_closed` and nothing accepted; values are delivered by the steps in
which a `take` returns them. When every `put` brings a value of its own,
no value is accepted twice.
-/

namespace Libraft.Queue.ArrayBlockingQueue

open Libraft.Foundation

variable {T ι : Type*}

/-- The thread which an action concerns. -/
def Act.thread : Act T ι → ι
  | .call t _ | .callClose t | .step t _ | .spurious t | .leave t => t

/-- An operation has been called and has not returned. -/
def Pc.runs (op : Op T) (p : Pc T) : Prop :=
  p = .check op ∨ p = .lock op ∨ p = .loop op ∨ p = .wait op ∨ p = .recheck op ∨ p = .body op

/-- The values of the puts which have returned normally, in order. -/
def State.accepted (s : State T ι) : List T := s.log.filterMap Outcome.accepted

/-- The values returned by the takes, in order. -/
def State.delivered (s : State T ι) : List T := s.log.filterMap Outcome.delivered

variable [DecidableEq ι] {cap : UInt32} {s s' : State T ι} {a : Act T ι}

theorem pc_of_ne (h : Trans cap s a s') {u : ι} (hu : u ≠ a.thread) : s'.pc u = s.pc u := by
  cases h with
  | @block t w op h hb => cases op <;> exact Function.update_of_ne hu _ _
  | @wakeUp t w op h hm hn => cases op <;> exact Function.update_of_ne hu _ _
  | spuriousFull h | spuriousEmpty h => rfl
  | _ => exact Function.update_of_ne hu _ _

/-- Only a thread which is inside an operation steps. -/
theorem pc_of_step {t : ι} {w : Option ι} (h : Trans cap s (.step t w) s') :
    s.pc t ≠ .idle ∧ ∀ out, s.pc t ≠ .done out := by
  cases h with
  | _ h => simp [h]

/-- A wakeup without notification is noticed by nobody else. -/
theorem pc_of_spurious {t : ι} (h : Trans cap s (.spurious t) s') :
    s'.pc = s.pc ∧ s'.log = s.log := by
  cases h <;> exact ⟨rfl, rfl⟩

/-- A value is accepted only by the step in which its `put` returns. -/
theorem accepted_cases (h : Trans cap s a s') :
    s'.accepted = s.accepted ∨
      ∃ t w val, a = .step t w ∧ s.pc t = .body (.put val) ∧
        s'.pc t = .done (.putDone val) ∧ s'.accepted = s.accepted ++ [val] := by
  cases h with
  | @put t w val c h hn =>
      exact .inr ⟨t, w, val, rfl, h, by simp, by simp [State.accepted, Outcome.accepted]⟩
  | @checkClosed t w op h hc =>
      exact .inl (by cases op <;> simp [State.accepted, Op.thrown, Outcome.accepted])
  | @recheckClosed t w op h hc =>
      exact .inl (by cases op <;> simp [State.accepted, Op.thrown, Outcome.accepted])
  | take h hn | closeUnlock h => exact .inl (by simp [State.accepted, Outcome.accepted])
  | @block t w op h hb => exact .inl (by cases op <;> rfl)
  | @wakeUp t w op h hm hn => exact .inl (by cases op <;> rfl)
  | _ => exact .inl rfl

theorem accepted_subset (h : Trans cap s a s') : s.accepted ⊆ s'.accepted := by
  rcases accepted_cases h with he | ⟨t, w, val, -, -, -, he⟩
  · rw [he]
    exact List.Subset.refl _
  · rw [he]
    exact List.subset_append_left _ _

/-- A value is delivered only by the step in which a `take` returns it. -/
theorem delivered_cases (h : Trans cap s a s') :
    s'.delivered = s.delivered ∨
      ∃ t w val, a = .step t w ∧ s.pc t = .body .take ∧
        s'.pc t = .done (.takeDone val) ∧ s'.delivered = s.delivered ++ [val] := by
  cases h with
  | @take t w c h hn =>
      exact .inr ⟨t, w, (s.ring.take cap).1, rfl, h, by simp,
        by simp [State.delivered, Outcome.delivered]⟩
  | @checkClosed t w op h hc =>
      exact .inl (by cases op <;> simp [State.delivered, Op.thrown, Outcome.delivered])
  | @recheckClosed t w op h hc =>
      exact .inl (by cases op <;> simp [State.delivered, Op.thrown, Outcome.delivered])
  | put h hn | closeUnlock h => exact .inl (by simp [State.delivered, Outcome.delivered])
  | @block t w op h hb => exact .inl (by cases op <;> rfl)
  | @wakeUp t w op h hm hn => exact .inl (by cases op <;> rfl)
  | _ => exact .inl rfl

/-- What a step of its own thread makes of a `put` in progress. -/
theorem put_step {t : ι} {w : Option ι} {val : T} (h : Trans cap s (.step t w) s')
    (hr : (s.pc t).runs (.put val)) :
    ((s'.pc t).runs (.put val) ∧ s'.accepted = s.accepted) ∨
    (s'.pc t = .done (.putDone val) ∧ s'.accepted = s.accepted ++ [val]) ∨
    (s'.pc t = .done (.putClosed val) ∧ s'.accepted = s.accepted) := by
  rcases hr with hpc | hpc | hpc | hpc | hpc | hpc
  all_goals cases h
  all_goals simp_all [Pc.runs, State.accepted, Op.thrown, Outcome.accepted, State.setCond]

/-- An operation in progress was in progress before, or has just been called. -/
theorem runs_of_trans (h : Trans cap s a s') {t : ι} {op : Op T} (hr : (s'.pc t).runs op) :
    (s.pc t).runs op ∨ a = .call t op := by
  by_cases ht : t = a.thread
  · subst ht
    cases h with
    | @block t w op' h hb => cases op' <;> simp_all [Pc.runs, Act.thread]
    | @wakeUp t w op' h hm hn => cases op' <;> simp_all [Pc.runs, Act.thread]
    | _ => simp_all [Pc.runs, Act.thread]
  · rw [pc_of_ne h ht] at hr
    exact .inl hr

/-- If only thread `c` takes, no step of another thread delivers a value. -/
theorem delivered_of_ne (h : Trans cap s a s') {c : ι}
    (hc : ∀ t, t ≠ c → ¬ (s.pc t).runs .take) (ha : a.thread ≠ c) :
    s'.delivered = s.delivered := by
  rcases delivered_cases h with hd | ⟨t, w, val, rfl, hpc, -, -⟩
  · exact hd
  · exact absurd (by simp [Pc.runs, hpc]) (hc t ha)

/-- The value which a finished `take` has in its hands. -/
def Pc.inHand : Pc T → Option T
  | .done (.takeDone val) => some val
  | _ => none

/-- If only thread `c` takes, each delivered value passes through its hands. -/
theorem consumer_step (h : Trans cap s a s') {c : ι}
    (hc : ∀ t, t ≠ c → ¬ (s.pc t).runs .take) (ha : a ≠ .leave c) :
    (s'.delivered = s.delivered ∧ (s'.pc c).inHand = (s.pc c).inHand) ∨
      ∃ val, (s.pc c).inHand = none ∧ (s'.pc c).inHand = some val ∧
        s'.delivered = s.delivered ++ [val] := by
  by_cases ht : a.thread = c
  · subst ht
    cases h with
    | @take t w c h hn =>
        exact .inr ⟨(s.ring.take cap).1, by simp [Act.thread, h, Pc.inHand],
          by simp [Act.thread, Pc.inHand], by simp [State.delivered, Outcome.delivered]⟩
    | @checkClosed t w op h hc | @recheckClosed t w op h hc =>
        exact .inl (by cases op <;>
          simp [State.delivered, Op.thrown, Outcome.delivered, Act.thread, Pc.inHand, h])
    | @block t w op h hb =>
        exact .inl (by cases op <;> simp [State.delivered, State.setCond, Act.thread, Pc.inHand, h])
    | @wakeUp t w op h hm hn =>
        exact .inl (by cases op <;> simp [State.delivered, State.setCond, Act.thread, Pc.inHand, h])
    | spuriousFull h | spuriousEmpty h => exact .inl ⟨rfl, rfl⟩
    | leave h => exact absurd rfl ha
    | _ h => exact .inl (by simp [State.delivered, Outcome.delivered, Act.thread, Pc.inHand, h])
  · exact .inl ⟨delivered_of_ne h hc ht, by rw [pc_of_ne h (Ne.symm ht)]⟩

/-- Every `put` brings a value which satisfies `P` and has a name of its own. -/
structure Supplied (name : T → ℕ) (P : T → Prop) (s : State T ι) : Prop where
  pending : ∀ t val, (s.pc t).runs (.put val) → P val ∧ name val ∉ s.accepted.map name
  distinct : ∀ t u val val', (s.pc t).runs (.put val) → (s.pc u).runs (.put val') →
    name val = name val' → t = u
  accepted : ∀ val ∈ s.accepted, P val
  nodup : (s.accepted.map name).Nodup

section Supplied
variable {name : T → ℕ} {P Q : T → Prop}

omit [DecidableEq ι] in
theorem supplied_initial (cells : ℕ → T) : Supplied name P (initial cells : State T ι) where
  pending := by
    intro t val h
    simp [initial, Pc.runs] at h
  distinct := by
    intro t u val val' h
    simp [initial, Pc.runs] at h
  accepted := by simp [initial, State.accepted]
  nodup := by simp [initial, State.accepted]

omit [DecidableEq ι] in
theorem Supplied.mono (hs : Supplied name P s) (hpq : ∀ val, P val → Q val) :
    Supplied name Q s where
  pending := fun t val h => ⟨hpq val (hs.pending t val h).1, (hs.pending t val h).2⟩
  distinct := hs.distinct
  accepted := fun val h => hpq val (hs.accepted val h)
  nodup := hs.nodup

/-- A step which calls no `put`. -/
theorem Supplied.trans (hs : Supplied name P s) (h : Trans cap s a s')
    (ha : ∀ t val, a ≠ .call t (.put val)) : Supplied name P s' := by
  have hruns {t val} (hr : (s'.pc t).runs (.put val)) : (s.pc t).runs (.put val) :=
    (runs_of_trans h hr).resolve_right (ha t val)
  have hdis : ∀ t u val val', (s'.pc t).runs (.put val) → (s'.pc u).runs (.put val') →
      name val = name val' → t = u :=
    fun t u val val' ht hu => hs.distinct t u val val' (hruns ht) (hruns hu)
  rcases accepted_cases h with he | ⟨t, w, val, rfl, hpc, hpc', he⟩
  · exact ⟨fun t val hr => he ▸ hs.pending t val (hruns hr), hdis, he ▸ hs.accepted,
      he ▸ hs.nodup⟩
  · have hrun : (s.pc t).runs (.put val) := by simp [Pc.runs, hpc]
    obtain ⟨hp, hfresh⟩ := hs.pending t val hrun
    refine ⟨fun u val' hr => ?_, hdis, fun val' hv => ?_, ?_⟩
    · have hut : u ≠ t := by
        rintro rfl
        simp [Pc.runs, hpc'] at hr
      have hne : name val' ≠ name val := fun hn => hut (hs.distinct u t _ _ (hruns hr) hrun hn)
      obtain ⟨hp', hfresh'⟩ := hs.pending u val' (hruns hr)
      refine ⟨hp', ?_⟩
      rw [he, List.map_append, List.mem_append, List.map_singleton, List.mem_singleton]
      exact not_or.mpr ⟨hfresh', hne⟩
    · rw [he, List.mem_append, List.mem_singleton] at hv
      rcases hv with hv | rfl
      · exact hs.accepted val' hv
      · exact hp
    · rw [he, List.map_append, List.map_singleton]
      exact List.nodup_append.mpr ⟨hs.nodup, List.nodup_singleton _,
        fun x hx y hy hxy => hfresh (by simp_all)⟩

/-- A call of `put` with a value whose name has not been used. -/
theorem Supplied.call (hs : Supplied name P s) {t : ι} {val : T}
    (h : Trans cap s (.call t (.put val)) s') (hp : Q val) (hpq : ∀ v, P v → Q v)
    (hfresh : ∀ v, P v → name v ≠ name val) : Supplied name Q s' := by
  cases h with
  | call h =>
      have hrun {u v} (hr : ((s.goto t (.check (.put val))).pc u).runs (.put v)) :
          (u = t ∧ v = val) ∨ (u ≠ t ∧ (s.pc u).runs (.put v)) := by
        by_cases hu : u = t
        · subst hu
          exact .inl ⟨rfl, by simpa [Pc.runs, eq_comm] using hr⟩
        · exact .inr ⟨hu, by simpa [hu] using hr⟩
      have hmem : name val ∉ s.accepted.map name := by
        rw [List.mem_map]
        rintro ⟨v, hv, hn⟩
        exact hfresh v (hs.accepted v hv) hn
      refine ⟨fun u v hr => ?_, fun u u' v v' hr hr' hn => ?_, fun v hv => hpq v (hs.accepted v hv),
        hs.nodup⟩
      · rcases hrun hr with ⟨rfl, rfl⟩ | ⟨-, hr⟩
        · exact ⟨hp, hmem⟩
        · exact ⟨hpq v (hs.pending u v hr).1, (hs.pending u v hr).2⟩
      · rcases hrun hr with ⟨rfl, rfl⟩ | ⟨-, hold⟩ <;>
          rcases hrun hr' with ⟨rfl, rfl⟩ | ⟨-, hold'⟩
        · rfl
        · exact absurd hn.symm (hfresh v' (hs.pending u' v' hold').1)
        · exact absurd hn (hfresh v (hs.pending u v hold).1)
        · exact hs.distinct u u' v v' hold hold' hn

end Supplied

/-- What is delivered and what is stored make up what was accepted. -/
theorem delivered_append_contents (hcap : 1 ≤ cap) {cells : ℕ → T}
    (h : (system cap cells).Reachable s) :
    s.delivered ++ s.ring.contents cap = s.accepted :=
  (guarded_of_reachable hcap h).2.conserved

end Libraft.Queue.ArrayBlockingQueue
