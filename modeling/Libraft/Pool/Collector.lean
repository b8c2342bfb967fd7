import Libraft.Pool.Transitions

/-!
# The lists of the orphan collector

`orphaned_calls`, the orphan in the hand of `run_orphan_gc` and
`orphan_backlog` name each orphan once, whatever the collector and
`scan_orphans`, which erases from the list it walks through, are doing.
-/

namespace Libraft.Pool

open Libraft.Foundation Libraft.Calls

variable {τ ρ : Type*}

/-- The orphan which the collector has taken out of its queue. -/
def State.hand (s : State τ ρ) : List ℕ :=
  match s.gc with
  | .attempt c none _ => [c]
  | _ => []

/-- All places in which the collector keeps pointers. -/
def State.listed (s : State τ ρ) : List ℕ := s.orphans ++ s.hand ++ s.backlog

/-- The call on which `try_dispose_orphan` works. -/
def State.Attempted (s : State τ ρ) (c : ℕ) : Prop := ∃ entry pc, s.gc = .attempt c entry pc

/-- The stage of the call which `try_dispose_orphan` works on. -/
def Attempt.Fits (life : Life) : Attempt → Prop
  | .tryLock | .test => life = .orphaned
  | .dispose => (∃ pc, life = .disposing true pc) ∨ life = .gone
  | .release locked disposed =>
      (disposed = true → locked = true ∧ life = .gone) ∧ (disposed = false → life = .orphaned)

/-- The future has not been disposed of. -/
def Life.undisposed : Life → Bool
  | .creating _ | .held | .disposing false _ => true
  | _ => false

/-- The collector's lists and the stages of the calls. -/
structure GcOk (s : State τ ρ) : Prop where
  nodup : s.listed.Nodup
  mem : ∀ c, c ∈ s.listed ↔ (s.calls c).life = .orphaned ∨ s.Attempted c
  disposing : ∀ c pc, (s.calls c).life = .disposing true pc →
    ∃ entry, s.gc = .attempt c entry .dispose
  attempt : ∀ c entry pc, s.gc = .attempt c entry pc → pc.Fits (s.calls c).life
  entry : ∀ c i pc, s.gc = .attempt c (some i) pc → s.backlog[i]? = some c

theorem gcOk_initial : GcOk (initial : State τ ρ) where
  nodup := by simp [State.listed, State.hand, initial]
  mem := by simp [State.listed, State.hand, State.Attempted, initial, Call.unborn]
  disposing := by simp [initial, Call.unborn]
  attempt := by simp [initial]
  entry := by simp [initial]

/-- The collector has nothing to do with this change of stage. -/
structure SameForGc (life life' : Life) : Prop where
  orphaned : life' = .orphaned ↔ life = .orphaned
  disposing : ∀ pc', life' = .disposing true pc' → ∃ pc, life = .disposing true pc
  gone : life = .gone → life' = .gone
  byGc : ∀ pc, life = .disposing true pc → (∃ pc', life' = .disposing true pc') ∨ life' = .gone

theorem SameForGc.refl (life : Life) : SameForGc life life :=
  ⟨.rfl, fun pc h => ⟨pc, h⟩, id, fun pc h => .inl ⟨pc, h⟩⟩

theorem Attempt.Fits.keep {life life' : Life} {pc : Attempt} (h : pc.Fits life)
    (hs : SameForGc life life') : pc.Fits life' := by
  cases pc with
  | tryLock | test => exact hs.orphaned.mpr h
  | dispose =>
      rcases h with ⟨pc, hd⟩ | hg
      · exact hs.byGc pc hd
      · exact .inr (hs.gone hg)
  | release locked disposed =>
      exact ⟨fun hd => ⟨(h.1 hd).1, hs.gone (h.1 hd).2⟩, fun hd => hs.orphaned.mpr (h.2 hd)⟩

section Keep
variable {s s' : State τ ρ}

/-- The collector's pointers are to calls whose future has been disposed of. -/
theorem GcOk.disposed_of_listed (h : GcOk s) {c : ℕ} (hc : c ∈ s.listed) :
    (s.calls c).life.undisposed = false := by
  rcases (h.mem c).mp hc with ho | ⟨entry, pc, hg⟩
  · simp [ho, Life.undisposed]
  · have hfit := h.attempt c entry pc hg
    cases pc with
    | tryLock | test =>
        have ho : (s.calls c).life = .orphaned := hfit
        simp [ho, Life.undisposed]
    | dispose =>
        rcases hfit with ⟨pc, hd⟩ | hgone
        · simp [hd, Life.undisposed]
        · simp [hgone, Life.undisposed]
    | release locked disposed =>
        cases disposed with
        | true => simp [(hfit.1 rfl).2, Life.undisposed]
        | false => simp [hfit.2 rfl, Life.undisposed]

theorem GcOk.not_attempted_of_undisposed (h : GcOk s) {c : ℕ}
    (hc : (s.calls c).life.undisposed = true) : ¬ s.Attempted c := by
  intro ha
  simp [h.disposed_of_listed ((h.mem c).mpr (.inr ha))] at hc

/-- A step which the collector has nothing to do with. -/
theorem GcOk.keep (h : GcOk s) (hgc : s'.gc = s.gc) (ho : s'.orphans = s.orphans)
    (hb : s'.backlog = s.backlog) (hs : ∀ c, SameForGc (s.calls c).life (s'.calls c).life) :
    GcOk s' := by
  have hl : s'.listed = s.listed := by
    simp only [State.listed, State.hand, hgc, ho, hb]
  refine ⟨hl ▸ h.nodup, fun c => ?_, fun c pc hc => ?_, fun c entry pc hg => ?_, ?_⟩
  · rw [hl, h.mem, (hs c).orphaned, State.Attempted, State.Attempted, hgc]
  · obtain ⟨pc₀, hd⟩ := (hs c).disposing pc hc
    rw [hgc]
    exact h.disposing c pc₀ hd
  · exact (h.attempt c entry pc (hgc ▸ hg)).keep (hs c)
  · rw [hgc, hb]
    exact h.entry

theorem GcOk.setCall (h : GcOk s) {c : ℕ} {call : Call τ} {life : Life}
    (hcalls : s'.calls = Function.update s.calls c call) (hgc : s'.gc = s.gc)
    (ho : s'.orphans = s.orphans) (hb : s'.backlog = s.backlog)
    (hl : (s.calls c).life = life) (hs : SameForGc life call.life) : GcOk s' := by
  refine h.keep hgc ho hb fun d => ?_
  by_cases hd : d = c
  · subst hd
    simpa [hcalls, hl] using hs
  · simpa [hcalls, hd] using SameForGc.refl _

/-- While no attempt is going on, the lists name the orphans. -/
theorem GcOk.mem_of_rest (h : GcOk s) (hg : ∀ c, ¬ s.Attempted c) (c : ℕ) :
    c ∈ s.listed ↔ (s.calls c).life = .orphaned := by
  simp [h.mem, hg c]

/-- The collector changes its position outside of any attempt. -/
theorem GcOk.rest (h : GcOk s) (hg : ∀ c, ¬ s.Attempted c) (hg' : ∀ c, ¬ s'.Attempted c)
    (hcalls : s'.calls = s.calls) (ho : s'.orphans = s.orphans) (hb : s'.backlog = s.backlog) :
    GcOk s' := by
  have hhand {s : State τ ρ} (hn : ∀ c, ¬ s.Attempted c) : s.hand = [] := by
    unfold State.hand
    split
    · exact absurd ⟨_, _, ‹_›⟩ (hn _)
    · rfl
  have hl : s'.listed = s.listed := by
    rw [State.listed, State.listed, hhand hg, hhand hg', ho, hb]
  refine ⟨hl ▸ h.nodup, fun c => ?_, fun c pc hc => ?_, fun c entry pc hc => ?_,
    fun c i pc hc => ?_⟩
  · simp [hl, h.mem_of_rest hg, hcalls, hg']
  · obtain ⟨entry, hd⟩ := h.disposing c pc (hcalls ▸ hc)
    exact absurd ⟨_, _, hd⟩ (hg c)
  · exact absurd ⟨_, _, hc⟩ (hg' c)
  · exact absurd ⟨_, _, hc⟩ (hg' c)

/-- The next statement of `try_dispose_orphan`. -/
theorem GcOk.attempt_step (h : GcOk s) {c : ℕ} {entry : Option ℕ} {pc pc' : Attempt}
    (hg : s.gc = .attempt c entry pc) (hg' : s'.gc = .attempt c entry pc')
    (ho : s'.orphans = s.orphans) (hb : s'.backlog = s.backlog)
    (hother : ∀ d, d ≠ c → (s'.calls d).life = (s.calls d).life)
    (hfit : pc'.Fits (s'.calls c).life)
    (hdis : ∀ q, (s'.calls c).life = .disposing true q → pc' = .dispose) : GcOk s' := by
  have hl : s'.listed = s.listed := by
    cases entry <;> simp only [State.listed, State.hand, hg, hg', ho, hb]
  have hatt {d : ℕ} : s.Attempted d ↔ d = c := by
    simp [State.Attempted, hg, eq_comm]
  have hatt' {d : ℕ} : s'.Attempted d ↔ d = c := by
    simp [State.Attempted, hg', eq_comm]
  refine ⟨hl ▸ h.nodup, fun d => ?_, fun d q hd => ?_, fun d e q hd => ?_, fun d i q hd => ?_⟩
  · rw [hl, h.mem, hatt, hatt']
    by_cases hdc : d = c
    · simp [hdc]
    · simp [hdc, hother d hdc]
  · by_cases hdc : d = c
    · subst hdc
      exact ⟨entry, by rw [hg', hdis q hd]⟩
    · rw [hother d hdc] at hd
      obtain ⟨e, he⟩ := h.disposing d q hd
      rw [hg] at he
      cases he
      exact absurd rfl hdc
  · rw [hg'] at hd
    cases hd
    exact hfit
  · rw [hg'] at hd
    cases hd
    rw [hb]
    exact h.entry c i pc hg

/-- An attempt starts. -/
theorem GcOk.start (h : GcOk s) (hg : ∀ c, ¬ s.Attempted c) {c : ℕ} {entry : Option ℕ}
    (hg' : s'.gc = .attempt c entry .tryLock) (hcalls : s'.calls = s.calls)
    (hl : s'.listed.Perm s.listed) (hc : c ∈ s.listed)
    (hentry : ∀ i, entry = some i → s'.backlog[i]? = some c) : GcOk s' := by
  have horph := (h.mem_of_rest hg c).mp hc
  have hatt' {d : ℕ} : s'.Attempted d ↔ d = c := by
    simp [State.Attempted, hg', eq_comm]
  refine ⟨hl.nodup_iff.mpr h.nodup, fun d => ?_, fun d q hd => ?_, fun d e q hd => ?_,
    fun d i q hd => ?_⟩
  · rw [hl.mem_iff, h.mem_of_rest hg, hcalls, hatt']
    constructor
    · exact .inl
    · rintro (ho | rfl)
      · exact ho
      · exact horph
  · obtain ⟨e, he⟩ := h.disposing d q (hcalls ▸ hd)
    exact absurd ⟨_, _, he⟩ (hg d)
  · rw [hg'] at hd
    cases hd
    rw [hcalls]
    exact horph
  · rw [hg'] at hd
    cases hd
    exact hentry i rfl

/-- An attempt is over. -/
theorem GcOk.finish (h : GcOk s) {c : ℕ} {entry : Option ℕ} {pc : Attempt}
    (hg : s.gc = .attempt c entry pc) (hg' : ∀ d, ¬ s'.Attempted d) (hpc : pc ≠ .dispose)
    (hcalls : s'.calls = s.calls) (hnd : s'.listed.Nodup)
    (hl : ∀ d, d ∈ s'.listed ↔ d ∈ s.listed ∧ (d = c → (s.calls c).life = .orphaned)) :
    GcOk s' := by
  refine ⟨hnd, fun d => ?_, fun d q hd => ?_, fun d e q hd => absurd ⟨_, _, hd⟩ (hg' d),
    fun d i q hd => absurd ⟨_, _, hd⟩ (hg' d)⟩
  · simp only [hl, h.mem, hcalls, hg' d, or_false]
    constructor
    · rintro ⟨ho | ⟨e, q, ha⟩, hc⟩
      · exact ho
      · rw [hg] at ha
        cases ha
        exact hc rfl
    · intro ho
      refine ⟨.inl ho, ?_⟩
      rintro rfl
      exact ho
  · obtain ⟨e, he⟩ := h.disposing d q (hcalls ▸ hd)
    rw [hg] at he
    cases he
    exact absurd rfl hpc

/-- A client gives a call to the collector. -/
theorem GcOk.track (h : GcOk s) {c : ℕ} {call : Call τ} {pc : Dispose}
    (hl : (s.calls c).life = .disposing false pc) (hlife : call.life = .orphaned)
    (hcalls : s'.calls = Function.update s.calls c call) (hgc : s'.gc = s.gc)
    (ho : s'.orphans = s.orphans ++ [c]) (hb : s'.backlog = s.backlog) : GcOk s' := by
  have hnot : ¬ s.Attempted c := h.not_attempted_of_undisposed (by simp [hl, Life.undisposed])
  have hnew : c ∉ s.listed := by
    rw [h.mem, hl]
    simpa using hnot
  have hperm : s'.listed.Perm (c :: s.listed) := by
    have hhand : s'.hand = s.hand := by rw [State.hand, State.hand, hgc]
    rw [State.listed, State.listed, ho, hb, hhand, List.append_assoc, List.append_assoc,
      List.append_assoc]
    exact List.perm_middle
  refine ⟨hperm.nodup_iff.mpr (List.nodup_cons.mpr ⟨hnew, h.nodup⟩), fun d => ?_, fun d q hd => ?_,
    fun d e q hd => ?_, ?_⟩
  · rw [hperm.mem_iff, List.mem_cons, h.mem, State.Attempted, State.Attempted, hgc]
    by_cases hdc : d = c
    · simp [hdc, hcalls, hlife]
    · simp [hdc, hcalls]
  · have hdc : d ≠ c := by
      rintro rfl
      simp [hcalls, hlife] at hd
    rw [hgc]
    exact h.disposing d q (by simpa [hcalls, hdc] using hd)
  · have hdc : d ≠ c := by
      rintro rfl
      exact hnot ⟨e, q, hgc ▸ hd⟩
    simpa [hcalls, hdc] using h.attempt d e q (hgc ▸ hd)
  · rw [hgc, hb]
    exact h.entry

/-- `try_dispose_orphan` returns to `run_orphan_gc`. -/
theorem GcOk.released_fresh (h : GcOk s) {c : ℕ} {locked disposed : Bool}
    (hg : s.gc = .attempt c none (.release locked disposed)) :
    GcOk ((s.unlocked c locked).attempted c none disposed) := by
  have hfit := h.attempt c none _ hg
  have hlisted : s.listed.Perm (c :: (s.orphans ++ s.backlog)) := by
    simp only [State.listed, State.hand, hg, List.append_assoc, List.singleton_append]
    exact List.perm_middle
  obtain ⟨hc, hrest⟩ := List.nodup_cons.mp (hlisted.nodup_iff.mp h.nodup)
  cases disposed with
  | true =>
      obtain ⟨-, hgone⟩ := hfit.1 rfl
      have hl : ((s.unlocked c locked).attempted c none true).listed = s.orphans ++ s.backlog := by
        simp [State.listed, State.hand, State.attempted]
      refine h.finish hg (by simp [State.Attempted, State.attempted]) (by simp) (by simp)
        (hl ▸ hrest) fun d => ?_
      rw [hl, hlisted.mem_iff, List.mem_cons, hgone]
      constructor
      · intro hd
        refine ⟨.inr hd, ?_⟩
        rintro rfl
        exact absurd hd hc
      · rintro ⟨hd | hd, hne⟩
        · exact absurd (hne hd) (by simp)
        · exact hd
  | false =>
      have hl : ((s.unlocked c locked).attempted c none false).listed.Perm s.listed := by
        simp only [State.listed, State.hand, State.attempted, hg, unlocked_orphans,
          unlocked_backlog, List.append_nil]
        rw [List.append_assoc]
        exact .append_left _ List.perm_append_comm
      exact h.finish hg (by simp [State.Attempted, State.attempted]) (by simp) (by simp)
        (hl.nodup_iff.mpr h.nodup) fun d => by simp [hl.mem_iff, hfit.2 rfl]

/-- `try_dispose_orphan` returns to `scan_orphans`. -/
theorem GcOk.released_entry (h : GcOk s) {c i : ℕ} {locked disposed : Bool}
    (hg : s.gc = .attempt c (some i) (.release locked disposed)) :
    GcOk ((s.unlocked c locked).attempted c (some i) disposed) := by
  have hfit := h.attempt c (some i) _ hg
  have hlisted : s.listed = s.orphans ++ s.backlog := by
    simp [State.listed, State.hand, hg]
  have hnd := hlisted ▸ h.nodup
  cases disposed with
  | true =>
      obtain ⟨-, hgone⟩ := hfit.1 rfl
      obtain ⟨hi, rfl⟩ := List.getElem?_eq_some_iff.mp (h.entry c i _ hg)
      have hl : ((s.unlocked s.backlog[i] locked).attempted s.backlog[i] (some i) true).listed =
          s.orphans ++ s.backlog.erase s.backlog[i] := by
        rw [(List.nodup_append.mp hnd).2.1.erase_getElem i hi]
        simp [State.listed, State.hand, State.attempted]
      refine h.finish hg (by simp [State.Attempted, State.attempted]) (by simp) (by simp) ?_
        fun d => ?_
      · rw [hl]
        exact hnd.sublist (List.Sublist.append_left List.erase_sublist _)
      · have hdis := (List.nodup_append.mp hnd).2.2
        rw [hl, hlisted, List.mem_append, List.mem_append,
          (List.nodup_append.mp hnd).2.1.mem_erase_iff, hgone]
        constructor
        · rintro (hd | ⟨hne, hd⟩)
          · exact ⟨.inl hd, fun he => absurd he (hdis d hd _ (List.getElem_mem hi))⟩
          · exact ⟨.inr hd, fun he => absurd he hne⟩
        · rintro ⟨hd | hd, hne⟩
          · exact .inl hd
          · exact .inr ⟨fun he => absurd (hne he) (by simp), hd⟩
  | false =>
      have hl : ((s.unlocked c locked).attempted c (some i) false).listed = s.listed := by
        simp [State.listed, State.hand, State.attempted, hg]
      exact h.finish hg (by simp [State.Attempted, State.attempted]) (by simp) (by simp)
        (hl ▸ h.nodup) fun d => by simp [hl, hfit.2 rfl]

theorem not_attempted_of_gc {gc : Gc} (hg : s.gc = gc) (hn : ∀ c entry pc, gc ≠ .attempt c entry pc)
    (c : ℕ) : ¬ s.Attempted c := by
  rintro ⟨entry, pc, ha⟩
  exact hn c entry pc (hg.symm.trans ha)

variable [DecidableEq τ] [DecidableEq ρ] {a : Act τ ρ}

/-- What a step on its slot makes of the stage of a call. -/
theorem CallTrans.sameForGc {c : ℕ} {call call' : Call τ} {slot slot' : BaseSlot (Actor τ)}
    {a : CallAct τ} (ht : CallTrans c call slot a call' slot') :
    SameForGc call.life call'.life := by
  cases ht with
  | failError hl | failState hl => exact ⟨by simp [hl], by simp, by simp [hl], by simp [hl]⟩
  | dispose hl ha => exact ⟨by simp [hl], by simp, by simp [hl], by simp [hl]⟩
  | load hl | abandon hl => exact ⟨by simp [hl], by simp [hl], by simp [hl], by simp [hl]⟩
  | _ => exact .refl _

theorem GcOk.trans (h : GcOk s) (ht : Trans s a s') (hborn : (s.calls s.next).life = .unborn)
    (hlife : ∀ c, Lifecycle (s.calls c)) : GcOk s' := by
  cases ht with
  | create he hb =>
      exact h.setCall rfl rfl rfl rfl hborn
        ⟨by simp [Call.create], by simp [Call.create], by simp, by simp⟩
  | @allocate c n err hl hp =>
      refine h.setCall rfl rfl rfl rfl hl ?_
      cases err <;> exact ⟨by simp [Call.allocated], by simp [Call.allocated], by simp, by simp⟩
  | enqueue hl hq => exact h.setCall rfl rfl rfl rfl hl ⟨by simp, by simp, by simp, by simp⟩
  | sentOk hl hp => exact h.setCall rfl rfl rfl rfl hl ⟨by simp, by simp, by simp, by simp⟩
  | sentClosed hl hp =>
      exact h.setCall rfl rfl rfl rfl hl
        ⟨by simp [Call.refused], by simp [Call.refused], by simp, by simp⟩
  | call ht hr => exact h.setCall rfl rfl rfl rfl rfl ht.sameForGc
  | @track c byGc hl ho =>
      have hc := hlife c
      cases byGc with
      | false => exact h.track hl rfl rfl rfl rfl rfl
      | true => simp [Lifecycle, hl] at hc
  | @trackClosed c byGc hl ho =>
      have hc := hlife c
      cases byGc with
      | false => exact h.setCall rfl rfl rfl rfl hl ⟨by simp, by simp, by simp, by simp⟩
      | true => simp [Lifecycle, hl] at hc
  | cleanup hl | deallocate hl =>
      exact h.setCall rfl rfl rfl rfl hl ⟨by simp, by simp, by simp, by simp⟩
  | count hl => exact h.setCall rfl rfl rfl rfl hl ⟨by simp, by simp, by simp, by simp⟩
  | @gcTake c rest hg ho hc =>
      have hrest := not_attempted_of_gc hg (by simp)
      refine h.start hrest rfl rfl ?_ ?_ (by simp)
      · simp [State.listed, State.hand, hg, ho]
      · simp [State.listed, ho]
  | gcTimeout hg hb | gcStop hg hb =>
      exact h.rest (not_attempted_of_gc hg (by simp)) (not_attempted_of_gc rfl (by simp))
        rfl rfl rfl
  | @tryLock c entry hg ho =>
      have horph : (s.calls c).life = .orphaned := h.attempt _ _ _ hg
      exact h.attempt_step hg rfl rfl rfl (fun _ _ => rfl) horph (by simp [horph])
  | @tryFail c entry hg ho =>
      have horph : (s.calls c).life = .orphaned := h.attempt _ _ _ hg
      exact h.attempt_step hg rfl rfl rfl (fun _ _ => rfl) ⟨by simp, fun _ => horph⟩
        (by simp [horph])
  | testDone hg hterm =>
      exact h.attempt_step hg rfl rfl rfl (fun d hd => by simp [hd])
        (.inl ⟨.load, by simp⟩) (fun _ _ => rfl)
  | @testPending c entry hg hterm =>
      have horph : (s.calls c).life = .orphaned := h.attempt _ _ _ hg
      exact h.attempt_step hg rfl rfl rfl (fun _ _ => rfl) ⟨by simp, fun _ => horph⟩
        (by simp [horph])
  | disposed hg hl =>
      exact h.attempt_step hg rfl rfl rfl (fun _ _ => rfl) ⟨fun _ => ⟨rfl, hl⟩, by simp⟩
        (by simp [hl])
  | @release c entry locked disposed hg =>
      cases entry with
      | none => exact h.released_fresh hg
      | some i => exact h.released_entry hg
  | @scan i c hg hb =>
      have hmem : c ∈ s.listed :=
        List.mem_append_right _ (List.mem_of_getElem? hb)
      refine h.start (not_attempted_of_gc hg (by simp)) rfl rfl ?_ hmem ?_
      · simp [State.listed, State.hand, hg]
      · rintro j ⟨⟩
        exact hb
  | scanEnd hg hb =>
      exact h.rest (not_attempted_of_gc hg (by simp)) (not_attempted_of_gc rfl (by simp))
        rfl rfl rfl
  | check hg hn =>
      refine h.rest (not_attempted_of_gc hg (by simp)) (not_attempted_of_gc rfl ?_) rfl rfl rfl
      rcases hn with rfl | rfl <;> simp
  | _ => exact h.keep rfl rfl rfl fun _ => .refl _

end Keep

end Libraft.Pool
