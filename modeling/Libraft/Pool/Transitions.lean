import Libraft.Pool.System
import Libraft.Pool.CallInvariant

/-!
# What one step of the pool and its users can do

`Trans` lists the transitions of the whole system, the steps on the slot of
one call being collected in one constructor.
-/

namespace Libraft.Pool

open Libraft.Foundation Libraft.Calls
open Libraft.Queue

section Attempted
variable {τ ρ : Type*} (s : State τ ρ) (c : ℕ) (entry : Option ℕ) (disposed : Bool)

/-- `try_dispose_orphan` returning concerns the backlog and the collector only. -/
theorem attempted_eq :
    s.attempted c entry disposed =
      { s with backlog := (s.attempted c entry disposed).backlog
               gc := (s.attempted c entry disposed).gc } := by
  cases entry <;> cases disposed <;> rfl

@[simp] theorem attempted_calls : (s.attempted c entry disposed).calls = s.calls := by
  rw [attempted_eq]

@[simp] theorem attempted_mem : (s.attempted c entry disposed).mem = s.mem := by
  rw [attempted_eq]

@[simp] theorem attempted_pool : (s.attempted c entry disposed).pool = s.pool := by
  rw [attempted_eq]

@[simp] theorem attempted_api : (s.attempted c entry disposed).api = s.api := by
  rw [attempted_eq]

@[simp] theorem attempted_next : (s.attempted c entry disposed).next = s.next := by
  rw [attempted_eq]

end Attempted

section Unlocked
variable {τ ρ : Type*} (s : State τ ρ) (c : ℕ) (locked : Bool)

/-- The slot after the end of the scope of `slot_lock`. -/
def State.unlocked : State τ ρ :=
  if locked then s.setSlot c { s.slot c with owned := none } else s

/-- The end of the scope of `slot_lock` concerns a mutex only. -/
theorem unlocked_eq : s.unlocked c locked = { s with mem := (s.unlocked c locked).mem } := by
  cases locked <;> rfl

@[simp] theorem unlocked_calls : (s.unlocked c locked).calls = s.calls := by rw [unlocked_eq]

@[simp] theorem unlocked_pool : (s.unlocked c locked).pool = s.pool := by rw [unlocked_eq]

@[simp] theorem unlocked_api : (s.unlocked c locked).api = s.api := by rw [unlocked_eq]

@[simp] theorem unlocked_next : (s.unlocked c locked).next = s.next := by rw [unlocked_eq]

@[simp] theorem unlocked_orphans : (s.unlocked c locked).orphans = s.orphans := by
  rw [unlocked_eq]

@[simp] theorem unlocked_backlog : (s.unlocked c locked).backlog = s.backlog := by
  rw [unlocked_eq]

/-- The mutex is free afterwards if the guard had it. -/
theorem unlocked_mem : (s.unlocked c locked).mem =
    Function.update s.mem (s.calls c).addr
      { s.slot c with owned := if locked then none else (s.slot c).owned } := by
  cases locked with
  | true => rfl
  | false => exact (Function.update_eq_self _ _).symm

/-- The whole end of `try_dispose_orphan`. -/
theorem released_eq (entry : Option ℕ) (disposed : Bool) :
    (s.unlocked c locked).attempted c entry disposed =
      { s with
        mem := (s.unlocked c locked).mem
        backlog := ((s.unlocked c locked).attempted c entry disposed).backlog
        gc := ((s.unlocked c locked).attempted c entry disposed).gc } := by
  cases locked <;> cases entry <;> cases disposed <;> rfl

end Unlocked

section Trans
variable {τ ρ : Type*} [DecidableEq τ] [DecidableEq ρ]

/-- The transitions of the system. -/
inductive Trans (s : State τ ρ) : Act τ ρ → State τ ρ → Prop
  | create {tag buf err} (he : err ≠ some .success) (hb : tag ≠ .apply → buf = none) :
      Trans s (.create tag buf err)
        { s.setCall s.next (.create tag buf err) with
          next := s.next + 1, callAlloc := s.callAlloc + 1 }
  | allocate {c n err} (hl : (s.calls c).life = .creating (.allocate err))
      (hp : s.pool ((s.calls c).tag, n) = none) :
      Trans s (.allocate c n)
        { s.setCall c ((s.calls c).allocated ((s.calls c).tag, n) err) with
          mem := Function.update s.mem ((s.calls c).tag, n) (.new (s.calls c).tag)
          pool := Function.update s.pool ((s.calls c).tag, n) (some c) }
  | enqueue {c q} (hl : (s.calls c).life = .creating .enqueue)
      (hq : ArrayBlockingQueue.step callQueueCapacity s.api
        (.call (.inl c) (.put ((s.slot c).tag, c))) = some q) :
      Trans s (.enqueue c) { s.setLife c (.creating .sending) with api := q }
  | api {a q} (ha : apiAllowed a = true)
      (hq : ArrayBlockingQueue.step callQueueCapacity s.api a = some q) :
      Trans s (.api a) { s with api := q }
  | sentOk {c val} (hl : (s.calls c).life = .creating .sending)
      (hp : s.api.pc (.inl c) = .done (.putDone val)) :
      Trans s (.sent c) { s.setLife c .held with api := s.api.goto (.inl c) .idle }
  | sentClosed {c val} (hl : (s.calls c).life = .creating .sending)
      (hp : s.api.pc (.inl c) = .done (.putClosed val)) :
      Trans s (.sent c)
        { s.setCall c (s.calls c).refused with api := s.api.goto (.inl c) .idle }
  | call {c a call slot} (ht : CallTrans c (s.calls c) (s.slot c) a call slot)
      (hr : a = .raftLock → c ∈ s.taken) :
      Trans s (.call c a) ((s.setSlot c slot).setCall c call)
  | track {c byGc} (hl : (s.calls c).life = .disposing byGc .track)
      (ho : s.orphansClosed = false) :
      Trans s (.dispose c)
        { s with
          calls := Function.update s.calls c { s.calls c with life := .orphaned, handed := true }
          orphans := s.orphans ++ [c] }
  | trackClosed {c byGc} (hl : (s.calls c).life = .disposing byGc .track)
      (ho : s.orphansClosed = true) :
      Trans s (.dispose c) (s.setLife c .thrown)
  | cleanup {c byGc} (hl : (s.calls c).life = .disposing byGc .cleanup) :
      Trans s (.dispose c) (s.cleanup c byGc)
  | deallocate {c byGc} (hl : (s.calls c).life = .disposing byGc .deallocate) :
      Trans s (.dispose c) (s.deallocate c byGc)
  | count {c byGc} (hl : (s.calls c).life = .disposing byGc .count) :
      Trans s (.dispose c) (s.count c)
  | gcTake {c rest} (hg : s.gc = .loop) (ho : s.orphans = c :: rest)
      (hc : s.orphansClosed = false) :
      Trans s .gcTake { s with orphans := rest, gc := .attempt c none .tryLock }
  | gcTimeout (hg : s.gc = .loop) (hb : s.backlog ≠ []) : Trans s .gcTimeout (s.setGc .check)
  | gcStop (hg : s.gc = .loop) (hc : s.orphansClosed = true) :
      Trans s .gcStop (s.setGc .stopped)
  | tryLock {c entry} (hg : s.gc = .attempt c entry .tryLock) (ho : (s.slot c).owned = none) :
      Trans s .gcStep
        ((s.setSlot c { s.slot c with owned := some .gc }).setGc (.attempt c entry .test))
  | tryFail {c entry} (hg : s.gc = .attempt c entry .tryLock) (ho : (s.slot c).owned ≠ none) :
      Trans s .gcStep (s.setGc (.attempt c entry (.release false false)))
  | testDone {c entry} (hg : s.gc = .attempt c entry .test)
      (ht : isTerminal (s.slot c).state = true) :
      Trans s .gcStep
        ((s.setLife c (.disposing true .load)).setGc (.attempt c entry .dispose))
  | testPending {c entry} (hg : s.gc = .attempt c entry .test)
      (ht : isTerminal (s.slot c).state = false) :
      Trans s .gcStep (s.setGc (.attempt c entry (.release true false)))
  | disposed {c entry} (hg : s.gc = .attempt c entry .dispose) (hl : (s.calls c).life = .gone) :
      Trans s .gcStep (s.setGc (.attempt c entry (.release true true)))
  | release {c entry locked disposed} (hg : s.gc = .attempt c entry (.release locked disposed)) :
      Trans s .gcStep ((s.unlocked c locked).attempted c entry disposed)
  | scan {i c} (hg : s.gc = .scan i) (hb : s.backlog[i]? = some c) :
      Trans s .gcStep (s.setGc (.attempt c (some i) .tryLock))
  | scanEnd {i} (hg : s.gc = .scan i) (hb : s.backlog[i]? = none) :
      Trans s .gcStep (s.setGc .loop)
  | check {scan gc} (hg : s.gc = .check) (hn : gc = .scan 0 ∨ gc = .loop) :
      Trans s (.gcCheck scan) (s.setGc gc)
  | closeOrphans : Trans s .closeOrphans { s with orphansClosed := true }
  | allocBuffer :
      Trans s .allocBuffer
        { s with buffers := s.buffers + 1, bufferAlloc := s.bufferAlloc + 1 }
  | freeBuffer {b} :
      Trans s (.freeBuffer b)
        { s with
          frees := Function.update s.frees b
            { s.frees b with byClient := (s.frees b).byClient + 1 }
          bufferFree := s.bufferFree + 1 }

variable {s s' : State τ ρ}

theorem trans_of_disposeStep {c : ℕ} (h : disposeStep s c = some s') :
    Trans s (.dispose c) s' := by
  unfold disposeStep at h
  split at h
  case h_1 hl =>
      cases h
      unfold State.track
      split <;> rename_i ho
      · exact .trackClosed hl ho
      · exact .track hl (Bool.eq_false_iff.mpr ho)
  case h_2 hl => cases h; exact .cleanup hl
  case h_3 hl => cases h; exact .deallocate hl
  case h_4 hl => cases h; exact .count hl
  case h_5 => cases h

theorem trans_of_gcStep (h : gcStep s = some s') : Trans s .gcStep s' := by
  unfold gcStep at h
  split at h
  case h_1 c entry hg =>
      split at h <;> rename_i ho <;> cases h
      · exact .tryLock hg (Option.isNone_iff_eq_none.mp ho)
      · exact .tryFail hg fun hn => ho (Option.isNone_iff_eq_none.mpr hn)
  case h_2 c entry hg =>
      split at h <;> rename_i ht <;> cases h
      · exact .testDone hg ht
      · exact .testPending hg (Bool.eq_false_iff.mpr ht)
  case h_3 c entry hg =>
      split at h <;> rename_i hl <;> cases h
      exact .disposed hg hl
  case h_4 c entry locked disposed hg => cases h; exact .release hg
  case h_5 i hg =>
      cases h
      split
      · exact .scan hg ‹_›
      · exact .scanEnd hg ‹_›
  case h_6 | h_7 | h_8 => cases h

theorem trans_of_call {c : ℕ} {a : CallAct τ}
    (h : ((s.calls c).step c (s.slot c) a).map (fun (call, slot) =>
      (s.setSlot c slot).setCall c call) = some s')
    (hr : a = .raftLock → c ∈ s.taken) : Trans s (.call c a) s' := by
  obtain ⟨⟨call, slot⟩, hs, rfl⟩ := Option.map_eq_some_iff.mp h
  exact .call (callTrans_of_step hs) hr

/-- Everything one step can do. -/
theorem trans_of_step {a : Act τ ρ} (h : step s a = some s') : Trans s a s' := by
  cases a with
  | create tag buf err =>
      simp only [step] at h
      split at h <;> rename_i hc <;> cases h
      exact .create hc.1 hc.2
  | allocate c n =>
      simp only [step] at h
      split at h <;> rename_i hl
      · split at h <;> rename_i hp <;> cases h
        exact .allocate hl hp
      · cases h
  | enqueue c =>
      simp only [step] at h
      split at h <;> rename_i hl
      · obtain ⟨q, hq, rfl⟩ := Option.map_eq_some_iff.mp h
        exact .enqueue hl hq
      · cases h
  | api a =>
      simp only [step] at h
      split at h <;> rename_i ha
      · obtain ⟨q, hq, rfl⟩ := Option.map_eq_some_iff.mp h
        exact .api ha hq
      · cases h
  | sent c =>
      simp only [step] at h
      split at h <;> rename_i hl
      · split at h <;> rename_i hp <;> cases h
        · exact .sentOk hl hp
        · exact .sentClosed hl hp
      · cases h
  | call c a =>
      cases a with
      | raftLock =>
          simp only [step] at h
          split at h <;> rename_i hc
          · exact trans_of_call h fun _ => hc
          · cases h
      | _ => exact trans_of_call h (by simp)
  | dispose c => exact trans_of_disposeStep h
  | gcTake =>
      simp only [step] at h
      split at h
      case h_1 c rest hg ho =>
          split at h <;> rename_i hc <;> cases h
          exact .gcTake hg ho (Bool.eq_false_iff.mpr hc)
      case h_2 => cases h
  | gcTimeout =>
      simp only [step] at h
      split at h <;> rename_i hc <;> cases h
      exact .gcTimeout hc.1 hc.2
  | gcStop =>
      simp only [step] at h
      split at h <;> rename_i hc <;> cases h
      exact .gcStop hc.1 hc.2
  | gcStep => exact trans_of_gcStep h
  | gcCheck scan =>
      simp only [step] at h
      split at h <;> rename_i hg <;> cases h
      refine .check hg ?_
      split
      · exact .inl rfl
      · exact .inr rfl
  | closeOrphans => cases h; exact .closeOrphans
  | allocBuffer => cases h; exact .allocBuffer
  | freeBuffer b => cases h; exact .freeBuffer

end Trans

end Libraft.Pool
