import Libraft.Queue.ArrayBlockingQueue

/-!
# What one step of the blocking queue can do

`Trans` lists the transitions of the queue with the position each of them
starts from. Every invariant below is proved by cases on it, and never by
unfolding the step function again.
-/

namespace Libraft.Queue.ArrayBlockingQueue

open Libraft.Foundation

variable {T ι : Type*} [DecidableEq ι]

/-- The transitions of the queue, one constructor for each branch of the source. -/
inductive Trans (cap : UInt32) (s : State T ι) : Act T ι → State T ι → Prop
  | call {t op} (h : s.pc t = .idle) : Trans cap s (.call t op) (s.goto t (.check op))
  | callClose {t} (h : s.pc t = .idle) : Trans cap s (.callClose t) (s.goto t .closeLock)
  | checkClosed {t w op} (h : s.pc t = .check op) (hc : s.closed = true) :
      Trans cap s (.step t w) (s.finish t op.thrown)
  | checkOpen {t w op} (h : s.pc t = .check op) (hc : s.closed = false) :
      Trans cap s (.step t w) (s.goto t (.lock op))
  | lock {t w op} (h : s.pc t = .lock op) (hm : s.mutex = none) :
      Trans cap s (.step t w) ({ s with mutex := some t }.goto t (.loop op))
  | block {t w op} (h : s.pc t = .loop op) (hb : op.blocks cap s.ring = true) :
      Trans cap s (.step t w)
        (({ s with mutex := none }.setCond ((s.cond op).wait t) op).goto t (.wait op))
  | pass {t w op} (h : s.pc t = .loop op) (hb : op.blocks cap s.ring = false) :
      Trans cap s (.step t w) (s.goto t (.body op))
  | wakeUp {t w op} (h : s.pc t = .wait op) (hm : s.mutex = none)
      (hn : t ∈ (s.cond op).notified) :
      Trans cap s (.step t w)
        (({ s with mutex := some t }.setCond ((s.cond op).resume t) op).goto t (.recheck op))
  | recheckClosed {t w op} (h : s.pc t = .recheck op) (hc : s.closed = true) :
      Trans cap s (.step t w) ({ s with mutex := none }.finish t op.thrown)
  | recheckOpen {t w op} (h : s.pc t = .recheck op) (hc : s.closed = false) :
      Trans cap s (.step t w) (s.goto t (.loop op))
  | put {t w val c} (h : s.pc t = .body (.put val)) (hn : s.notEmpty.notifyOne w = some c) :
      Trans cap s (.step t w)
        ({ s with ring := s.ring.put cap val, notEmpty := c, mutex := none }.finish t
          (.putDone val))
  | take {t w c} (h : s.pc t = .body .take) (hn : s.notFull.notifyOne w = some c) :
      Trans cap s (.step t w)
        ({ s with ring := (s.ring.take cap).2, notFull := c, mutex := none }.finish t
          (.takeDone (s.ring.take cap).1))
  | closeLock {t w} (h : s.pc t = .closeLock) (hm : s.mutex = none) :
      Trans cap s (.step t w) ({ s with mutex := some t }.goto t .closeStore)
  | closeStore {t w} (h : s.pc t = .closeStore) :
      Trans cap s (.step t w) ({ s with closed := true }.goto t .closeNotifyFull)
  | closeNotifyFull {t w} (h : s.pc t = .closeNotifyFull) :
      Trans cap s (.step t w) ({ s with notFull := s.notFull.notifyAll }.goto t .closeNotifyEmpty)
  | closeNotifyEmpty {t w} (h : s.pc t = .closeNotifyEmpty) :
      Trans cap s (.step t w) ({ s with notEmpty := s.notEmpty.notifyAll }.goto t .closeUnlock)
  | closeUnlock {t w} (h : s.pc t = .closeUnlock) :
      Trans cap s (.step t w) ({ s with mutex := none }.finish t .closeDone)
  | spuriousFull {t} (h : t ∈ s.notFull.waiting) :
      Trans cap s (.spurious t) { s with notFull := s.notFull.wake t }
  | spuriousEmpty {t} (h : t ∈ s.notEmpty.waiting) :
      Trans cap s (.spurious t) { s with notEmpty := s.notEmpty.wake t }
  | leave {t out} (h : s.pc t = .done out) : Trans cap s (.leave t) (s.goto t .idle)

theorem trans_of_next {cap : UInt32} {s s' : State T ι} {t : ι} {w : Option ι}
    (h : next cap s t w = some s') : Trans cap s (.step t w) s' := by
  unfold next at h
  split at h
  case h_1 | h_2 => cases h
  case h_3 op hpc =>
      split at h <;> rename_i hc <;> cases h
      · exact .checkClosed hpc hc
      · exact .checkOpen hpc (Bool.eq_false_iff.mpr hc)
  case h_4 op hpc =>
      split at h <;> rename_i hm <;> cases h
      exact .lock hpc (Option.isNone_iff_eq_none.mp hm)
  case h_5 op hpc =>
      split at h <;> rename_i hb <;> cases h
      · exact .block hpc hb
      · exact .pass hpc (Bool.eq_false_iff.mpr hb)
  case h_6 op hpc =>
      split at h <;> rename_i hm <;> cases h
      exact .wakeUp hpc (Option.isNone_iff_eq_none.mp hm.1) hm.2
  case h_7 op hpc =>
      split at h <;> rename_i hc <;> cases h
      · exact .recheckClosed hpc hc
      · exact .recheckOpen hpc (Bool.eq_false_iff.mpr hc)
  case h_8 val hpc =>
      obtain ⟨c, hn, rfl⟩ := Option.map_eq_some_iff.mp h
      exact .put hpc hn
  case h_9 hpc =>
      obtain ⟨c, hn, rfl⟩ := Option.map_eq_some_iff.mp h
      exact .take hpc hn
  case h_10 hpc =>
      split at h <;> rename_i hm <;> cases h
      exact .closeLock hpc (Option.isNone_iff_eq_none.mp hm)
  case h_11 hpc => cases h; exact .closeStore hpc
  case h_12 hpc => cases h; exact .closeNotifyFull hpc
  case h_13 hpc => cases h; exact .closeNotifyEmpty hpc
  case h_14 hpc => cases h; exact .closeUnlock hpc

/-- Everything one step can do. -/
theorem trans_of_step {cap : UInt32} {s s' : State T ι} {a : Act T ι}
    (h : step cap s a = some s') : Trans cap s a s' := by
  cases a with
  | step t w => exact trans_of_next h
  | call t op =>
      simp only [step] at h
      split at h <;> rename_i hpc <;> cases h
      exact .call hpc
  | callClose t =>
      simp only [step] at h
      split at h <;> rename_i hpc <;> cases h
      exact .callClose hpc
  | spurious t =>
      simp only [step] at h
      split at h
      · rename_i ht
        cases h
        exact .spuriousFull ht
      · split at h <;> rename_i ht <;> cases h
        exact .spuriousEmpty ht
  | leave t =>
      simp only [step] at h
      split at h <;> rename_i hpc <;> cases h
      exact .leave hpc

/-- The positions of a thread blocked on `not_full`. -/
def Pc.waitsFull : Pc T → Prop
  | .wait (.put _) => True
  | _ => False

/-- The positions of a thread blocked on `not_empty`. -/
def Pc.waitsEmpty : Pc T → Prop
  | .wait .take => True
  | _ => False

/-- The mutex and both condition variables agree with the positions of the threads. -/
structure Sound (s : State T ι) : Prop where
  holder : HeldAt Pc.holds s.mutex s.pc
  full : BlockedAt Pc.waitsFull s.notFull s.pc
  empty : BlockedAt Pc.waitsEmpty s.notEmpty s.pc

omit [DecidableEq ι] in
theorem sound_initial (cells : ℕ → T) : Sound (initial cells : State T ι) where
  holder := by intro t; simp [initial, Pc.holds]
  full := BlockedAt.empty fun _ => id
  empty := BlockedAt.empty fun _ => id

variable {cap : UInt32} {s s' : State T ι} {a : Act T ι}

/-- Every branch moves one thread and updates the mutex and the condition
variable which it names, so one rule applies to each component. -/
theorem Sound.trans (hs : Sound s) (h : Trans cap s a s') : Sound s' := by
  obtain ⟨hh, hf, he⟩ := hs
  cases h with
  | call h =>
      exact ⟨hh.keep (by simp [h, Pc.holds]), hf.keep (by simp [h, Pc.waitsFull]),
        he.keep (by simp [h, Pc.waitsEmpty])⟩
  | callClose h =>
      exact ⟨hh.keep (by simp [h, Pc.holds]), hf.keep (by simp [h, Pc.waitsFull]),
        he.keep (by simp [h, Pc.waitsEmpty])⟩
  | checkClosed h _ =>
      exact ⟨hh.keep (by simp [h, Pc.holds]), hf.keep (by simp [h, Pc.waitsFull]),
        he.keep (by simp [h, Pc.waitsEmpty])⟩
  | checkOpen h _ =>
      exact ⟨hh.keep (by simp [h, Pc.holds]), hf.keep (by simp [h, Pc.waitsFull]),
        he.keep (by simp [h, Pc.waitsEmpty])⟩
  | lock h hm =>
      exact ⟨(hm ▸ hh).acquire rfl, hf.keep (by simp [h, Pc.waitsFull]),
        he.keep (by simp [h, Pc.waitsEmpty])⟩
  | @block t w op h hb =>
      have hr := hh.release (t := t) (p := .wait op) (by simp [h, Pc.holds]) rfl
      cases op with
      | put val => exact ⟨hr, hf.wait trivial, he.keep (by simp [h, Pc.waitsEmpty])⟩
      | take => exact ⟨hr, hf.keep (by simp [h, Pc.waitsFull]), he.wait trivial⟩
  | pass h _ =>
      exact ⟨hh.keep (by simp [h, Pc.holds]), hf.keep (by simp [h, Pc.waitsFull]),
        he.keep (by simp [h, Pc.waitsEmpty])⟩
  | @wakeUp t w op h hm hn =>
      have ha := (hm ▸ hh : HeldAt Pc.holds none s.pc).acquire (t := t) (p := .recheck op) rfl
      cases op with
      | put val => exact ⟨ha, hf.resume hn id, he.keep (by simp [h, Pc.waitsEmpty])⟩
      | take => exact ⟨ha, hf.keep (by simp [h, Pc.waitsFull]), he.resume hn id⟩
  | recheckClosed h _ =>
      exact ⟨hh.release (by simp [h, Pc.holds]) rfl, hf.keep (by simp [h, Pc.waitsFull]),
        he.keep (by simp [h, Pc.waitsEmpty])⟩
  | recheckOpen h _ =>
      exact ⟨hh.keep (by simp [h, Pc.holds]), hf.keep (by simp [h, Pc.waitsFull]),
        he.keep (by simp [h, Pc.waitsEmpty])⟩
  | put h hn =>
      exact ⟨hh.release (by simp [h, Pc.holds]) rfl, hf.keep (by simp [h, Pc.waitsFull]),
        (he.notifyOne hn).keep (by simp [h, Pc.waitsEmpty])⟩
  | take h hn =>
      exact ⟨hh.release (by simp [h, Pc.holds]) rfl,
        (hf.notifyOne hn).keep (by simp [h, Pc.waitsFull]),
        he.keep (by simp [h, Pc.waitsEmpty])⟩
  | closeLock h hm =>
      exact ⟨(hm ▸ hh).acquire rfl, hf.keep (by simp [h, Pc.waitsFull]),
        he.keep (by simp [h, Pc.waitsEmpty])⟩
  | closeStore h =>
      exact ⟨hh.keep (by simp [h, Pc.holds]), hf.keep (by simp [h, Pc.waitsFull]),
        he.keep (by simp [h, Pc.waitsEmpty])⟩
  | closeNotifyFull h =>
      exact ⟨hh.keep (by simp [h, Pc.holds]), hf.notifyAll.keep (by simp [h, Pc.waitsFull]),
        he.keep (by simp [h, Pc.waitsEmpty])⟩
  | closeNotifyEmpty h =>
      exact ⟨hh.keep (by simp [h, Pc.holds]), hf.keep (by simp [h, Pc.waitsFull]),
        he.notifyAll.keep (by simp [h, Pc.waitsEmpty])⟩
  | closeUnlock h =>
      exact ⟨hh.release (by simp [h, Pc.holds]) rfl, hf.keep (by simp [h, Pc.waitsFull]),
        he.keep (by simp [h, Pc.waitsEmpty])⟩
  | spuriousFull h => exact ⟨hh, hf.wake h, he⟩
  | spuriousEmpty h => exact ⟨hh, hf, he.wake h⟩
  | leave h =>
      exact ⟨hh.keep (by simp [h, Pc.holds]), hf.keep (by simp [h, Pc.waitsFull]),
        he.keep (by simp [h, Pc.waitsEmpty])⟩

theorem sound_of_reachable {cells : ℕ → T}
    (h : (system cap cells).Reachable s) : Sound s :=
  Scheduled.Reach.invariant h (sound_initial cells)
    fun _ _ _ _ hs ht _ => hs.trans (trans_of_step ht)

end Libraft.Queue.ArrayBlockingQueue
