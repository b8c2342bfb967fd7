import Libraft.Queue.Transitions
import Libraft.Foundation.Fifo

/-!
# The blocking queue is a bounded FIFO

Every step of the queue and its threads is a step of the abstract bounded
queue: the statements behind the waiting loop enqueue or dequeue one value,
and every other step leaves the ring alone. The bounds of the loop test are
carried to these statements by the mutex.
-/

namespace Libraft.Queue.ArrayBlockingQueue

open Libraft.Foundation

variable {T ι : Type*}

/-- The value an operation added to the queue. -/
def Outcome.accepted : Outcome T → Option T
  | .putDone val => some val
  | _ => none

/-- The value an operation removed from the queue. -/
def Outcome.delivered : Outcome T → Option T
  | .takeDone val => some val
  | _ => none

/-- The `count` values stored from `tail` onwards, cyclically. -/
def Ring.contents (cap : UInt32) (r : Ring T) : List T :=
  window r.array cap.toNat r.tail.toNat r.count.toNat

/-- The abstract queue which a state implements. -/
def State.fifo (cap : UInt32) (s : State T ι) : Fifo T where
  accepted := s.log.filterMap Outcome.accepted
  delivered := s.log.filterMap Outcome.delivered
  contents := s.ring.contents cap

/-- The indices of a circular buffer with `count` values from `tail` on. -/
structure Ring.Valid (cap : UInt32) (r : Ring T) : Prop where
  head_lt : r.head < cap
  tail_lt : r.tail < cap
  count_le : r.count ≤ cap
  head_eq : r.head.toNat = (r.tail.toNat + r.count.toNat) % cap.toNat

section Ring
variable {cap : UInt32}

theorem inc_toNat {i : UInt32} (h : i < cap) :
    (inc cap i).toNat = (i.toNat + 1) % cap.toNat := by
  have hi : i.toNat < cap.toNat := UInt32.lt_iff_toNat_lt.mp h
  have hc : cap.toNat < 2 ^ 32 := cap.toNat_lt
  have hsub : (cap - 1).toNat = cap.toNat - 1 := by
    apply UInt32.toNat_sub_of_le
    apply UInt32.le_iff_toNat_le.mpr
    simp only [UInt32.toNat_one]
    omega
  unfold inc
  split
  · rename_i he
    have hlast : i.toNat + 1 = cap.toNat := by rw [he, hsub]; omega
    simp [hlast]
  · rename_i hne
    have hlt : i.toNat + 1 < cap.toNat := by
      by_contra hge
      apply hne
      apply UInt32.toNat_inj.mp
      rw [hsub]
      omega
    rw [Nat.mod_eq_of_lt hlt, UInt32.toNat_add, UInt32.toNat_one]
    exact Nat.mod_eq_of_lt (by omega)

theorem inc_lt {i : UInt32} (h : i < cap) : inc cap i < cap := by
  apply UInt32.lt_iff_toNat_lt.mpr
  rw [inc_toNat h]
  exact Nat.mod_lt _ (Nat.zero_lt_of_lt (UInt32.lt_iff_toNat_lt.mp h))

theorem count_lt_of_not_full {r : Ring T} (h : r.Valid cap) {val : T}
    (hb : (Op.put val).blocks cap r = false) : r.count.toNat < cap.toNat := by
  have hle : r.count.toNat ≤ cap.toNat := UInt32.le_iff_toNat_le.mp h.count_le
  have hne : r.count.toNat ≠ cap.toNat := by
    intro he
    simp [Op.blocks, UInt32.toNat_inj.mp he] at hb
  omega

theorem count_pos_of_not_empty {r : Ring T}
    (hb : (Op.take : Op T).blocks cap r = false) : 0 < r.count.toNat := by
  apply Nat.pos_of_ne_zero
  intro he
  have h0 : r.count = 0 := UInt32.toNat_inj.mp he
  simp [Op.blocks, h0] at hb

theorem toNat_count_put {r : Ring T} (h : r.count.toNat < cap.toNat) (val : T) :
    (r.put cap val).count.toNat = r.count.toNat + 1 := by
  have hc : cap.toNat < 2 ^ 32 := cap.toNat_lt
  simp only [Ring.put, UInt32.toNat_add, UInt32.toNat_one]
  exact Nat.mod_eq_of_lt (by omega)

theorem toNat_count_take {r : Ring T} (h : 0 < r.count.toNat) :
    (r.take cap).2.count.toNat = r.count.toNat - 1 := by
  apply UInt32.toNat_sub_of_le
  apply UInt32.le_iff_toNat_le.mpr
  simp only [UInt32.toNat_one]
  omega

theorem valid_put {r : Ring T} (h : r.Valid cap) (hlt : r.count.toNat < cap.toNat)
    (val : T) : (r.put cap val).Valid cap where
  head_lt := inc_lt h.head_lt
  tail_lt := h.tail_lt
  count_le := by
    apply UInt32.le_iff_toNat_le.mpr
    rw [toNat_count_put hlt]
    omega
  head_eq := by
    rw [toNat_count_put hlt]
    change (inc cap r.head).toNat = (r.tail.toNat + (r.count.toNat + 1)) % cap.toNat
    rw [inc_toNat h.head_lt, h.head_eq, Nat.mod_add_mod, Nat.add_assoc]

theorem valid_take {r : Ring T} (h : r.Valid cap) (hpos : 0 < r.count.toNat) :
    (r.take cap).2.Valid cap where
  head_lt := h.head_lt
  tail_lt := inc_lt h.tail_lt
  count_le := by
    have hle : r.count.toNat ≤ cap.toNat := UInt32.le_iff_toNat_le.mp h.count_le
    apply UInt32.le_iff_toNat_le.mpr
    rw [toNat_count_take hpos]
    omega
  head_eq := by
    rw [toNat_count_take hpos]
    change r.head.toNat = ((inc cap r.tail).toNat + (r.count.toNat - 1)) % cap.toNat
    rw [inc_toNat h.tail_lt, h.head_eq, Nat.mod_add_mod]
    congr 1
    omega

/-- Storing behind the last value appends it. -/
theorem contents_put {r : Ring T} (h : r.Valid cap) (hlt : r.count.toNat < cap.toNat)
    (val : T) : (r.put cap val).contents cap = r.contents cap ++ [val] := by
  rw [Ring.contents, toNat_count_put hlt]
  change window (Function.update r.array r.head.toNat val) cap.toNat r.tail.toNat
    (r.count.toNat + 1) = _
  rw [h.head_eq]
  exact window_push r.array hlt val

/-- The value read is the first one and the rest stays. -/
theorem contents_take {r : Ring T} (h : r.Valid cap) (hpos : 0 < r.count.toNat) :
    r.contents cap = (r.take cap).1 :: (r.take cap).2.contents cap := by
  obtain ⟨n, hn⟩ : ∃ n, r.count.toNat = n + 1 := ⟨r.count.toNat - 1, by omega⟩
  have ht : r.tail.toNat < cap.toNat := UInt32.lt_iff_toNat_lt.mp h.tail_lt
  rw [Ring.contents, Ring.contents, toNat_count_take hpos, hn]
  change _ = r.array r.tail.toNat :: window r.array cap.toNat (inc cap r.tail).toNat n
  rw [inc_toNat h.tail_lt]
  exact window_pop r.array ht n

end Ring

section Simulation
variable [DecidableEq ι] {cap : UInt32} {s s' : State T ι} {a : Act T ι}

theorem fifo_finish (t : ι) (out : Outcome T) :
    (s.finish t out).fifo cap =
      ⟨(s.fifo cap).accepted ++ out.accepted.toList,
        (s.fifo cap).delivered ++ out.delivered.toList, (s.fifo cap).contents⟩ := by
  cases out <;> simp [State.fifo, List.filterMap_append, Outcome.accepted, Outcome.delivered]

/-- An exception adds nothing to the history. -/
@[simp] theorem fifo_finish_thrown (t : ι) (op : Op T) :
    (s.finish t op.thrown).fifo cap = s.fifo cap := by
  rw [fifo_finish]
  cases op <;> simp [Op.thrown, Outcome.accepted, Outcome.delivered]

/-- The ring is valid, and a thread behind the waiting loop still finds the
queue as it was when the loop was left. -/
structure Guarded (cap : UInt32) (s : State T ι) : Prop where
  valid : s.ring.Valid cap
  body : ∀ t op, s.pc t = .body op → op.blocks cap s.ring = false

omit [DecidableEq ι] in
theorem guarded_initial (hcap : 1 ≤ cap) (cells : ℕ → T) :
    Guarded cap (initial cells : State T ι) where
  valid := by
    have hpos : 0 < cap := by
      apply UInt32.lt_iff_toNat_lt.mpr
      exact UInt32.le_iff_toNat_le.mp hcap
    exact ⟨hpos, hpos, UInt32.zero_le, by simp [initial]⟩
  body := by
    intro t op h
    cases h

/-- A step which leaves the ring alone and moves nobody behind the loop. -/
theorem Guarded.keep (hg : Guarded cap s) {s' : State T ι} {t : ι} {p : Pc T}
    (hr : s'.ring = s.ring) (hpc : s'.pc = Function.update s.pc t p)
    (hp : ∀ op, p = .body op → op.blocks cap s.ring = false) : Guarded cap s' where
  valid := hr ▸ hg.valid
  body := by
    intro u op hu
    rw [hpc] at hu
    rw [hr]
    by_cases hut : u = t
    · subst u
      exact hp op (by simpa using hu)
    · exact hg.body u op (by simpa [hut] using hu)

/-- Behind the loop only the holder of the mutex is left, so the ring may change. -/
theorem Guarded.commit (hs : Sound s) {s' : State T ι} {t : ι} {out : Outcome T}
    (ht : (s.pc t).holds = true) (hv : s'.ring.Valid cap)
    (hpc : s'.pc = Function.update s.pc t (.done out)) : Guarded cap s' where
  valid := hv
  body := by
    intro u op hu
    rw [hpc] at hu
    by_cases hut : u = t
    · subst u
      simp at hu
    · rw [Function.update_of_ne hut] at hu
      exact absurd (hs.holder.unique (by simp [hu, Pc.holds]) ht) hut

theorem Guarded.trans (hg : Guarded cap s) (hs : Sound s) (h : Trans cap s a s') :
    Guarded cap s' := by
  cases h with
  | call h | callClose h | leave h => exact hg.keep rfl rfl (by simp)
  | checkClosed h hc | checkOpen h hc | recheckClosed h hc | recheckOpen h hc =>
      exact hg.keep rfl rfl (by simp)
  | lock h hm | closeLock h hm => exact hg.keep rfl rfl (by simp)
  | @block t w op h hb => cases op <;> exact hg.keep rfl rfl (by simp)
  | pass h hb =>
      refine hg.keep rfl rfl ?_
      rintro _ ⟨⟩
      exact hb
  | @wakeUp t w op h hm hn => cases op <;> exact hg.keep rfl rfl (by simp)
  | put h hn =>
      have hlt := count_lt_of_not_full hg.valid (hg.body _ _ h)
      exact .commit hs (by simp [h, Pc.holds]) (valid_put hg.valid hlt _) rfl
  | take h hn =>
      have hpos := count_pos_of_not_empty (hg.body _ _ h)
      exact .commit hs (by simp [h, Pc.holds]) (valid_take hg.valid hpos) rfl
  | closeStore h | closeNotifyFull h | closeNotifyEmpty h | closeUnlock h =>
      exact hg.keep rfl rfl (by simp)
  | spuriousFull h | spuriousEmpty h => exact ⟨hg.valid, hg.body⟩

/-- Every step of the queue is a step of the bounded FIFO it implements. -/
theorem Guarded.simulates (hg : Guarded cap s) (h : Trans cap s a s') :
    (s.fifo cap).Step cap.toNat (s'.fifo cap) := by
  cases h with
  | call h | callClose h | leave h => exact .stay
  | checkClosed h hc | recheckClosed h hc =>
      rw [fifo_finish_thrown]
      exact .stay
  | checkOpen h hc | recheckOpen h hc => exact .stay
  | lock h hm | closeLock h hm => exact .stay
  | @block t w op h hb => cases op <;> exact .stay
  | pass h hb => exact .stay
  | @wakeUp t w op h hm hn => cases op <;> exact .stay
  | @put t w val c h hn =>
      have hlt := count_lt_of_not_full hg.valid (hg.body _ _ h)
      have hstep : (s.fifo cap).Step cap.toNat _ :=
        .enqueue val (by simpa [State.fifo, Ring.contents] using hlt)
      rw [fifo_finish]
      simpa [State.fifo, Outcome.accepted, Outcome.delivered, contents_put hg.valid hlt]
        using hstep
  | @take t w c h hn =>
      have hpos := count_pos_of_not_empty (hg.body _ _ h)
      have hstep : (s.fifo cap).Step cap.toNat _ :=
        .dequeue _ _ (contents_take hg.valid hpos)
      rw [fifo_finish]
      simpa [State.fifo, Outcome.accepted, Outcome.delivered] using hstep
  | closeStore h | closeNotifyFull h | closeNotifyEmpty h => exact .stay
  | closeUnlock h =>
      have hstay : (s.fifo cap).Step cap.toNat (s.fifo cap) := .stay
      rw [fifo_finish]
      simpa [State.fifo, Outcome.accepted, Outcome.delivered] using hstay
  | spuriousFull h | spuriousEmpty h => exact .stay

/-- The facts about one state which carry all results on the contents. -/
theorem guarded_of_reachable (hcap : 1 ≤ cap) {cells : ℕ → T}
    (h : (system cap cells).Reachable s) : Guarded cap s ∧ (s.fifo cap).Lawful cap.toNat := by
  apply Scheduled.Reach.invariant h ⟨guarded_initial hcap cells, Fifo.lawful_empty _⟩
  intro u a v hu hi hstep _
  have ht : Trans cap u a v := trans_of_step hstep
  exact ⟨hi.1.trans (sound_of_reachable hu) ht, hi.2.step (hi.1.simulates ht)⟩

/-- The ring changes only in the step in which a `put` or a `take` returns normally. -/
theorem ring_changes_only_on_return (h : Trans cap s a s') (hne : s'.ring ≠ s.ring) :
    ∃ t w out, a = .step t w ∧ s'.pc t = .done out ∧
      (out.accepted.isSome ∨ out.delivered.isSome) := by
  cases h with
  | @put t w val c h hn => exact ⟨t, w, .putDone val, rfl, by simp, .inl rfl⟩
  | @take t w c h hn =>
      exact ⟨t, w, .takeDone (s.ring.take cap).1, rfl, by simp, .inr rfl⟩
  | @block t w op h hb => cases op <;> exact absurd rfl hne
  | @wakeUp t w op h hm hn => cases op <;> exact absurd rfl hne
  | _ => exact absurd rfl hne

/-- In every reachable state of the queue and its threads the indices describe
a window of `count` cells ending at `head`; the values returned so far followed
by that window are the values accepted so far; and an operation which throws
has changed nothing, since the ring changes only when one returns normally. -/
theorem array_blocking_queue_bounded_fifo (hcap : 1 ≤ cap) (cells : ℕ → T)
    (h : (system cap cells).Reachable s) :
    s.ring.head < cap ∧ s.ring.tail < cap ∧ s.ring.count ≤ cap ∧
    s.ring.head.toNat = (s.ring.tail.toNat + s.ring.count.toNat) % cap.toNat ∧
    s.log.filterMap Outcome.delivered ++ s.ring.contents cap =
      s.log.filterMap Outcome.accepted ∧
    ∀ a s', step cap s a = some s' → s'.ring ≠ s.ring →
      ∃ t w out, a = .step t w ∧ s'.pc t = .done out ∧
        (out.accepted.isSome ∨ out.delivered.isSome) := by
  obtain ⟨hg, hl⟩ := guarded_of_reachable hcap h
  refine ⟨hg.valid.head_lt, hg.valid.tail_lt, hg.valid.count_le, hg.valid.head_eq,
    hl.conserved, ?_⟩
  intro a s' hstep hne
  exact ring_changes_only_on_return (trans_of_step hstep) hne

end Simulation

/-- Thread `t` runs a `put` to its end and nobody has to wait. -/
def putRun (t : ℕ) (val : ℕ) : List (Act ℕ ℕ) :=
  [.call t (.put val), .step t none, .step t none, .step t none, .step t none, .leave t]

/-- Thread `t` runs a `take` to its end and nobody has to wait. -/
def takeRun (t : ℕ) : List (Act ℕ ℕ) :=
  [.call t .take, .step t none, .step t none, .step t none, .step t none, .leave t]

/-- A queue of two cells after its head has wrapped around. -/
theorem array_blocking_queue_bounded_fifo_wrapped :
    ∃ s : State ℕ ℕ, (system 2 fun _ => 0).Reachable s ∧ s.ring.contents 2 = [8, 9] ∧
      s.log.filterMap Outcome.delivered ++ s.ring.contents 2 =
        s.log.filterMap Outcome.accepted := by
  obtain ⟨s, hs, hp⟩ := Scheduled.exists_reachable_of_run (system 2 fun _ => 0)
    (putRun 0 7 ++ putRun 1 8 ++ takeRun 2 ++ putRun 0 9)
    (fun s => s.ring.contents 2 = [8, 9]) (by decide)
  have hfifo := array_blocking_queue_bounded_fifo (by decide) _ hs
  exact ⟨s, hs, hp, hfifo.2.2.2.2.1⟩

end Libraft.Queue.ArrayBlockingQueue
