import Mathlib.Data.List.Basic

/-!
# Loops which scan an input

A scanning loop looks at one element of its input after the other. A step may
also consume elements behind the one it was called at, which the loop then
passes over. `Remains` says what is left of the input at a position. A search
from above finds the last index with a property, which is the top of the stack
of all of them.

## Implementation notes

The loop is a recursion on what is left of the input, with the number of
elements a step has consumed ahead as a counter, so that it needs no measure
and can be evaluated.
-/

namespace Libraft.Foundation

section Scan

variable {α σ ε : Type*}

/-- A step is given its position, the element there and those behind it, and says how many of
these it has consumed. -/
abbrev ScanStep (α σ ε : Type*) := ℕ → α → List α → σ → Except ε (ℕ × σ)

/-- The loop from a position on, with `skip` elements already consumed. -/
def scan (step : ScanStep α σ ε) : ℕ → ℕ → List α → σ → Except ε σ
  | _, _, [], s => .ok s
  | pos, skip + 1, _ :: rest, s => scan step (pos + 1) skip rest s
  | pos, 0, c :: rest, s =>
    match step pos c rest s with
    | .error e => .error e
    | .ok (skip, s') => scan step (pos + 1) skip rest s'

theorem map_eq_ok {β : Type*} {x : Except ε α} {f : α → β} {b : β} (h : x.map f = .ok b) :
    ∃ a, x = .ok a ∧ f a = b := by
  cases x with
  | error e => cases h
  | ok a => exact ⟨a, rfl, Except.ok.inj h⟩

theorem map_mk_eq_ok {β : Type*} {x : Except ε β} {a : α} {r : α × β}
    (h : x.map (a, ·) = .ok r) : x = .ok r.2 := by
  obtain ⟨b, hb, rfl⟩ := map_eq_ok h
  exact hb

variable {step : ScanStep α σ ε} {pos : ℕ} {s s' : σ}

@[simp] theorem scan_nil (skip : ℕ) : scan step pos skip [] s = .ok s := by
  cases skip <;> rfl

theorem scan_cons_ok {c : α} {rest : List α} {skip : ℕ} (h : step pos c rest s = .ok (skip, s')) :
    scan step pos 0 (c :: rest) s = scan step (pos + 1) skip rest s' := by
  simp only [scan, h]

theorem scan_cons_error {c : α} {rest : List α} {e : ε} (h : step pos c rest s = .error e) :
    scan step pos 0 (c :: rest) s = .error e := by
  simp only [scan, h]

/-- The loop passes over what a step has consumed. -/
theorem scan_skip (l rest : List α) :
    scan step pos l.length (l ++ rest) s = scan step (pos + l.length) 0 rest s := by
  induction l generalizing pos with
  | nil => rfl
  | cons c l ih =>
      calc scan step pos (l.length + 1) (c :: (l ++ rest)) s
          = scan step (pos + 1) l.length (l ++ rest) s := rfl
        _ = scan step (pos + 1 + l.length) 0 rest s := ih
        _ = scan step (pos + (l.length + 1)) 0 rest s := by rw [Nat.add_assoc, Nat.add_comm 1]

/-- Elements at which nothing happens can be passed over. -/
theorem scan_idle {l : List α} (h : ∀ c ∈ l, ∀ pos rest, step pos c rest s = .ok (0, s))
    (rest : List α) :
    scan step pos 0 (l ++ rest) s = scan step (pos + l.length) 0 rest s := by
  induction l generalizing pos with
  | nil => rfl
  | cons c l ih =>
      rw [List.cons_append, scan_cons_ok (h c List.mem_cons_self _ _),
        ih fun d hd => h d (List.mem_cons_of_mem c hd), List.length_cons, Nat.add_assoc,
        Nat.add_comm 1]

/-- What every step of a loop over an input of length `len` keeps, the loop keeps. -/
theorem scan_invariant {I : σ → Prop} {len : ℕ}
    (hstep : ∀ pos c rest s skip s', pos + rest.length + 1 = len → I s →
      step pos c rest s = .ok (skip, s') → I s')
    {skip : ℕ} {l : List α} (hlen : pos + l.length = len) (hs : I s)
    (h : scan step pos skip l s = .ok s') : I s' := by
  induction l generalizing pos skip s with
  | nil =>
      rw [scan_nil] at h
      exact Except.ok.inj h ▸ hs
  | cons c rest ih =>
      have hrest : pos + 1 + rest.length = len := by
        rw [List.length_cons] at hlen
        omega
      cases skip with
      | succ skip => exact ih hrest hs h
      | zero =>
          cases hc : step pos c rest s with
          | error e =>
              rw [scan_cons_error hc] at h
              cases h
          | ok r =>
              rw [scan_cons_ok hc] at h
              exact ih hrest (hstep pos c rest s r.1 r.2 (by omega) hs hc) h

/-- A loop whose steps another loop can follow, is followed by it to the end. -/
theorem scan_simulation {σ' ε' : Type*} {step' : ScanStep α σ' ε'} {R : σ → σ' → Prop} {len : ℕ}
    (hstep : ∀ pos c rest s u skip s', pos + rest.length + 1 = len → R s u →
      step pos c rest s = .ok (skip, s') →
      ∃ u', step' pos c rest u = .ok (skip, u') ∧ R s' u')
    {skip : ℕ} {l : List α} (hlen : pos + l.length = len) {u : σ'} (hs : R s u)
    (h : scan step pos skip l s = .ok s') :
    ∃ u', scan step' pos skip l u = .ok u' ∧ R s' u' := by
  induction l generalizing pos skip s u with
  | nil =>
      rw [scan_nil] at h
      exact ⟨u, scan_nil skip, Except.ok.inj h ▸ hs⟩
  | cons c rest ih =>
      have hrest : pos + 1 + rest.length = len := by
        rw [List.length_cons] at hlen
        omega
      cases skip with
      | succ skip => exact ih hrest hs h
      | zero =>
          cases hc : step pos c rest s with
          | error e =>
              rw [scan_cons_error hc] at h
              cases h
          | ok r =>
              rw [scan_cons_ok hc] at h
              obtain ⟨u', hu, hr⟩ := hstep pos c rest s u r.1 r.2 (by omega) hs hc
              rw [scan_cons_ok hu]
              exact ih hrest hr h

/-- What is left of an input at a position. -/
structure Remains (input : List α) (pos : ℕ) (l : List α) : Prop where
  drop : input.drop pos = l
  le : pos ≤ input.length

namespace Remains

variable {input l a : List α}

theorem length (h : Remains input pos l) : pos + l.length = input.length := by
  rw [← h.drop, List.length_drop]
  exact Nat.add_sub_cancel' h.le

theorem append (h : Remains input pos (a ++ l)) : Remains input (pos + a.length) l where
  drop := by rw [← List.drop_drop, h.drop, List.drop_left]
  le := by
    rw [← h.length, List.length_append]
    omega

theorem cons {c : α} (h : Remains input pos (c :: l)) : Remains input (pos + 1) l :=
  h.append (a := [c])

theorem head {c : α} (h : Remains input pos (c :: l)) : input[pos]? = some c := by
  rw [← Nat.add_zero pos, ← List.getElem?_drop, h.drop, List.getElem?_cons_zero]

theorem take (h : Remains input pos (a ++ l)) : (input.drop pos).take a.length = a := by
  rw [h.drop, List.take_left]

end Remains

/-- What the steps keep with the position at which the loop stands, holds at the end of the
input. -/
theorem scan_invariant_at {I : ℕ → σ → Prop} {input : List α}
    (hstep : ∀ pos c rest s skip s', Remains input pos (c :: rest) → I pos s →
      step pos c rest s = .ok (skip, s') → skip ≤ rest.length ∧ I (pos + 1 + skip) s')
    {skip : ℕ} {l : List α} (hl : Remains input pos l) (hskip : skip ≤ l.length)
    (hs : I (pos + skip) s) (h : scan step pos skip l s = .ok s') : I input.length s' := by
  induction l generalizing pos skip s with
  | nil =>
      rw [scan_nil] at h
      have hpos : pos + skip = input.length := by
        rw [← hl.length, Nat.le_zero.mp hskip, List.length_nil]
      exact hpos ▸ Except.ok.inj h ▸ hs
  | cons c rest ih =>
      cases skip with
      | succ skip =>
          refine ih hl.cons (Nat.le_of_succ_le_succ hskip) ?_ h
          rwa [Nat.add_assoc, Nat.add_comm 1]
      | zero =>
          cases hc : step pos c rest s with
          | error e =>
              rw [scan_cons_error hc] at h
              cases h
          | ok r =>
              rw [scan_cons_ok hc] at h
              obtain ⟨hle, hr⟩ := hstep pos c rest s r.1 r.2 hl hs hc
              exact ih hl.cons hle hr h

end Scan

section Search

variable {P : ℕ → Bool} {n i : ℕ}

/-- The last index below `n` with a property, found by counting down. -/
def lastBelow (P : ℕ → Bool) : ℕ → Option ℕ
  | 0 => none
  | n + 1 => if P n then some n else lastBelow P n

theorem lastBelow_eq_none (h : ∀ j < n, P j = false) : lastBelow P n = none := by
  induction n with
  | zero => rfl
  | succ n ih =>
      rw [lastBelow, h n n.lt_succ_self]
      exact ih fun j hj => h j (Nat.lt_succ_of_lt hj)

theorem lastBelow_eq_some (hi : i < n) (hP : P i = true) (h : ∀ j < n, i < j → P j = false) :
    lastBelow P n = some i := by
  induction n with
  | zero => exact absurd hi i.not_lt_zero
  | succ n ih =>
      rcases Nat.lt_succ_iff_lt_or_eq.mp hi with hlt | rfl
      · rw [lastBelow, h n n.lt_succ_self hlt]
        exact ih hlt fun j hj => h j (Nat.lt_succ_of_lt hj)
      · rw [lastBelow, hP]
        rfl

theorem false_of_lastBelow_eq_none (h : lastBelow P n = none) : ∀ j < n, P j = false := by
  induction n with
  | zero => exact fun j hj => absurd hj j.not_lt_zero
  | succ n ih =>
      rw [lastBelow] at h
      split at h
      · cases h
      · next hP =>
          intro j hj
          rcases Nat.lt_succ_iff_lt_or_eq.mp hj with hj | rfl
          · exact ih h j hj
          · simpa using hP

/-- Above the index which was found nothing has the property. -/
theorem false_of_lastBelow_lt (h : lastBelow P n = some i) : ∀ j, i < j → j < n → P j = false := by
  induction n with
  | zero => cases h
  | succ n ih =>
      rw [lastBelow] at h
      split at h
      · cases h
        omega
      · next hP =>
          intro j hij hj
          rcases Nat.lt_succ_iff_lt_or_eq.mp hj with hj | rfl
          · exact ih h j hij hj
          · simpa using hP

theorem of_lastBelow_eq_some (h : lastBelow P n = some i) : i < n ∧ P i = true := by
  induction n with
  | zero => cases h
  | succ n ih =>
      rw [lastBelow] at h
      split at h
      · next hP => exact Option.some.inj h ▸ ⟨n.lt_succ_self, hP⟩
      · exact ⟨Nat.lt_succ_of_lt (ih h).1, (ih h).2⟩

/-- All indices below `n` with a property, the last one first. -/
def allBelow (P : ℕ → Bool) : ℕ → List ℕ
  | 0 => []
  | n + 1 => if P n then n :: allBelow P n else allBelow P n

theorem lastBelow_eq_head? (P : ℕ → Bool) (n : ℕ) : lastBelow P n = (allBelow P n).head? := by
  induction n with
  | zero => rfl
  | succ n ih =>
      rw [lastBelow, allBelow]
      split
      · rfl
      · exact ih

theorem allBelow_congr {Q : ℕ → Bool} (h : ∀ j < n, P j = Q j) : allBelow P n = allBelow Q n := by
  induction n with
  | zero => rfl
  | succ n ih =>
      rw [allBelow, allBelow, h n n.lt_succ_self, ih fun j hj => h j (Nat.lt_succ_of_lt hj)]

/-- Indices without the property can be left out. -/
theorem allBelow_eq_of_false (hin : i ≤ n) (h : ∀ j, i ≤ j → j < n → P j = false) :
    allBelow P n = allBelow P i := by
  induction n with
  | zero => rw [Nat.le_zero.mp hin]
  | succ n ih =>
      rcases Nat.lt_or_eq_of_le hin with hlt | rfl
      · rw [allBelow, h n (Nat.le_of_lt_succ hlt) n.lt_succ_self]
        exact ih (Nat.le_of_lt_succ hlt) fun j hij hj => h j hij (Nat.lt_succ_of_lt hj)
      · rfl

/-- When the last index loses the property, the others are left. -/
theorem allBelow_eq_tail {Q : ℕ → Bool} {m : ℕ} (h : lastBelow P n = some i) (hQ : Q i = false)
    (heq : ∀ j, j ≠ i → Q j = P j) (him : i < m) (hmn : m ≤ n) :
    allBelow Q m = (allBelow P n).tail := by
  obtain ⟨hin, hP⟩ := of_lastBelow_eq_some h
  have hnone := false_of_lastBelow_lt h
  have hP' : allBelow P n = i :: allBelow P i := by
    rw [allBelow_eq_of_false (i := i + 1) hin fun j hij hj => hnone j hij hj, allBelow, hP]
    rfl
  have hQ' : allBelow Q m = allBelow Q i := by
    refine allBelow_eq_of_false (Nat.le_of_lt him) fun j hij hj => ?_
    rcases Nat.lt_or_eq_of_le hij with hlt | rfl
    · rw [heq j (by omega)]
      exact hnone j hlt (by omega)
    · exact hQ
  rw [hP', hQ', List.tail_cons]
  exact allBelow_congr fun j hj => heq j (Nat.ne_of_lt hj)

end Search

end Libraft.Foundation
