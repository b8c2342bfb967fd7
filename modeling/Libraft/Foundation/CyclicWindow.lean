import Mathlib.Data.List.Basic
import Mathlib.Logic.Function.Basic
import Mathlib.Data.Nat.ModEq

/-!
# Windows of a cyclic array

A window of `len` cells starts at `start` and continues cyclically through an
array of `cap` cells. Writing behind the last cell and moving the start past
the first one are the two operations of a circular buffer.
-/

namespace Libraft.Foundation

variable {T : Type*}

/-- The cells `start`, `start + 1`, ... of a cyclic array of `cap` cells. -/
def window (cells : ℕ → T) (cap start len : ℕ) : List T :=
  (List.range len).map fun i => cells ((start + i) % cap)

@[simp] theorem window_zero (cells : ℕ → T) (cap start : ℕ) :
    window cells cap start 0 = [] := rfl

@[simp] theorem length_window (cells : ℕ → T) (cap start len : ℕ) :
    (window cells cap start len).length = len := by
  simp [window]

/-- Two positions of a window of at most `cap` cells never share a cell. -/
theorem cyclic_ne {cap start i len : ℕ} (hi : i < len) (hlen : len < cap) :
    (start + i) % cap ≠ (start + len) % cap := by
  intro he
  have hm : i ≡ len [MOD cap] := Nat.ModEq.add_left_cancel' start he
  have heq : i = len := Nat.ModEq.eq_of_lt_of_lt hm (hi.trans hlen) hlen
  omega

/-- Writing the cell behind the window appends the value. -/
theorem window_push (cells : ℕ → T) {cap start len : ℕ} (hlen : len < cap) (v : T) :
    window (Function.update cells ((start + len) % cap) v) cap start (len + 1) =
      window cells cap start len ++ [v] := by
  simp only [window, List.range_succ, List.map_append, List.map_cons, List.map_nil,
    Function.update_self]
  congr 1
  apply List.map_congr_left
  intro i hi
  exact Function.update_of_ne (cyclic_ne (List.mem_range.mp hi) hlen) v cells

/-- Moving the start past the first cell drops the first value. -/
theorem window_pop (cells : ℕ → T) {cap start : ℕ} (hs : start < cap) (len : ℕ) :
    window cells cap start (len + 1) =
      cells start :: window cells cap ((start + 1) % cap) len := by
  simp only [window, List.range_succ_eq_map, List.map_cons, List.map_map, Nat.add_zero,
    Nat.mod_eq_of_lt hs]
  congr 1
  apply List.map_congr_left
  intro i _
  simp only [Function.comp, Nat.mod_add_mod]
  congr 2
  omega

end Libraft.Foundation
