import Libraft.Foundation.CString

/-!
# Numbers in C strings

`strtoul` and `atoi` of the standard library with base ten: white space, a sign
and digits, and the first byte which is not part of the number. `strtoul`
saturates, and takes a negative number modulo the range of its type. `atoi` has
no meaning for a number outside the range of `int`.
-/

namespace Libraft.Foundation

/-- `isspace` of the C locale. -/
def isSpace (b : UInt8) : Bool := b = 32 || (9 ≤ b && b ≤ 13)

def isDigit (b : UInt8) : Bool := 48 ≤ b && b ≤ 57

/-- The number which a list of digits denotes. -/
def decimal (digits : List UInt8) : ℕ := digits.foldl (fun n b => 10 * n + (b.toNat - 48)) 0

/-- The sign in front of a number, and what follows. -/
def splitSign : List UInt8 → Bool × List UInt8
  | 45 :: rest => (true, rest)
  | 43 :: rest => (false, rest)
  | l => (false, l)

/-- The parts of a number: its sign, its digits and what follows. -/
structure Numeral where
  negative : Bool
  digits : List UInt8
  rest : List UInt8
  deriving DecidableEq

/-- The number at the beginning of a string. -/
def scanNumeral (l : List UInt8) : Numeral :=
  let (negative, l') := splitSign (l.dropWhile isSpace)
  ⟨negative, l'.takeWhile isDigit, l'.dropWhile isDigit⟩

/-- `strtoul(s, &endp, 10)`: the value, and the bytes from `endp` on. -/
def strtoul (s : CString) : UInt64 × List UInt8 :=
  let num := scanNumeral s.bytes
  if num.digits = [] then (0, s.bytes)
  else if decimal num.digits < 2 ^ 64 then
    (if num.negative then -(UInt64.ofNat (decimal num.digits))
      else UInt64.ofNat (decimal num.digits), num.rest)
  else (18446744073709551615, num.rest)

/-- `atoi(s)`; nothing if the number is not an `int`. -/
def atoi (s : CString) : Option ℤ :=
  let num := scanNumeral s.bytes
  let val : ℤ := if num.negative then -(decimal num.digits) else decimal num.digits
  if -2 ^ 31 ≤ val ∧ val < 2 ^ 31 then some val else none

/-- A number of digits only: non-empty, without sign and white space. -/
def IsNumeral (digits : List UInt8) : Prop := digits ≠ [] ∧ ∀ b ∈ digits, isDigit b = true

instance : DecidablePred IsNumeral := fun _ => inferInstanceAs (Decidable (_ ∧ _))

theorem isSpace_of_isDigit {b : UInt8} (h : isDigit b = true) : isSpace b = false := by
  simp only [isDigit, isSpace, Bool.and_eq_true, decide_eq_true_eq, Bool.or_eq_false_iff,
    decide_eq_false_iff_not, Bool.and_eq_false_iff, UInt8.le_iff_toNat_le,
    ← UInt8.toNat_inj] at h ⊢
  simp at h ⊢
  omega

theorem splitSign_of_isDigit {b : UInt8} (h : isDigit b = true) (l : List UInt8) :
    splitSign (b :: l) = (false, b :: l) := by
  have hminus : b ≠ 45 := fun hb => absurd (hb ▸ h) (by decide)
  have hplus : b ≠ 43 := fun hb => absurd (hb ▸ h) (by decide)
  unfold splitSign
  split <;> simp_all

/-- Such a number is read to its last digit. -/
theorem scanNumeral_append {digits rest : List UInt8} (h : IsNumeral digits)
    (hrest : ∀ b ∈ rest.head?, isDigit b = false) :
    scanNumeral (digits ++ rest) = ⟨false, digits, rest⟩ := by
  obtain ⟨hne, hall⟩ := h
  have htake : (digits ++ rest).takeWhile isDigit = digits := by
    rw [List.takeWhile_append_of_pos hall]
    cases rest with
    | nil => simp
    | cons b rest => simp [hrest b rfl]
  have hdrop : (digits ++ rest).dropWhile isDigit = rest := by
    rw [List.dropWhile_append_of_pos hall]
    cases rest with
    | nil => simp
    | cons b rest => simp [hrest b rfl]
  cases digits with
  | nil => exact absurd rfl hne
  | cons d digits =>
      have hd : isDigit d = true := hall d List.mem_cons_self
      have hfront : (d :: digits ++ rest).dropWhile isSpace = d :: digits ++ rest := by
        rw [List.cons_append, List.dropWhile_cons_of_neg (by simp [isSpace_of_isDigit hd])]
      have hsign : splitSign (d :: digits ++ rest) = (false, d :: digits ++ rest) :=
        splitSign_of_isDigit hd _
      simp only [scanNumeral, hfront, hsign, htake, hdrop]

/-- `strtoul` of a number in its range, with anything behind it. -/
theorem strtoul_of_isNumeral {s : CString} {digits rest : List UInt8}
    (hs : s.bytes = digits ++ rest) (h : IsNumeral digits)
    (hrest : ∀ b ∈ rest.head?, isDigit b = false) (hlt : decimal digits < 2 ^ 64) :
    strtoul s = (UInt64.ofNat (decimal digits), rest) := by
  simp only [strtoul, hs, scanNumeral_append h hrest, if_neg h.1, if_pos hlt, Bool.false_eq_true,
    if_false]

/-- `atoi` of a number in its range. -/
theorem atoi_of_isNumeral {s : CString} (h : IsNumeral s.bytes) (hlt : decimal s.bytes < 2 ^ 31) :
    atoi s = some (decimal s.bytes : ℤ) := by
  have hend : ∀ b ∈ ([] : List UInt8).head?, isDigit b = false := by
    simp
  have hscan : scanNumeral s.bytes = ⟨false, s.bytes, []⟩ := by
    simpa using scanNumeral_append h hend
  have hrange : -2 ^ 31 ≤ (decimal s.bytes : ℤ) ∧ (decimal s.bytes : ℤ) < 2 ^ 31 := by
    omega
  simp only [atoi, hscan, Bool.false_eq_true, if_false, if_pos hrange]

end Libraft.Foundation
