import Libraft.Foundation.Numerals
import Mathlib.Data.Nat.Digits.Defs

/-!
# Unsigned numbers printed and scanned

`%u` of `printf` and of `scanf`. What is printed for a number is read back as
this number, whatever stands behind it, as long as that is not a digit.
-/

namespace Libraft.Foundation

/-- `%u` of `printf`. -/
def printUnsigned (n : ℕ) : List UInt8 :=
  if n = 0 then [48] else ((Nat.digits 10 n).map fun d => UInt8.ofNat (48 + d)).reverse

/-- `%u` of `scanf`: the number is read as `strtoul` reads it and stored in an
`unsigned int`; nothing is stored if there are no digits. -/
def scanUnsigned (text : List UInt8) : Option UInt32 :=
  if (scanNumeral (CString.ofBytes text).bytes).digits = [] then none
  else some (strtoul (.ofBytes text)).1.toUInt32

theorem toNat_digit {d : ℕ} (h : d < 10) : (UInt8.ofNat (48 + d)).toNat = 48 + d := by
  rw [UInt8.toNat_ofNat', Nat.mod_eq_of_lt (by omega)]

theorem isDigit_digit {d : ℕ} (h : d < 10) : isDigit (UInt8.ofNat (48 + d)) = true := by
  simp only [isDigit, UInt8.le_iff_toNat_le, toNat_digit h, Bool.and_eq_true, decide_eq_true_eq]
  exact ⟨by simp, by change 48 + d ≤ 57; omega⟩

theorem isNumeral_printUnsigned (n : ℕ) : IsNumeral (printUnsigned n) := by
  unfold printUnsigned
  split
  · exact ⟨by simp, by simp [isDigit]⟩
  · rename_i hn
    refine ⟨by simpa using Nat.digits_ne_nil_iff_ne_zero.mpr hn, fun b hb => ?_⟩
    obtain ⟨d, hd, rfl⟩ := List.mem_map.mp (List.mem_reverse.mp hb)
    exact isDigit_digit (Nat.digits_lt_base (by omega) hd)

/-- The digits of a number, the last one first, denote the number. -/
theorem decimal_reverse_digits {l : List ℕ} (h : ∀ d ∈ l, d < 10) :
    decimal (l.map fun d => UInt8.ofNat (48 + d)).reverse = Nat.ofDigits 10 l := by
  rw [decimal, List.foldl_reverse, Nat.ofDigits_eq_foldr, List.foldr_map]
  induction l with
  | nil => rfl
  | cons d l ih =>
      have hd := toNat_digit (h d List.mem_cons_self)
      rw [List.foldr_cons, List.foldr_cons, ih fun e he => h e (List.mem_cons_of_mem _ he), hd]
      simp only [Nat.cast_id]
      omega

theorem decimal_printUnsigned (n : ℕ) : decimal (printUnsigned n) = n := by
  unfold printUnsigned
  split
  · subst_vars
    rfl
  · rw [decimal_reverse_digits fun d hd => Nat.digits_lt_base (by omega) hd, Nat.ofDigits_digits]

theorem nonzero_of_isDigit {b : UInt8} (h : isDigit b = true) : b ≠ 0 := by
  rintro rfl
  simp [isDigit] at h

/-- What is printed for a number is scanned as the number. -/
theorem scanUnsigned_printUnsigned (n : UInt32) {rest : List UInt8}
    (hrest : ∀ b ∈ rest.head?, isDigit b = false) :
    scanUnsigned (printUnsigned n.toNat ++ rest) = some n := by
  have hnum := isNumeral_printUnsigned n.toNat
  have hval := decimal_printUnsigned n.toNat
  have hs : (CString.ofBytes (printUnsigned n.toNat ++ rest)).bytes =
      printUnsigned n.toNat ++ (CString.ofBytes rest).bytes :=
    CString.ofBytes_append ⟨_, fun b hb => nonzero_of_isDigit (hnum.2 b hb)⟩ rest
  have hrest' : ∀ b ∈ (CString.ofBytes rest).bytes.head?, isDigit b = false := by
    intro b hb
    refine hrest b ?_
    cases rest with
    | nil => exact hb
    | cons c rest =>
        by_cases hc : c = 0
        · simp [hc, CString.ofBytes] at hb
        · simpa [CString.ofBytes, hc] using hb
  have hlt : n.toNat < 2 ^ 64 := n.toNat_lt.trans (by decide)
  rw [scanUnsigned, strtoul_of_isNumeral hs hnum hrest' (hval.symm ▸ hlt), hs,
    scanNumeral_append hnum hrest', if_neg hnum.1, hval]
  congr 1
  apply UInt32.toNat_inj.mp
  have hn := n.toNat_lt
  simp only [UInt64.toNat_toUInt32, UInt64.toNat_ofNat', Nat.mod_eq_of_lt hlt]
  exact Nat.mod_eq_of_lt hn

end Libraft.Foundation
