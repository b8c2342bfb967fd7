import Libraft.Config.Options

/-!
# The numbers of the configuration

`parse_size` and `atoi` never refuse an argument. What an argument ought to
look like, and when what is stored is the number which it denotes.
-/

namespace Libraft.Config

open Libraft.Foundation

/-- What may stand behind the number of a size, with the power of 1024 it means. -/
def sizeSuffixes : List (List UInt8 × ℕ) :=
  [([], 0), ([107], 1), ([75], 1), ([109], 2), ([77], 2), ([103], 3), ([71], 3)]

/-- The argument is a size in decimal digits, with or without a suffix. -/
def DenotesSize (arg : CString) (n : ℕ) : Prop :=
  ∃ digits, IsNumeral digits ∧ ∃ s ∈ sizeSuffixes,
    arg.bytes = digits ++ s.1 ∧ n = decimal digits * 1024 ^ s.2

/-- The argument is a number in decimal digits. -/
def DenotesNumber (arg : CString) (n : ℕ) : Prop :=
  IsNumeral arg.bytes ∧ n = decimal arg.bytes

theorem isDigit_of_suffix {s : List UInt8 × ℕ} (hs : s ∈ sizeSuffixes) :
    ∀ b ∈ s.1.head?, isDigit b = false := by
  simp only [sizeSuffixes, List.mem_cons, List.not_mem_nil, or_false] at hs
  rcases hs with rfl | rfl | rfl | rfl | rfl | rfl | rfl <;> simp [isDigit]

theorem parseSize_of_strtoul {arg : CString} {coeff : UInt64} {s : List UInt8 × ℕ}
    (hs : s ∈ sizeSuffixes) (h : strtoul arg = (coeff, s.1)) :
    parseSize arg = coeff * UInt64.ofNat (1024 ^ s.2) := by
  unfold parseSize
  rw [h]
  simp only [sizeSuffixes, List.mem_cons, List.not_mem_nil, or_false] at hs
  rcases hs with rfl | rfl | rfl | rfl | rfl | rfl | rfl <;>
    simp only [List.head?_nil, List.head?_cons, UInt64.mul_assoc] <;>
    first | rfl | exact (UInt64.mul_one coeff).symm

/-- A size which fits is stored, with its suffix taken into account. -/
theorem parseSize_of_denotes {arg : CString} {n : ℕ} (h : DenotesSize arg n) (hn : n < 2 ^ 64) :
    (parseSize arg).toNat = n := by
  obtain ⟨digits, hdigits, s, hs, harg, rfl⟩ := h
  have hlt : decimal digits < 2 ^ 64 :=
    lt_of_le_of_lt (Nat.le_mul_of_pos_right _ (Nat.pow_pos (by decide))) hn
  have hread := strtoul_of_isNumeral harg hdigits (isDigit_of_suffix hs) hlt
  rw [parseSize_of_strtoul hs hread, UInt64.toNat_mul, UInt64.toNat_ofNat', UInt64.toNat_ofNat',
    ← Nat.mul_mod, Nat.mod_eq_of_lt hn]

/-- A port which fits is stored. -/
theorem port_of_denotes (wild : CString → ℤ) {arg : CString} {n : ℕ} (h : DenotesNumber arg n)
    (hn : n < 2 ^ 16) : (UInt16.ofInt ((atoi arg).getD (wild arg))).toNat = n := by
  obtain ⟨hdigits, rfl⟩ := h
  have hmod : ((decimal arg.bytes : ℤ) % 2 ^ 16).toNat = decimal arg.bytes := by
    omega
  rw [atoi_of_isNumeral hdigits (by omega), Option.getD_some, UInt16.ofInt, hmod,
    UInt16.toNat_ofNat', Nat.mod_eq_of_lt hn]

section Stored
variable (wild : CString → ℤ) (cfg : RaftConfig) (arg : CString)

/-- What the option does with the argument: if it returns 0 then the argument denotes
a number which fits and which is stored, and otherwise nothing changes. -/
def StoredOrRefused (option : Getopt) (denotes : CString → ℕ → Prop) (bound : ℕ)
    (stored : RaftConfig → ℕ) : Prop :=
  ∀ rc cfg', raftApplyOption wild cfg option.value (some arg) = some (rc, cfg') →
    (rc = 0 → ∃ n, denotes arg n ∧ n < bound ∧ stored cfg' = n) ∧ (rc ≠ 0 → cfg' = cfg)

/-- An option which always stores something keeps to this for the arguments whose number
it stores, and for no other. -/
theorem storedOrRefused_iff {option : Getopt} {denotes : CString → ℕ → Prop} {bound : ℕ}
    {stored : RaftConfig → ℕ} {cfg' : RaftConfig}
    (happly : raftApplyOption wild cfg option.value (some arg) = some (0, cfg'))
    (hstore : ∀ n, denotes arg n → n < bound → stored cfg' = n) :
    StoredOrRefused wild cfg arg option denotes bound stored ↔ ∃ n, denotes arg n ∧ n < bound := by
  constructor
  · intro h
    obtain ⟨n, hden, hlt, -⟩ := (h 0 cfg' happly).1 rfl
    exact ⟨n, hden, hlt⟩
  · rintro ⟨n, hden, hlt⟩ rc cfg'' h
    obtain ⟨rfl, rfl⟩ := Prod.mk.inj (Option.some.inj (happly.symm.trans h))
    exact ⟨fun _ => ⟨n, hden, hlt, hstore n hden hlt⟩, fun hne => absurd rfl hne⟩

end Stored

/-- Sizes and ports are stored exactly or refused if, and only if, they are numbers
of the right form which fit. -/
theorem numbers_stored_exactly_iff (wild : CString → ℤ) (cfg : RaftConfig) (arg : CString) :
    (StoredOrRefused wild cfg arg .shmSize DenotesSize (2 ^ 64) (fun c => c.shmSize.toNat) ↔
      ∃ n, DenotesSize arg n ∧ n < 2 ^ 64) ∧
    (StoredOrRefused wild cfg arg .port DenotesNumber (2 ^ 16) (fun c => c.listenPort.toNat) ↔
      ∃ n, DenotesNumber arg n ∧ n < 2 ^ 16) := by
  constructor
  · exact storedOrRefused_iff wild cfg arg rfl fun _ => parseSize_of_denotes
  · exact storedOrRefused_iff wild cfg arg rfl fun _ => port_of_denotes wild

/-- A size with something else behind it, a size which does not fit and a port which does
not fit: all three are taken, and what is stored is another number. -/
theorem numbers_stored_inexactly :
    let cfg := defaultConfig (.filled 0)
    raftApplyOption (fun _ => 0) cfg Getopt.shmSize.value (some (.ascii ['1', '2', 'x'])) =
      some (0, { cfg with shmSize := 12 }) ∧
    raftApplyOption (fun _ => 0) cfg Getopt.shmSize.value
        (some (.ascii ['1', '7', '1', '7', '9', '8', '6', '9', '1', '8', '4', 'g'])) =
      some (0, { cfg with shmSize := 0 }) ∧
    raftApplyOption (fun _ => 0) cfg Getopt.port.value
        (some (.ascii ['7', '0', '0', '0', '0'])) =
      some (0, { cfg with listenPort := 4464 }) := by
  refine ⟨?_, ?_, ?_⟩ <;> rfl

end Libraft.Config
