import Mathlib.Data.List.TakeWhile
import Mathlib.Data.UInt

/-!
# C strings in character arrays

A C string is what stands in front of a NUL. An array of characters holds one
if there is a NUL among its elements; otherwise whoever reads the string walks
out of the array. `strncpy` fills up with zeros what the string leaves of the
count, and writes no NUL behind a string which is as long as the count.

## Implementation notes

The source of a copy is given by the bytes from its pointer on. The proof that
the count fits is an argument of `strncpy`, so every copy stays in its array.
-/

namespace Libraft.Foundation

/-- The bytes in front of the terminating NUL. -/
@[ext]
structure CString where
  bytes : List UInt8
  nonzero : ∀ b ∈ bytes, b ≠ 0
  deriving DecidableEq

namespace CString

/-- `strlen`. -/
def length (s : CString) : ℕ := s.bytes.length

/-- The first `n` bytes of a string, or all of it. -/
def cut (s : CString) (n : ℕ) : CString where
  bytes := s.bytes.take n
  nonzero := fun b hb => s.nonzero b (List.mem_of_mem_take hb)

/-- The string which begins at the first of these bytes. -/
def ofBytes (l : List UInt8) : CString where
  bytes := l.takeWhile (· ≠ 0)
  nonzero := fun b hb => by simpa using List.mem_takeWhile_imp hb

/-- A string constant. -/
def ascii (l : List Char) : CString := ofBytes (l.map Char.toUInt8)

/-- The same byte `n` times. -/
def replicate (n : ℕ) (b : UInt8) (h : b ≠ 0) : CString where
  bytes := List.replicate n b
  nonzero := fun _ hb => List.eq_of_mem_replicate hb ▸ h

@[simp] theorem length_replicate (n : ℕ) (b : UInt8) (h : b ≠ 0) :
    (replicate n b h).length = n :=
  List.length_replicate

@[simp] theorem ofBytes_bytes (s : CString) : ofBytes s.bytes = s := by
  ext1
  exact List.takeWhile_eq_self_iff.mpr fun b hb => by simpa using s.nonzero b hb

theorem ofBytes_append (s : CString) (l : List UInt8) :
    (ofBytes (s.bytes ++ l)).bytes = s.bytes ++ (ofBytes l).bytes :=
  List.takeWhile_append_of_pos fun b hb => by simpa using s.nonzero b hb

theorem ofBytes_zero (l : List UInt8) : (ofBytes (0 :: l)).bytes = [] := rfl

theorem cut_of_length_le (s : CString) {n : ℕ} (h : s.length ≤ n) : s.cut n = s := by
  ext1
  exact List.take_of_length_le h

theorem length_cut (s : CString) {n : ℕ} (h : n ≤ s.length) : (s.cut n).length = n :=
  List.length_take_of_le h

end CString

/-- `char[n]`. -/
@[ext]
structure CharArray (n : ℕ) where
  bytes : List UInt8
  length_eq : bytes.length = n
  deriving DecidableEq

namespace CharArray

variable {n m : ℕ}

/-- `strncpy(dst, src, n)`. -/
def strncpy (dst : CharArray m) (src : List UInt8) (n : ℕ) (h : n ≤ m) : CharArray m where
  bytes := ((CString.ofBytes src).cut n).bytes ++
    (List.replicate (n - (CString.ofBytes src).length) 0 ++ dst.bytes.drop n)
  length_eq := by
    have hlen := dst.length_eq
    simp only [CString.cut, CString.length, List.length_append, List.length_take,
      List.length_replicate, List.length_drop]
    omega

/-- Reading the array as a C string; nothing if it is not terminated. -/
def read (a : CharArray n) : Option CString :=
  if 0 ∈ a.bytes then some (.ofBytes a.bytes) else none

/-- The last element of an array. -/
def last (a : CharArray (n + 1)) : UInt8 :=
  a.bytes.get ⟨n, by rw [a.length_eq]; exact n.lt_succ_self⟩

/-- An array with the same byte everywhere. -/
def fill (n : ℕ) (b : UInt8) : CharArray n := ⟨List.replicate n b, List.length_replicate⟩

/-- `a[0] = '\0'`. -/
def clear (a : CharArray (n + 1)) : CharArray (n + 1) where
  bytes := 0 :: a.bytes.tail
  length_eq := by simp [a.length_eq]

@[simp] theorem last_fill (n : ℕ) (b : UInt8) : (fill (n + 1) b).last = b :=
  List.getElem_replicate _

@[simp] theorem read_clear (a : CharArray (n + 1)) : a.clear.read = some (.ofBytes []) := by
  simp [read, clear, CString.ofBytes]

@[simp] theorem last_clear (a : CharArray (n + 2)) : a.clear.last = a.last := by
  simp [last, clear]

theorem drop_eq_last (a : CharArray (n + 1)) : a.bytes.drop n = [a.last] := by
  have hlen := a.length_eq
  rw [List.drop_eq_getElem_cons (by omega), List.drop_of_length_le (by omega)]
  rfl

/-- The copy of a string which is shorter than the count is the string. -/
theorem read_strncpy_of_lt (dst : CharArray m) (s : CString) (h : n ≤ m) (hs : s.length < n) :
    (dst.strncpy s.bytes n h).read = some s := by
  have hzeros : ∃ k, n - s.length = k + 1 := ⟨n - s.length - 1, by omega⟩
  obtain ⟨k, hk⟩ := hzeros
  have hbytes : (dst.strncpy s.bytes n h).bytes =
      s.bytes ++ 0 :: (List.replicate k 0 ++ dst.bytes.drop n) := by
    simp only [strncpy, CString.ofBytes_bytes, s.cut_of_length_le hs.le, hk, List.replicate_succ,
      List.cons_append]
  unfold read
  rw [hbytes, if_pos (by simp)]
  congr 1
  ext1
  rw [CString.ofBytes_append, CString.ofBytes_zero, List.append_nil]

/-- A copy of a longer string ends with what stood in the array before. -/
theorem strncpy_of_le (dst : CharArray m) (s : CString) (h : n ≤ m) (hs : n ≤ s.length) :
    (dst.strncpy s.bytes n h).bytes = (s.cut n).bytes ++ dst.bytes.drop n := by
  simp [strncpy, Nat.sub_eq_zero_of_le hs]

@[simp] theorem last_strncpy (dst : CharArray (n + 1)) (src : List UInt8) :
    (dst.strncpy src n n.le_succ).last = dst.last := by
  have hdrop : (dst.strncpy src n n.le_succ).bytes.drop n = dst.bytes.drop n := by
    have hlen : (((CString.ofBytes src).cut n).bytes ++
        List.replicate (n - (CString.ofBytes src).length) 0).length = n := by
      simp only [CString.cut, CString.length, List.length_append, List.length_take,
        List.length_replicate]
      omega
    change List.drop n (_ ++ (_ ++ _)) = _
    rw [← List.append_assoc, List.drop_left' hlen]
  rw [drop_eq_last, drop_eq_last] at hdrop
  exact List.singleton_injective hdrop

/-- A copy into an array with one element more than the count reads back as it
should, unless the string reaches the count and the element holds something else
than a NUL. Then the array is not terminated. -/
theorem read_strncpy (dst : CharArray (n + 1)) (s : CString) :
    (dst.strncpy s.bytes n n.le_succ).read =
      if s.length < n ∨ dst.last = 0 then some (s.cut n) else none := by
  by_cases hs : s.length < n
  · rw [read_strncpy_of_lt _ _ _ hs, s.cut_of_length_le hs.le, if_pos (.inl hs)]
  · have hbytes := dst.strncpy_of_le s n.le_succ (not_lt.mp hs)
    rw [drop_eq_last] at hbytes
    unfold read
    rw [hbytes]
    by_cases hz : dst.last = 0
    · have hread : CString.ofBytes ((s.cut n).bytes ++ [dst.last]) = s.cut n := by
        ext1
        rw [CString.ofBytes_append, hz, CString.ofBytes_zero, List.append_nil]
      rw [hread, if_pos (by simp [hz]), if_pos (.inr hz)]
    · have hnone : (0 : UInt8) ∉ (s.cut n).bytes ++ [dst.last] := by
        intro hmem
        rcases List.mem_append.mp hmem with h | h
        · exact (s.cut n).nonzero 0 h rfl
        · exact hz (List.mem_singleton.mp h).symm
      rw [if_neg hnone, if_neg (not_or.mpr ⟨hs, hz⟩)]

theorem read_strncpy_iff (dst : CharArray (n + 1)) (s : CString) :
    (dst.strncpy s.bytes n n.le_succ).read = some (s.cut n) ↔ s.length < n ∨ dst.last = 0 := by
  rw [read_strncpy]
  split <;> simp_all

/-- A string which begins with the array and has no NUL in front of its last element. -/
theorem take_eq_of_le_length (a : CharArray (n + 1)) (h : n ≤ (CString.ofBytes a.bytes).length) :
    ((CString.ofBytes a.bytes).cut n).bytes = a.bytes.take n := by
  have hpre : (CString.ofBytes a.bytes).bytes <+: a.bytes := List.takeWhile_prefix _
  refine (hpre.take n).eq_of_length ?_
  have hcut : (List.take n (CString.ofBytes a.bytes).bytes).length = n :=
    (CString.ofBytes a.bytes).length_cut h
  have hlen := a.length_eq
  rw [hcut, List.length_take]
  omega

/-- Copying an array over itself does not change what it reads as. -/
theorem read_strncpy_self (a : CharArray (n + 1)) :
    (a.strncpy a.bytes n n.le_succ).read = a.read := by
  have hsrc : a.strncpy a.bytes n n.le_succ =
      a.strncpy (CString.ofBytes a.bytes).bytes n n.le_succ := by
    simp [strncpy]
  rw [hsrc]
  by_cases hs : (CString.ofBytes a.bytes).length < n
  · have hmem : 0 ∈ a.bytes := by
      by_contra hno
      have hall : a.bytes.takeWhile (· ≠ 0) = a.bytes :=
        List.takeWhile_eq_self_iff.mpr fun b hb => by
          have hne : b ≠ 0 := fun h => hno (h ▸ hb)
          simpa using hne
      have hlen := a.length_eq
      simp only [CString.length, CString.ofBytes, hall] at hs
      omega
    rw [read_strncpy_of_lt _ _ _ hs, read, if_pos hmem]
  · have hself : a.strncpy (CString.ofBytes a.bytes).bytes n n.le_succ = a := by
      ext1
      rw [strncpy_of_le _ _ _ (not_lt.mp hs), take_eq_of_le_length a (not_lt.mp hs),
        List.take_append_drop]
    rw [hself]

end CharArray

end Libraft.Foundation
