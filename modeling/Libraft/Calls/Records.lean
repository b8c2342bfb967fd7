import Libraft.Foundation.CString

/-!
# The text fields of call records

`Filename` and `NetworkAddr`, the arguments of calls which carry a text, and
the tags of `Timings`. Each is an array with one element more than `strncpy`
is told to fill, and nobody writes the last element.

## Implementation notes

The constructors take what the memory held before: the node of the allocator
for the arguments of a call, the stack for the `Timings` which `send_request`
builds and assigns. A time is a number of nanoseconds.
-/

namespace Libraft.Calls

open Libraft.Foundation

/-- `strncpy` is told to leave the last element alone. -/
theorem room_for_nul : 255 ≤ 256 := by decide

structure Filename where
  path : CharArray 256

/-- `Filename::Filename`. -/
def Filename.new (mem : Filename) (path : CString) : Filename where
  path := mem.path.strncpy path.bytes 255 room_for_nul

structure NetworkAddr where
  host : CharArray 256
  port : UInt16

/-- `NetworkAddr::NetworkAddr`. -/
def NetworkAddr.new (mem : NetworkAddr) (host : CString) (port : UInt16) : NetworkAddr where
  host := mem.host.strncpy host.bytes 255 room_for_nul
  port := port

namespace Timings

/-- `MAX_ENT`. -/
def maxEnt : ℕ := 32

structure Entry where
  tag : CharArray 20
  ts : ℤ

end Timings

/-- `entries` up to `nEntries` are in use. -/
structure Timings where
  nEntries : ℕ
  le_maxEnt : nEntries ≤ Timings.maxEnt
  entries : Fin Timings.maxEnt → Timings.Entry

namespace Timings

/-- `record(tag, t)`. -/
def record (tm : Timings) (tag : CString) (t : ℤ) : Timings :=
  if h : tm.nEntries < maxEnt then
    { nEntries := tm.nEntries + 1
      le_maxEnt := h
      entries := Function.update tm.entries ⟨tm.nEntries, h⟩
        ⟨(tm.entries ⟨tm.nEntries, h⟩).tag.strncpy tag.bytes 19 (by decide), t⟩ }
  else tm

/-- The tag of the first entry. -/
def startTag : CString := .ascii ['s', 't', 'a', 'r', 't']

/-- `Timings(t)`. -/
def new (mem : Fin maxEnt → Entry) (t : ℤ) : Timings :=
  record ⟨0, Nat.zero_le _, mem⟩ startTag t

/-- One call of `record` after the other. -/
def recordAll (tm : Timings) (records : List (CString × ℤ)) : Timings :=
  records.foldl (fun tm r => tm.record r.1 r.2) tm

/-- `duration_cast<microseconds>`. -/
def toMicroseconds (ns : ℤ) : ℤ := ns.tdiv 1000

/-- What `print` writes about entry `i + 1`: the tag as far as it can be read, the
time since the first entry and the time since the one before. -/
def line (tm : Timings) (i : Fin (tm.nEntries - 1)) : Option CString × ℤ × ℤ :=
  have hlt : i.val + 1 < maxEnt := by
    have hi := i.isLt
    have hn := tm.le_maxEnt
    omega
  let ent := tm.entries ⟨i + 1, hlt⟩
  (ent.tag.read, toMicroseconds (ent.ts - (tm.entries ⟨0, by decide⟩).ts),
    toMicroseconds (ent.ts - (tm.entries ⟨i, by omega⟩).ts))

/-- `print`; `msgTiming` is the flag of the scoreboard. -/
def print (tm : Timings) (msgTiming : Bool) : List (Option CString × ℤ × ℤ) :=
  if msgTiming then (List.finRange (tm.nEntries - 1)).map tm.line else []

section Recording
variable (tm : Timings)

theorem nEntries_record (tag : CString) (t : ℤ) :
    (tm.record tag t).nEntries = min maxEnt (tm.nEntries + 1) := by
  have hle := tm.le_maxEnt
  unfold record
  split
  · simp only
    omega
  · omega

theorem nEntries_recordAll (records : List (CString × ℤ)) :
    (tm.recordAll records).nEntries = min maxEnt (tm.nEntries + records.length) := by
  induction records generalizing tm with
  | nil =>
      have hle := tm.le_maxEnt
      exact (Nat.min_eq_right hle).symm
  | cons r rest ih =>
      have hnext := ih (tm.record r.1 r.2)
      rw [nEntries_record] at hnext
      change (recordAll (tm.record r.1 r.2) rest).nEntries = _
      rw [hnext, List.length_cons]
      omega

/-- Entry `i` once `tag` has been recorded there. -/
def written (mem : Fin maxEnt → Entry) (i : Fin maxEnt) (tag : CString) (t : ℤ) : Entry :=
  ⟨(mem i).tag.strncpy tag.bytes 19 (by decide), t⟩

theorem entries_record (tag : CString) (t : ℤ) (i : Fin maxEnt) :
    (tm.record tag t).entries i =
      if i.val = tm.nEntries then written tm.entries i tag t else tm.entries i := by
  unfold record
  split
  case isTrue h =>
      by_cases hi : i.val = tm.nEntries
      · obtain rfl : i = ⟨tm.nEntries, h⟩ := Fin.ext hi
        simp [written]
      · have hne : i ≠ ⟨tm.nEntries, h⟩ := fun he => hi (congrArg Fin.val he)
        simp [hi, hne]
  case isFalse h =>
      have hi : i.val ≠ tm.nEntries := by
        have hlt := i.isLt
        omega
      rw [if_neg hi]

/-- Every call of `record` fills the next entry, and no other. -/
theorem entries_recordAll (records : List (CString × ℤ)) (i : Fin maxEnt) :
    (tm.recordAll records).entries i =
      if tm.nEntries ≤ i.val then
        match records[i.val - tm.nEntries]? with
        | some r => written tm.entries i r.1 r.2
        | none => tm.entries i
      else tm.entries i := by
  induction records generalizing tm with
  | nil => simp [recordAll]
  | cons r rest ih =>
      change (recordAll (tm.record r.1 r.2) rest).entries i = _
      have hlt := i.isLt
      have hi := entries_record tm r.1 r.2 i
      rw [ih, nEntries_record]
      rcases lt_trichotomy i.val tm.nEntries with hcmp | hcmp | hcmp
      · have h₁ : ¬ min maxEnt (tm.nEntries + 1) ≤ i.val := by omega
        have h₂ : ¬ tm.nEntries ≤ i.val := by omega
        rw [if_neg h₁, if_neg h₂, hi, if_neg (by omega)]
      · have h₁ : ¬ min maxEnt (tm.nEntries + 1) ≤ i.val := by omega
        rw [if_neg h₁, if_pos hcmp.ge, hi, if_pos hcmp]
        simp [hcmp]
      · have h₁ : min maxEnt (tm.nEntries + 1) ≤ i.val := by omega
        have hidx : i.val - tm.nEntries = i.val - min maxEnt (tm.nEntries + 1) + 1 := by omega
        rw [if_pos h₁, if_pos hcmp.le, hidx, List.getElem?_cons_succ]
        rw [if_neg (by omega)] at hi
        simp only [written, hi]

end Recording

section Tags
variable (mem : Fin maxEnt → Entry) (t : ℤ) (records : List (CString × ℤ))

theorem entries_new_recordAll {i : Fin maxEnt} {r : CString × ℤ}
    (h : ((startTag, t) :: records)[i.val]? = some r) :
    ((new mem t).recordAll records).entries i = written mem i r.1 r.2 := by
  have hall := entries_recordAll ⟨0, Nat.zero_le _, mem⟩ ((startTag, t) :: records) i
  rw [if_pos (Nat.zero_le _), Nat.sub_zero, h] at hall
  exact hall

theorem nEntries_new_recordAll :
    ((new mem t).recordAll records).nEntries = min maxEnt (records.length + 1) := by
  have hall := nEntries_recordAll ⟨0, Nat.zero_le _, mem⟩ ((startTag, t) :: records)
  rw [Nat.zero_add, List.length_cons] at hall
  exact hall

theorem read_tag_iff {i : Fin maxEnt} {r : CString × ℤ}
    (h : ((startTag, t) :: records)[i.val]? = some r) :
    (((new mem t).recordAll records).entries i).tag.read = some (r.1.cut 19) ↔
      r.1.length < 19 ∨ (mem i).tag.last = 0 := by
  rw [entries_new_recordAll mem t records h]
  exact (mem i).tag.read_strncpy_iff r.1

/-- `print` shows the tags of the calls of `record` if they all fit. -/
theorem print_tags_iff :
    (((new mem t).recordAll records).print true).map Prod.fst =
        (records.take (maxEnt - 1)).map (fun r => some (r.1.cut 19)) ↔
      ∀ (i : ℕ) (h : i + 1 < maxEnt), ∀ r ∈ records[i]?,
        r.1.length < 19 ∨ (mem ⟨i + 1, h⟩).tag.last = 0 := by
  have hn := nEntries_new_recordAll mem t records
  have hmax : maxEnt = 32 := rfl
  rw [List.ext_getElem_iff]
  constructor
  · intro ⟨_, heq⟩ i h r hr
    obtain ⟨hlt, rfl⟩ := List.getElem?_eq_some_iff.mp hr
    have hi := heq i (by simp [print]; omega) (by simp; omega)
    simp only [print, if_true, List.getElem_map, List.getElem_finRange, line, List.getElem_take]
      at hi
    exact (read_tag_iff mem t records (by simp)).mp hi
  · intro hall
    refine ⟨by simp [print]; omega, fun i h₁ h₂ => ?_⟩
    have hi : i < records.length ∧ i + 1 < maxEnt := by
      simp at h₂
      omega
    simp only [print, if_true, List.getElem_map, List.getElem_finRange, line, List.getElem_take]
    have hr : records[i]? = some records[i] := List.getElem?_eq_getElem hi.1
    exact (read_tag_iff mem t records (by simp)).mpr (hall i hi.2 _ hr)

end Tags

end Timings

/-- The text fields read back as the text they were built from, and are terminated,
as long as the text is shorter than the count given to `strncpy` or the memory
happened to have a NUL behind it. -/
theorem text_fields_read_back_iff (file : Filename) (path : CString) (addr : NetworkAddr)
    (host : CString) (port : UInt16) (mem : Fin Timings.maxEnt → Timings.Entry) (t : ℤ)
    (records : List (CString × ℤ)) :
    ((Filename.new file path).path.read = some (path.cut 255) ↔
      path.length < 255 ∨ file.path.last = 0) ∧
    ((NetworkAddr.new addr host port).host.read = some (host.cut 255) ↔
      host.length < 255 ∨ addr.host.last = 0) ∧
    (∀ i : Fin Timings.maxEnt, ∀ r ∈ ((Timings.startTag, t) :: records)[i.val]?,
      (((Timings.new mem t).recordAll records).entries i).tag.read = some (r.1.cut 19) ↔
        r.1.length < 19 ∨ (mem i).tag.last = 0) ∧
    ((((Timings.new mem t).recordAll records).print true).map Prod.fst =
        (records.take (Timings.maxEnt - 1)).map (fun r => some (r.1.cut 19)) ↔
      ∀ (i : ℕ) (h : i + 1 < Timings.maxEnt), ∀ r ∈ records[i]?,
        r.1.length < 19 ∨ (mem ⟨i + 1, h⟩).tag.last = 0) := by
  refine ⟨?_, ?_, ?_, ?_⟩
  · exact file.path.read_strncpy_iff path
  · exact addr.host.read_strncpy_iff host
  · exact fun i r hr => Timings.read_tag_iff mem t records hr
  · exact Timings.print_tags_iff mem t records

/-- The tag which `dispatch_fsm_apply_cmd` records. -/
def dispatchedTag : CString :=
  .ascii ['F', 'S', 'M', ' ', 'c', 'a', 'l', 'l', ' ', 'd', 'i', 's', 'p', 'a', 't', 'c', 'h', 'e',
    'd']

/-- A path of 255 bytes, and a tag of the library itself, in memory which is full
of ones: neither field is terminated. -/
theorem text_fields_not_terminated :
    (Filename.new ⟨.fill 256 1⟩ (.replicate 255 97 (by decide))).path.read = none ∧
      ((((Timings.new (fun _ => ⟨.fill 20 1, 0⟩) 0).recordAll [(dispatchedTag, 0)]).entries
        ⟨1, by decide⟩).tag.read = none) := by
  constructor
  · have hread := (CharArray.fill 256 1).read_strncpy (.replicate 255 97 (by decide))
    rw [if_neg (by rw [CString.length_replicate, CharArray.last_fill]; decide)] at hread
    exact hread
  · have hread := (CharArray.fill 20 1).read_strncpy dispatchedTag
    rw [if_neg (by decide)] at hread
    rw [Timings.entries_new_recordAll (r := (dispatchedTag, 0)) _ _ _ rfl]
    exact hread

end Libraft.Calls
