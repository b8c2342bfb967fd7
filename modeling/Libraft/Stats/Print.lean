import Libraft.Stats.Tokens

/-!
# Printing the statistics

`raft_print_stats` takes the statistics as a JSON text, has it cut into tokens
and prints the members of the object. It takes for granted that the keys and
the values alternate behind the object: the tokens of the `key`-th member are
those at `1 + 2 * key` and `2 + 2 * key`. The parser accepts other texts, and
counts a string without a value as a member as well.

## Implementation notes

`reads` holds the indices of the tokens which the function looks at. The value
is only looked at if the key is a string. A token whose end stands in front of
its start makes the constructor of `std::string` throw, as the difference is
converted to a `size_t`. `fprintf` returns the number of the bytes as an `int`
and fails if there are more than one can hold; then nothing is said about what
it has printed, and the function, which does not look at the result, goes on.
-/

namespace Libraft.Stats

open Foundation

/-- How a call of `raft_print_stats` ends; `lengthError` is an exception. -/
inductive Outcome where
  | finished
  | invalidPointer
  | parsingError (parsed : ℤ)
  | invalidData
  | unexpected (start : ℤ)
  | lengthError
  deriving DecidableEq

/-- What the calls of `fprintf` in a call of `raft_print_stats` print to `stderr`, which tokens it
reads, and its end. -/
structure Report where
  output : List (Option (List UInt8))
  reads : List ℕ
  outcome : Outcome
  deriving DecidableEq

/-- The header. -/
def header : List UInt8 := (CString.ascii "Raft stats:\n".toList).bytes

/-- A string in a column of that width, at its right. -/
def padded (width : ℕ) (s : List UInt8) : List UInt8 := List.replicate (width - s.length) 32 ++ s

/-- The line of a member. -/
def line (key val : List UInt8) : List UInt8 :=
  List.replicate 4 32 ++ padded 20 key ++ [colon, 32] ++ val ++ [10]

theorem length_line_le (key val : List UInt8) :
    (line key val).length ≤ key.length + val.length + 27 := by
  simp only [line, padded, List.length_append, List.length_replicate, List.length_cons,
    List.length_nil]
  omega

/-- What `fprintf` prints, unless it fails with `EOVERFLOW`. -/
def fprintf (bytes : List UInt8) : Option (List UInt8) :=
  if bytes.length < 2 ^ 31 then some bytes else none

theorem fprintf_of_lt {bytes : List UInt8} (h : bytes.length < 2 ^ 31) :
    fprintf bytes = some bytes :=
  if_pos h

/-- The `std::string` of a token. -/
def JsmnTok.content (t : JsmnTok) (text : CString) : Option (List UInt8) :=
  if t.stop - t.start < 0 then none
  else some ((text.bytes.drop t.start.toNat).take (t.stop - t.start).toNat)

/-- The loop of `raft_print_stats`, with that many members to go from `key` on. -/
def printMembers (text : CString) (tokens : ℤ → JsmnTok) : ℕ → ℕ → Report
  | 0, _ => ⟨[], [], .finished⟩
  | n + 1, key =>
    let keyI := 1 + 2 * key
    let keyT := tokens keyI
    let valT := tokens (keyI + 1 : ℕ)
    if keyT.type ≠ .string then ⟨[], [keyI], .unexpected keyT.start⟩
    else if valT.type ≠ .string then ⟨[], [keyI, keyI + 1], .unexpected keyT.start⟩
    else
      match keyT.content text, valT.content text with
      | some keyS, some valS =>
        let r := printMembers text tokens n (key + 1)
        ⟨fprintf (line keyS valS) :: r.output, keyI :: (keyI + 1) :: r.reads, r.outcome⟩
      | _, _ => ⟨[], [keyI, keyI + 1], .lengthError⟩

/-- What `raft_print_stats` does after a successful `jsmn_parse`. -/
def printParsed (text : CString) (p : JsmnParser) : Report :=
  if p.count < 1 then ⟨[], [], .parsingError p.count⟩
  else if (p.tokens 0).type ≠ .object then ⟨[], [0], .invalidData⟩
  else
    let r := printMembers text p.tokens (p.tokens 0).size.toNat 0
    ⟨fprintf header :: r.output, 0 :: r.reads, r.outcome⟩

/-- `raft_print_stats`. -/
def raftPrintStats (memory : ℤ → JsmnTok) : Option CString → Report
  | none => ⟨[], [], .invalidPointer⟩
  | some text =>
    match jsmnParse memory text with
    | .error e => ⟨[], [], .parsingError e.code⟩
    | .ok p => printParsed text p

theorem JsmnTok.content_of_spanned {t : JsmnTok} (h : t.Spanned) (ht : t.type = .string)
    (text : CString) : ∃ s, t.content text = some s := by
  rcases h with h | ⟨-, h⟩
  · simp [JsmnTok.isContainer, ht] at h
  · exact ⟨_, if_neg (by omega)⟩

section Loop

variable {text : CString} {tokens : ℤ → JsmnTok} {n key : ℕ}

theorem printMembers_key (hk : (tokens (1 + 2 * key : ℕ)).type ≠ .string) :
    printMembers text tokens (n + 1) key =
      ⟨[], [1 + 2 * key], .unexpected (tokens (1 + 2 * key : ℕ)).start⟩ := by
  rw [printMembers]
  exact if_pos hk

theorem printMembers_val (hk : (tokens (1 + 2 * key : ℕ)).type = .string)
    (hv : (tokens (1 + 2 * key + 1 : ℕ)).type ≠ .string) :
    printMembers text tokens (n + 1) key =
      ⟨[], [1 + 2 * key, 1 + 2 * key + 1], .unexpected (tokens (1 + 2 * key : ℕ)).start⟩ := by
  rw [printMembers]
  exact (if_neg (not_not.mpr hk)).trans (if_pos hv)

theorem printMembers_strings (hk : (tokens (1 + 2 * key : ℕ)).type = .string)
    (hv : (tokens (1 + 2 * key + 1 : ℕ)).type = .string) {keyS valS : List UInt8}
    (hkS : (tokens (1 + 2 * key : ℕ)).content text = some keyS)
    (hvS : (tokens (1 + 2 * key + 1 : ℕ)).content text = some valS) :
    printMembers text tokens (n + 1) key =
      ⟨fprintf (line keyS valS) :: (printMembers text tokens n (key + 1)).output,
        (1 + 2 * key) :: (1 + 2 * key + 1) :: (printMembers text tokens n (key + 1)).reads,
        (printMembers text tokens n (key + 1)).outcome⟩ := by
  rw [printMembers]
  simp only [hk, hv, hkS, hvS, ne_eq, not_true_eq_false, if_false]

theorem printMembers_lengthError (hk : (tokens (1 + 2 * key : ℕ)).type = .string)
    (hv : (tokens (1 + 2 * key + 1 : ℕ)).type = .string)
    (hkS : (tokens (1 + 2 * key : ℕ)).content text = none) :
    printMembers text tokens (n + 1) key =
      ⟨[], [1 + 2 * key, 1 + 2 * key + 1], .lengthError⟩ := by
  rw [printMembers]
  simp only [hk, hv, hkS, ne_eq, not_true_eq_false, if_false]

/-- Both tokens of a member are looked at if the key is a string. -/
theorem mem_printMembers_reads (hk : (tokens (1 + 2 * key : ℕ)).type = .string) :
    1 + 2 * key + 1 ∈ (printMembers text tokens (n + 1) key).reads := by
  rw [printMembers]
  simp only [hk, ne_eq, not_true_eq_false, if_false]
  split
  · simp
  · split <;> simp

/-- There are tokens for that many members from `key` on, or one which is not a string. -/
def Covered (tokens : ℤ → JsmnTok) (filled n key : ℕ) : Prop :=
  2 * (key + n) < filled ∨ ∃ i < filled, 2 * key < i ∧ (tokens i).type ≠ .string

variable {filled : ℕ}

theorem covered_key (hk : (tokens (1 + 2 * key : ℕ)).type ≠ .string) :
    Covered tokens filled (n + 1) key ↔ 1 + 2 * key < filled := by
  constructor
  · rintro (hn | ⟨i, hif, hi, -⟩) <;> omega
  · intro hlt
    exact Or.inr ⟨_, hlt, by omega, hk⟩

theorem covered_step (hk : (tokens (1 + 2 * key : ℕ)).type = .string) :
    Covered tokens filled (n + 1) key ↔ 1 + 2 * key + 1 < filled ∧
      ((tokens (1 + 2 * key + 1 : ℕ)).type = .string → Covered tokens filled n (key + 1)) := by
  constructor
  · rintro (hn | ⟨i, hif, hi, hti⟩)
    · exact ⟨by omega, fun _ => Or.inl (by omega)⟩
    · have hik : i ≠ 1 + 2 * key := fun he => hti (he ▸ hk)
      refine ⟨by omega, fun hv => Or.inr ⟨i, hif, ?_, hti⟩⟩
      have hiv : i ≠ 1 + 2 * key + 1 := fun he => hti (he ▸ hv)
      omega
  · rintro ⟨hlt, h⟩
    by_cases hv : (tokens (1 + 2 * key + 1 : ℕ)).type = .string
    · rcases h hv with hn | ⟨i, hif, hi, hti⟩
      · exact Or.inl (by omega)
      · exact Or.inr ⟨i, hif, by omega, hti⟩
    · exact Or.inr ⟨_, hlt, by omega, hv⟩

theorem printMembers_reads_step (hs : ∀ i : ℕ, i < filled → (tokens i).Spanned)
    (hk : (tokens (1 + 2 * key : ℕ)).type = .string) :
    (∀ i ∈ (printMembers text tokens (n + 1) key).reads, i < filled) ↔
      1 + 2 * key + 1 < filled ∧ ((tokens (1 + 2 * key + 1 : ℕ)).type = .string →
        ∀ i ∈ (printMembers text tokens n (key + 1)).reads, i < filled) := by
  by_cases hlt : 1 + 2 * key + 1 < filled
  · by_cases hv : (tokens (1 + 2 * key + 1 : ℕ)).type = .string
    · obtain ⟨keyS, hkS⟩ := JsmnTok.content_of_spanned (hs _ (by omega)) hk text
      obtain ⟨valS, hvS⟩ := JsmnTok.content_of_spanned (hs _ hlt) hv text
      rw [printMembers_strings hk hv hkS hvS]
      simp only [List.mem_cons, forall_eq_or_imp, hlt, hv, true_and, forall_const]
      exact and_iff_right (by omega)
    · rw [printMembers_val hk hv]
      simp only [List.mem_cons, List.not_mem_nil, or_false, forall_eq_or_imp, forall_eq, hlt, hv]
      simpa using Nat.lt_of_succ_lt hlt
  · exact iff_of_false (fun h => hlt (h _ (mem_printMembers_reads hk))) fun h => hlt h.1

/-- The loop reads one token after the other, up to one which is not a string. -/
theorem printMembers_reads (hs : ∀ i : ℕ, i < filled → (tokens i).Spanned)
    (hkey : 2 * key < filled) :
    (∀ i ∈ (printMembers text tokens n key).reads, i < filled) ↔
      Covered tokens filled n key := by
  induction n generalizing key with
  | zero => exact iff_of_true (fun i hi => nomatch hi) (Or.inl hkey)
  | succ n ih =>
      by_cases hk : (tokens (1 + 2 * key : ℕ)).type = .string
      · rw [printMembers_reads_step hs hk, covered_step hk]
        exact and_congr_right fun hlt => imp_congr_right fun _ => ih (by omega)
      · rw [printMembers_key hk, covered_key hk]
        simp only [List.mem_singleton, forall_eq]

end Loop

instance (tokens : ℤ → JsmnTok) (filled n key : ℕ) : Decidable (Covered tokens filled n key) :=
  inferInstanceAs (Decidable (_ ∨ _))

/-- Every token which `raft_print_stats` reads is one that `jsmn_parse` has filled, of those the
array has. -/
def ReadsFilled (memory : ℤ → JsmnTok) (text : CString) : Prop :=
  ∀ i ∈ (raftPrintStats memory (some text)).reads,
    ∃ p, jsmnParse memory text = .ok p ∧ i < p.toknext ∧ p.toknext ≤ numTokens

/-- The object has a token for each of its keys and values, unless there is nothing to print. -/
def Matching (p : JsmnParser) : Prop :=
  1 ≤ p.count → (p.tokens 0).type = .object →
    Covered p.tokens p.toknext (p.tokens 0).size.toNat 0

instance (p : JsmnParser) : Decidable (Matching p) :=
  inferInstanceAs (Decidable (_ → _))

theorem printParsed_reads {p : JsmnParser} (h : p.Inv) (text : CString) :
    (∀ i ∈ (printParsed text p).reads, i < p.toknext) ↔ Matching p := by
  have hcount := h.count
  rw [printParsed]
  split_ifs with hc ht
  · exact iff_of_true (fun i hi => nomatch hi) fun h₁ => absurd hc (by omega)
  · simp only [List.mem_singleton, forall_eq]
    exact iff_of_true (by omega) fun _ h₂ => absurd h₂ ht
  · simp only [List.mem_cons, forall_eq_or_imp]
    rw [printMembers_reads h.spanned (by omega)]
    constructor
    · rintro ⟨-, hm⟩ - -
      exact hm
    · intro hm
      exact ⟨by omega, hm (by omega) (not_not.mp ht)⟩

theorem stats_reads_filled_iff (memory : ℤ → JsmnTok) (text : CString)
    (hlen : text.length < 2 ^ 31) :
    ReadsFilled memory text ↔ ∀ p, jsmnParse memory text = .ok p → Matching p := by
  rw [ReadsFilled, raftPrintStats]
  cases hp : jsmnParse memory text with
  | error e => exact iff_of_true (fun i hi => nomatch hi) fun p hp => nomatch hp
  | ok p =>
      have hinv := inv_of_jsmnParse hlen hp
      simp only [Except.ok.injEq, exists_eq_left', forall_eq', hinv.room, and_true]
      exact printParsed_reads hinv text

/-- An array which happens to hold zeros. -/
def zeros : ℤ → JsmnTok := fun _ => ⟨.primitive, 0, 0, 0⟩

/-- An object of the strings `a` and `b`, with the separator between them. -/
def twoStrings (separator : UInt8) (h : separator ≠ 0) : CString where
  bytes := [openBrace, quote, 97, quote, separator, quote, 98, quote, closeBrace]
  nonzero := by simp [openBrace, quote, closeBrace, h]

theorem stats_reads_filled_pair :
    (twoStrings colon (by decide)).length < 2 ^ 31 ∧
      ReadsFilled zeros (twoStrings colon (by decide)) := by
  refine ⟨by decide, (stats_reads_filled_iff _ _ (by decide)).mpr ?_⟩
  intro p hp
  have hm : (jsmnParse zeros (twoStrings colon (by decide))).toOption.all
      (fun p => decide (Matching p)) = true := by decide +kernel
  rw [hp] at hm
  exact of_decide_eq_true hm

/-- A string without a value is counted as a member, but is one token and not two. -/
theorem stats_reads_unfilled :
    (twoStrings comma (by decide)).length < 2 ^ 31 ∧
      ¬ ReadsFilled zeros (twoStrings comma (by decide)) := by
  refine ⟨by decide, ?_⟩
  intro h
  obtain ⟨p, hp, hlt, -⟩ := h 3 (by decide +kernel)
  have hn : (jsmnParse zeros (twoStrings comma (by decide))).toOption.map
      JsmnParser.toknext = some 3 := by decide +kernel
  rw [hp] at hn
  exact absurd (Option.some.inj hn) (by omega)

end Libraft.Stats
