import Libraft.Stats.Tokens

/-!
# Members of an object of strings

What a JSON object of string keys and string values looks like, and what the
tokenizer does with one of its members: two tokens for the strings, the object
and the key grow by one, and the key is left as the token to be filled in.

## Implementation notes

The text is given by what stands in it: any blanks are allowed wherever JSON
allows them. The bytes of the bodies are not decoded; the tokenizer only finds
their ends.
-/

namespace Libraft.Stats

open Foundation

/-- The body of a JSON string: bytes other than NUL, quote and backslash, and escapes. -/
inductive IsBody : List UInt8 → Prop where
  | nil : IsBody []
  | byte {c : UInt8} {l : List UInt8} (h₀ : c ≠ 0) (hq : c ≠ quote) (hb : c ≠ backslash)
      (h : IsBody l) : IsBody (c :: l)
  | escape {c : UInt8} {l : List UInt8} (hc : isEscape c = true) (h : IsBody l) :
      IsBody (backslash :: c :: l)
  | unicode {a b c d : UInt8} {l : List UInt8} (ha : isHex a = true) (hb : isHex b = true)
      (hc : isHex c = true) (hd : isHex d = true) (h : IsBody l) :
      IsBody (backslash :: 117 :: a :: b :: c :: d :: l)

/-- The body of a JSON string. -/
structure Body where
  bytes : List UInt8
  valid : IsBody bytes

/-- White space. -/
structure Blanks where
  bytes : List UInt8
  blank : ∀ c ∈ bytes, isBlank c = true

/-- A key and a value, with the blanks around them. -/
structure Member where
  before : Blanks
  key : Body
  afterKey : Blanks
  beforeVal : Blanks
  val : Body
  after : Blanks

/-- An object of strings, with the blanks around its braces. -/
structure StatsObject where
  before : Blanks
  inside : Blanks
  members : List Member
  after : Blanks

/-- The string in quotes. -/
def Body.quoted (b : Body) : List UInt8 := quote :: (b.bytes ++ [quote])

theorem Body.length_quoted (b : Body) : b.quoted.length = b.bytes.length + 2 := by
  simp [Body.quoted]

/-- The text of a member. -/
def Member.bytes (m : Member) : List UInt8 :=
  m.before.bytes ++ m.key.quoted ++ m.afterKey.bytes ++ [colon] ++ m.beforeVal.bytes ++
    m.val.quoted ++ m.after.bytes

/-- The text of the members behind the first one. -/
def furtherBytes (ms : List Member) : List UInt8 := ms.flatMap fun m => comma :: m.bytes

theorem furtherBytes_cons (m : Member) (ms : List Member) :
    furtherBytes (m :: ms) = comma :: (m.bytes ++ furtherBytes ms) :=
  List.flatMap_cons

/-- The text of the members, with commas between them. -/
def membersBytes : List Member → List UInt8
  | [] => []
  | m :: ms => m.bytes ++ furtherBytes ms

/-- The bytes of the text of an object. -/
def StatsObject.bytes (o : StatsObject) : List UInt8 :=
  o.before.bytes ++ [openBrace] ++ o.inside.bytes ++ membersBytes o.members ++ [closeBrace] ++
    o.after.bytes

theorem IsBody.nonzero {l : List UInt8} (h : IsBody l) : ∀ c ∈ l, c ≠ 0 := by
  induction h with
  | nil => simp
  | byte h₀ _ _ _ ih => simpa [h₀] using ih
  | @escape c l hc _ ih =>
      have hc₀ : c ≠ 0 := by
        rintro rfl
        exact absurd hc (by decide)
      simpa [backslash, hc₀] using ih
  | @unicode a b c d l ha hb hc hd _ ih =>
      have hex : ∀ {c : UInt8}, isHex c = true → c ≠ 0 := by
        rintro c hc rfl
        exact absurd hc (by decide)
      simpa [backslash, hex ha, hex hb, hex hc, hex hd] using ih

theorem Blanks.nonzero (w : Blanks) : ∀ c ∈ w.bytes, c ≠ 0 := by
  rintro c hc rfl
  exact absurd (w.blank 0 hc) (by decide)

theorem Member.nonzero (m : Member) : ∀ c ∈ m.bytes, c ≠ 0 := by
  have hq : quote ≠ 0 := by decide
  have hc : colon ≠ 0 := by decide
  simp only [Member.bytes, Body.quoted, List.mem_append, List.mem_cons, List.not_mem_nil, or_false]
  have := m.before.nonzero
  have := m.key.valid.nonzero
  have := m.afterKey.nonzero
  have := m.beforeVal.nonzero
  have := m.val.valid.nonzero
  have := m.after.nonzero
  grind

theorem furtherBytes_nonzero (ms : List Member) : ∀ c ∈ furtherBytes ms, c ≠ 0 := by
  intro c hc
  obtain ⟨m, -, hcm⟩ := List.mem_flatMap.mp hc
  rcases List.mem_cons.mp hcm with rfl | hcm
  · decide
  · exact m.nonzero c hcm

theorem membersBytes_nonzero (ms : List Member) : ∀ c ∈ membersBytes ms, c ≠ 0 := by
  cases ms with
  | nil => exact fun c hc => nomatch hc
  | cons m ms =>
      intro c hc
      rcases List.mem_append.mp hc with hc | hc
      · exact m.nonzero c hc
      · exact furtherBytes_nonzero ms c hc

theorem StatsObject.nonzero (o : StatsObject) : ∀ c ∈ o.bytes, c ≠ 0 := by
  have ho : openBrace ≠ 0 := by decide
  have hc : closeBrace ≠ 0 := by decide
  have hbefore := o.before.nonzero
  have hinside := o.inside.nonzero
  have hmembers := membersBytes_nonzero o.members
  have hafter := o.after.nonzero
  simp only [StatsObject.bytes, List.mem_append, List.mem_singleton]
  grind

/-- The text of an object. -/
def StatsObject.text (o : StatsObject) : CString := ⟨o.bytes, o.nonzero⟩

theorem stringLength_body {l : List UInt8} (h : IsBody l) (rest : List UInt8) :
    stringLength .plain (l ++ quote :: rest) = .ok l.length := by
  have hbq : backslash ≠ quote := by decide
  have hu : isEscape 117 = false := by decide
  induction h with
  | nil => simp [stringLength]
  | byte _ hq hb _ ih => simp [stringLength, hq, hb, ih, Except.map]
  | escape hc _ ih => simp [stringLength, hbq, hc, ih, Except.map]
  | unicode ha hb hc hd _ ih => simp [stringLength, hbq, hu, ha, hb, hc, hd, ih, Except.map]

/-- Where the key of a member begins. -/
def Member.keyStart (m : Member) (pos : ℕ) : ℕ := pos + m.before.bytes.length + 1

/-- Where the value of a member begins. -/
def Member.valStart (m : Member) (pos : ℕ) : ℕ :=
  m.keyStart pos + m.key.bytes.length + 1 + m.afterKey.bytes.length + 1 +
    m.beforeVal.bytes.length + 1

namespace JsmnParser

variable {p q : JsmnParser} {pos : ℕ} {rest : List UInt8}

theorem iteration_blank {c : UInt8} (hc : isBlank c = true) :
    iteration pos c rest p = .ok (0, p) := by
  have h : c = 9 ∨ c = 13 ∨ c = 10 ∨ c = 32 := by simpa [isBlank, or_assoc] using hc
  rcases h with rfl | rfl | rfl | rfl <;> rfl

theorem scan_blanks (w : Blanks) :
    scan iteration pos 0 (w.bytes ++ rest) p = scan iteration (pos + w.bytes.length) 0 rest p :=
  scan_idle (fun c hc _ _ => iteration_blank (w.blank c hc)) rest

theorem scan_colon :
    scan iteration pos 0 ([colon] ++ rest) p = scan iteration (pos + 1) 0 rest p.atColon :=
  scan_cons_ok rfl

theorem scan_comma :
    scan iteration pos 0 (comma :: rest) p = scan iteration (pos + 1) 0 rest p.atComma :=
  scan_cons_ok rfl

theorem scan_openBrace (h : p.opened pos .object = .ok q) :
    scan iteration pos 0 (openBrace :: rest) p = scan iteration (pos + 1) 0 rest q := by
  refine scan_cons_ok ?_
  change (p.opened pos .object).map _ = _
  rw [h]
  rfl

theorem scan_closeBrace (h : p.closed pos .object = .ok q) :
    scan iteration pos 0 (closeBrace :: rest) p = scan iteration (pos + 1) 0 rest q := by
  refine scan_cons_ok ?_
  change (p.closed pos .object).map _ = _
  rw [h]
  rfl

/-- The parser behind a string whose body begins at `start`. -/
def withString (p : JsmnParser) (start : ℕ) (b : Body) : JsmnParser :=
  (p.push ⟨.string, toInt start, toInt (start + b.bytes.length), 0⟩).counted

@[simp] theorem withString_toknext (start : ℕ) (b : Body) :
    (p.withString start b).toknext = p.toknext + 1 :=
  growSuper_toknext _

@[simp] theorem atColon_toknext : p.atColon.toknext = p.toknext := rfl

@[simp] theorem atColon_tokens : p.atColon.tokens = p.tokens := rfl

theorem scan_string (h : p.toknext < numTokens) (b : Body) :
    scan iteration pos 0 (b.quoted ++ rest) p =
      scan iteration (pos + b.quoted.length) 0 rest (p.withString (pos + 1) b) := by
  have hs : p.jsmnParseString pos (b.bytes ++ quote :: rest) =
      .ok (b.bytes.length + 1,
        p.push ⟨.string, toInt (pos + 1), toInt (pos + 1 + b.bytes.length), 0⟩) := by
    rw [jsmnParseString, stringLength_body b.valid, jsmnAllocToken_of_lt h]
    simp only [jsmnFillToken_push]
  have hi : iteration pos quote (b.bytes ++ quote :: rest) p =
      .ok (b.bytes.length + 1, p.withString (pos + 1) b) := by
    change (p.jsmnParseString pos _).map _ = _
    rw [hs]
    rfl
  calc scan iteration pos 0 (b.quoted ++ rest) p
      = scan iteration pos 0 (quote :: (b.bytes ++ quote :: rest)) p := by simp [Body.quoted]
    _ = scan iteration (pos + 1) (b.bytes.length + 1) (b.bytes ++ quote :: rest)
          (p.withString (pos + 1) b) := scan_cons_ok hi
    _ = scan iteration (pos + 1) (b.bytes ++ [quote]).length (b.bytes ++ [quote] ++ rest)
          (p.withString (pos + 1) b) := by simp
    _ = scan iteration (pos + 1 + (b.bytes ++ [quote]).length) 0 rest
          (p.withString (pos + 1) b) := scan_skip _ _
    _ = scan iteration (pos + b.quoted.length) 0 rest (p.withString (pos + 1) b) := by
        rw [Body.quoted, List.length_cons, Nat.add_assoc, Nat.add_comm 1]

theorem scan_string_full (h : numTokens ≤ p.toknext) (b : Body) :
    scan iteration pos 0 (b.quoted ++ rest) p = .error .nomem := by
  have hs : p.jsmnParseString pos (b.bytes ++ quote :: rest) = .error .nomem := by
    rw [jsmnParseString, stringLength_body b.valid, jsmnAllocToken_of_le h]
  have hi : iteration pos quote (b.bytes ++ quote :: rest) p = .error .nomem := by
    change (p.jsmnParseString pos _).map _ = _
    rw [hs]
    rfl
  calc scan iteration pos 0 (b.quoted ++ rest) p
      = scan iteration pos 0 (quote :: (b.bytes ++ quote :: rest)) p := by simp [Body.quoted]
    _ = .error .nomem := scan_cons_error hi

/-- The parser behind a member. -/
def withMember (p : JsmnParser) (pos : ℕ) (m : Member) : JsmnParser :=
  (p.withString (m.keyStart pos) m.key).atColon.withString (m.valStart pos) m.val

theorem scan_member (h : p.toknext + 1 < numTokens) (m : Member) :
    scan iteration pos 0 (m.bytes ++ rest) p =
      scan iteration (pos + m.bytes.length) 0 rest (p.withMember pos m) := by
  have hval : pos + m.before.bytes.length + m.key.quoted.length + m.afterKey.bytes.length + 1 +
      m.beforeVal.bytes.length + 1 = m.valStart pos := by
    rw [Member.valStart, Member.keyStart, Body.length_quoted]
    omega
  have hend : pos + m.before.bytes.length + m.key.quoted.length + m.afterKey.bytes.length + 1 +
      m.beforeVal.bytes.length + m.val.quoted.length + m.after.bytes.length =
      pos + m.bytes.length := by
    simp only [Member.bytes, List.length_append, List.length_singleton]
    omega
  rw [← hend, withMember, ← hval, Member.keyStart]
  simp only [Member.bytes, List.append_assoc]
  rw [scan_blanks, scan_string (by omega), scan_blanks, scan_colon, scan_blanks,
    scan_string (by simpa using h), scan_blanks]

theorem scan_member_full (h : p.toknext + 1 = numTokens) (m : Member) :
    scan iteration pos 0 (m.bytes ++ rest) p = .error .nomem := by
  simp only [Member.bytes, List.append_assoc]
  rw [scan_blanks, scan_string (by omega), scan_blanks, scan_colon, scan_blanks,
    scan_string_full (by simpa using h.ge)]

section Stores

variable {start : ℕ} {b : Body}

theorem withString_tokens_self (h : p.toksuper ≠ p.toknext) :
    (p.withString start b).tokens p.toknext =
      ⟨.string, toInt start, toInt (start + b.bytes.length), 0⟩ :=
  (growSuper_tokens_of_ne (p := p.push _) h.symm).trans (push_tokens_self p _)

theorem withString_tokens_super (h : p.toksuper ≠ p.toknext) (h₁ : p.toksuper ≠ -1) :
    (p.withString start b).tokens p.toksuper =
      { p.tokens p.toksuper with size := (p.tokens p.toksuper).size + 1 } := by
  rw [← push_tokens_of_ne h ⟨.string, toInt start, toInt (start + b.bytes.length), 0⟩]
  exact growSuper_tokens_self h₁

theorem withString_tokens_of_ne {i : ℤ} (h : i ≠ p.toknext) (h₁ : i ≠ p.toksuper) :
    (p.withString start b).tokens i = p.tokens i :=
  (growSuper_tokens_of_ne (p := p.push _) h₁).trans (push_tokens_of_ne h _)

@[simp] theorem withString_toksuper : (p.withString start b).toksuper = p.toksuper :=
  growSuper_toksuper _

@[simp] theorem withMember_toknext (m : Member) :
    (p.withMember pos m).toknext = p.toknext + 2 := by
  simp [withMember]

@[simp] theorem withMember_count (m : Member) : (p.withMember pos m).count = p.count + 2 := by
  simp [withMember, withString, counted, push, atColon]

variable {m : Member}

theorem atColon_withString_toksuper :
    (p.withString start b).atColon.toksuper = p.toknext := by
  rw [atColon, withString_toknext]
  push_cast
  omega

theorem atColon_withString_toknext :
    ((p.withString start b).atColon.toknext : ℤ) = p.toknext + 1 := by
  rw [atColon_toknext, withString_toknext, Nat.cast_succ]

/-- What stands in front of a member keeps its place, and the object grows. -/
theorem withMember_tokens_of_lt {i : ℤ} (hi : i < p.toknext) :
    (p.withMember pos m).tokens i = (p.withString (m.keyStart pos) m.key).tokens i := by
  refine withString_tokens_of_ne ?_ ?_
  · rw [atColon_withString_toknext]
    omega
  · rw [atColon_withString_toksuper]
    omega

theorem withMember_tokens_key (h : p.toksuper ≠ p.toknext) :
    (p.withMember pos m).tokens p.toknext =
      ⟨.string, toInt (m.keyStart pos), toInt (m.keyStart pos + m.key.bytes.length), 1⟩ := by
  have hs : (p.withMember pos m).tokens (p.withString (m.keyStart pos) m.key).atColon.toksuper =
      _ := withString_tokens_super
    (by rw [atColon_withString_toksuper, atColon_withString_toknext]; omega)
    (by rw [atColon_withString_toksuper]; omega)
  rw [atColon_withString_toksuper, atColon_tokens, withString_tokens_self h] at hs
  exact hs

theorem withMember_tokens_val :
    (p.withMember pos m).tokens (p.toknext + 1) =
      ⟨.string, toInt (m.valStart pos), toInt (m.valStart pos + m.val.bytes.length), 0⟩ := by
  rw [← atColon_withString_toknext]
  refine withString_tokens_self ?_
  rw [atColon_withString_toksuper, atColon_withString_toknext]
  omega

end Stores

end JsmnParser

end Libraft.Stats
