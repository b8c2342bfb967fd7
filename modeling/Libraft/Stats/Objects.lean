import Libraft.Stats.Members
import Libraft.Stats.Print

/-!
# Printing an object of strings

The statistics are an object of string keys and string values. The tokens of
its members are, in order, those the loop of `raft_print_stats` expects: the
tokenizer goes back to the object at every comma, and to the key at every colon.

## Implementation notes

The state of the parser inside of the object is described by the members it
has read, with the positions still as an `int`, so that the same description
serves for texts which are too long for one.
-/

namespace Libraft.Stats

open Foundation

/-- A token of the string with that body in the text. -/
def Holds (input : List UInt8) (b : Body) (t : JsmnTok) : Prop :=
  ∃ start size, t = ⟨.string, toInt start, toInt (start + b.bytes.length), size⟩ ∧
    start + b.bytes.length < input.length ∧ (input.drop start).take b.bytes.length = b.bytes

/-- The parser is inside of the object, behind these members. -/
structure Inside (input : List UInt8) (ms : List Member) (p : JsmnParser) : Prop where
  toknext : p.toknext = 1 + 2 * ms.length
  count : p.count = p.toknext
  object : ∃ start < input.length, p.tokens 0 = ⟨.object, toInt start, -1, ms.length⟩
  key : ∀ i m, ms[i]? = some m → Holds input m.key (p.tokens (1 + 2 * i : ℕ))
  val : ∀ i m, ms[i]? = some m → Holds input m.val (p.tokens (1 + 2 * i + 1 : ℕ))
  super : p.toksuper = 0 ∨ (p.tokens p.toksuper).type = .string

theorem Holds.isContainer {input : List UInt8} {b : Body} {t : JsmnTok} (h : Holds input b t) :
    t.isContainer = false := by
  obtain ⟨start, size, rfl, -⟩ := h
  rfl

theorem Holds.isOpen {input : List UInt8} {b : Body} {t : JsmnTok} (h : Holds input b t)
    (hlen : input.length < 2 ^ 32 - 1) : t.isOpen = false := by
  obtain ⟨start, size, rfl, hlt, -⟩ := h
  have hne : toInt (start + b.bytes.length) ≠ -1 := toInt_ne (by omega)
  simp [JsmnTok.isOpen, hne]

theorem holds_of_remains {input rest : List UInt8} {b : Body} {start : ℕ} (size : ℤ)
    (h : Remains input start (b.bytes ++ quote :: rest)) :
    Holds input b ⟨.string, toInt start, toInt (start + b.bytes.length), size⟩ := by
  refine ⟨start, size, rfl, ?_, h.take⟩
  have hlen := h.length
  rw [List.length_append, List.length_cons] at hlen
  omega

theorem Member.remains_key {m : Member} {input rest : List UInt8} {pos : ℕ}
    (h : Remains input pos (m.bytes ++ rest)) :
    ∃ l, Remains input (m.keyStart pos) (m.key.bytes ++ quote :: l) := by
  simp only [Member.bytes, Body.quoted, List.append_assoc, List.cons_append, List.nil_append] at h
  exact ⟨_, h.append.cons⟩

theorem Member.remains_val {m : Member} {input rest : List UInt8} {pos : ℕ}
    (h : Remains input pos (m.bytes ++ rest)) :
    ∃ l, Remains input (m.valStart pos) (m.val.bytes ++ quote :: l) := by
  simp only [Member.bytes, Body.quoted, List.append_assoc, List.cons_append, List.nil_append] at h
  exact ⟨_, h.append.cons.append.cons.append.cons.append.cons⟩

theorem getElem?_concat_cases {α : Type*} {l : List α} {a b : α} {i : ℕ}
    (h : (l ++ [a])[i]? = some b) : i < l.length ∧ l[i]? = some b ∨ i = l.length ∧ b = a := by
  have hi : i < l.length + 1 := by simpa using (List.getElem?_eq_some_iff.mp h).1
  rcases Nat.lt_succ_iff_lt_or_eq.mp hi with hlt | rfl
  · rw [List.getElem?_append_left hlt] at h
    exact Or.inl ⟨hlt, h⟩
  · rw [List.getElem?_concat_length] at h
    exact Or.inr ⟨rfl, (Option.some.inj h).symm⟩

namespace Inside

variable {input rest : List UInt8} {ms : List Member} {p : JsmnParser} {pos : ℕ} {m : Member}

theorem withMember (h : Inside input ms p) (hsuper : p.toksuper = 0)
    (hrem : Remains input pos (m.bytes ++ rest)) :
    Inside input (ms ++ [m]) (p.withMember pos m) := by
  have hnext := h.toknext
  have hne : p.toksuper ≠ p.toknext := by omega
  have hold : ∀ i : ℕ, 0 < i → i < p.toknext → (p.withMember pos m).tokens i = p.tokens i := by
    intro i h₀ hi
    rw [JsmnParser.withMember_tokens_of_lt (by omega),
      JsmnParser.withString_tokens_of_ne (by omega) (by omega)]
  refine ⟨?_, ?_, ?_, ?_, ?_, ?_⟩
  · rw [JsmnParser.withMember_toknext, List.length_append, List.length_singleton]
    omega
  · rw [JsmnParser.withMember_toknext, JsmnParser.withMember_count, h.count]
  · obtain ⟨start, hlt, hobj⟩ := h.object
    have hs : (p.withString (m.keyStart pos) m.key).tokens p.toksuper = _ :=
      JsmnParser.withString_tokens_super hne (by omega)
    rw [hsuper, hobj] at hs
    refine ⟨start, hlt, ?_⟩
    rw [JsmnParser.withMember_tokens_of_lt (by omega), hs]
    simp
  · intro i m' hm
    rcases getElem?_concat_cases hm with ⟨hi, hm⟩ | ⟨rfl, rfl⟩
    · rw [hold _ (by omega) (by omega)]
      exact h.key i m' hm
    · obtain ⟨l, hl⟩ := Member.remains_key hrem
      rw [← h.toknext, JsmnParser.withMember_tokens_key hne]
      exact holds_of_remains 1 hl
  · intro i m' hm
    rcases getElem?_concat_cases hm with ⟨hi, hm⟩ | ⟨rfl, rfl⟩
    · rw [hold _ (by omega) (by omega)]
      exact h.val i m' hm
    · obtain ⟨l, hl⟩ := Member.remains_val hrem
      rw [← h.toknext, Nat.cast_succ, JsmnParser.withMember_tokens_val]
      exact holds_of_remains 0 hl
  · have htoksuper : (p.withMember pos m).toksuper = p.toknext :=
      JsmnParser.withString_toksuper.trans JsmnParser.atColon_withString_toksuper
    rw [htoksuper, JsmnParser.withMember_tokens_key hne]
    exact Or.inr rfl

theorem holds (h : Inside input ms p) {i : ℕ} (h₀ : 0 < i) (hi : i < p.toknext) :
    ∃ b, Holds input b (p.tokens i) := by
  have hnext := h.toknext
  have hlt : (i - 1) / 2 < ms.length := by omega
  have hm := List.getElem?_eq_getElem hlt
  rcases Nat.even_or_odd' i with ⟨k, rfl | rfl⟩
  · have he : 2 * k = 1 + 2 * ((2 * k - 1) / 2) + 1 := by omega
    rw [he]
    exact ⟨_, h.val _ _ hm⟩
  · have he : 2 * k + 1 = 1 + 2 * ((2 * k + 1 - 1) / 2) := by omega
    rw [he]
    exact ⟨_, h.key _ _ hm⟩

/-- Only the object is open, and only it holds others. -/
theorem object_isOpen (h : Inside input ms p) (hlen : input.length < 2 ^ 32 - 1) :
    (p.tokens (0 : ℕ)).isContainer = true ∧ (p.tokens (0 : ℕ)).isOpen = true := by
  obtain ⟨start, hlt, hobj⟩ := h.object
  rw [Nat.cast_zero, hobj]
  refine ⟨rfl, ?_⟩
  simpa [JsmnTok.isOpen] using toInt_ne (by omega)

theorem atComma_eq (h : Inside input ms p) (hlen : input.length < 2 ^ 32 - 1) :
    p.atComma = { p with toksuper := 0 } := by
  obtain ⟨hcont, hopen⟩ := h.object_isOpen hlen
  have hnext := h.toknext
  rw [JsmnParser.atComma]
  rcases h.super with h₀ | hstr
  · rw [h₀, if_pos (by simpa using hcont), ← h₀]
  · rw [if_neg (by simp [JsmnTok.isContainer, hstr])]
    rw [lastBelow_eq_some (i := 0) (by omega) (by rw [hcont, hopen]; rfl) ?_]
    · rfl
    · intro j hj h₀
      obtain ⟨b, hb⟩ := h.holds h₀ hj
      rw [hb.isContainer]
      rfl

/-- At a comma the tokenizer goes back to the object. -/
theorem atComma (h : Inside input ms p) (hlen : input.length < 2 ^ 32 - 1) :
    Inside input ms p.atComma := by
  rw [h.atComma_eq hlen]
  exact ⟨h.toknext, h.count, h.object, h.key, h.val, Or.inl rfl⟩

theorem atComma_toksuper (h : Inside input ms p) (hlen : input.length < 2 ^ 32 - 1) :
    p.atComma.toksuper = 0 := by
  rw [h.atComma_eq hlen]

theorem lastOpen_eq (h : Inside input ms p) (hlen : input.length < 2 ^ 32 - 1) :
    p.lastOpen p.toknext = some 0 := by
  have hnext := h.toknext
  refine lastBelow_eq_some (by omega) (h.object_isOpen hlen).2 ?_
  intro j hj h₀
  obtain ⟨b, hb⟩ := h.holds h₀ hj
  exact hb.isOpen hlen

/-- The object has one member more behind a comma and a member. -/
theorem next (h : Inside input ms p) (hlen : input.length < 2 ^ 32 - 1)
    (hrem : Remains input pos (comma :: (m.bytes ++ rest))) :
    Inside input (ms ++ [m]) (p.atComma.withMember (pos + 1) m) :=
  (h.atComma hlen).withMember (h.atComma_toksuper hlen) hrem.cons

/-- The members behind the first one are read one after the other. -/
theorem scan_further (hlen : input.length < 2 ^ 32 - 1) {tail : List UInt8} (ms' : List Member)
    (h : Inside input ms p) (hrem : Remains input pos (furtherBytes ms' ++ tail))
    (hn : ms.length + ms'.length ≤ 31) :
    ∃ q, scan JsmnParser.iteration pos 0 (furtherBytes ms' ++ tail) p =
      scan JsmnParser.iteration (pos + (furtherBytes ms').length) 0 tail q ∧
        Inside input (ms ++ ms') q := by
  induction ms' generalizing ms p pos with
  | nil => exact ⟨p, rfl, by rwa [List.append_nil]⟩
  | cons m ms' ih =>
      have hnext := (h.atComma hlen).toknext
      rw [List.length_cons] at hn
      rw [furtherBytes_cons, List.cons_append, List.append_assoc] at hrem ⊢
      obtain ⟨q, hscan, hq⟩ := ih (h.next hlen hrem) hrem.cons.append (by simp; omega)
      refine ⟨q, ?_, by simpa using hq⟩
      rw [JsmnParser.scan_comma, JsmnParser.scan_member (by rw [numTokens]; omega), hscan,
        List.length_cons, List.length_append]
      congr 1
      omega

/-- The tokens are used up at the value of the 32nd member. -/
theorem scan_further_full (hlen : input.length < 2 ^ 32 - 1) {tail : List UInt8}
    (ms' : List Member) (h : Inside input ms p)
    (hrem : Remains input pos (furtherBytes ms' ++ tail)) (hms : ms.length ≤ 31)
    (hn : 32 ≤ ms.length + ms'.length) :
    scan JsmnParser.iteration pos 0 (furtherBytes ms' ++ tail) p = .error .nomem := by
  induction ms' generalizing ms p pos with
  | nil =>
      rw [List.length_nil] at hn
      omega
  | cons m ms' ih =>
      have hnext := (h.atComma hlen).toknext
      rw [List.length_cons] at hn
      rw [furtherBytes_cons, List.cons_append, List.append_assoc] at hrem ⊢
      rw [JsmnParser.scan_comma]
      rcases hms.lt_or_eq with hlt | heq
      · rw [JsmnParser.scan_member (by rw [numTokens]; omega)]
        exact ih (h.next hlen hrem) hrem.cons.append (by simp; omega) (by simp; omega)
      · exact JsmnParser.scan_member_full (by rw [numTokens]; omega) m

/-- All members are read if there are tokens for them. -/
theorem scan_members (hlen : input.length < 2 ^ 32 - 1) {tail : List UInt8} (ms : List Member)
    (h : Inside input [] p) (hsuper : p.toksuper = 0)
    (hrem : Remains input pos (membersBytes ms ++ tail)) (hn : ms.length ≤ 31) :
    ∃ q, scan JsmnParser.iteration pos 0 (membersBytes ms ++ tail) p =
      scan JsmnParser.iteration (pos + (membersBytes ms).length) 0 tail q ∧ Inside input ms q := by
  cases ms with
  | nil => exact ⟨p, rfl, h⟩
  | cons m ms =>
      have hnext := h.toknext
      rw [List.length_nil] at hnext
      rw [membersBytes, List.append_assoc] at hrem ⊢
      obtain ⟨q, hscan, hq⟩ := scan_further hlen ms (h.withMember hsuper hrem) hrem.append
        (by simpa [Nat.add_comm] using hn)
      refine ⟨q, ?_, hq⟩
      rw [JsmnParser.scan_member (by rw [numTokens]; omega), hscan, List.length_append,
        Nat.add_assoc]

theorem scan_members_full (hlen : input.length < 2 ^ 32 - 1) {tail : List UInt8}
    (ms : List Member) (h : Inside input [] p) (hsuper : p.toksuper = 0)
    (hrem : Remains input pos (membersBytes ms ++ tail)) (hn : 32 ≤ ms.length) :
    scan JsmnParser.iteration pos 0 (membersBytes ms ++ tail) p = .error .nomem := by
  cases ms with
  | nil => exact absurd hn (by decide)
  | cons m ms =>
      have hnext := h.toknext
      rw [List.length_nil] at hnext
      rw [membersBytes, List.append_assoc] at hrem ⊢
      rw [JsmnParser.scan_member (by rw [numTokens]; omega)]
      exact scan_further_full hlen ms (h.withMember hsuper hrem) hrem.append (by simp)
        (by simpa [Nat.add_comm] using hn)

end Inside

/-- The opening brace. -/
theorem inside_opened {input : List UInt8} {pos : ℕ} (memory : ℤ → JsmnTok)
    (hpos : pos < input.length) :
    ∃ p, (JsmnParser.jsmnInit memory).opened pos .object = .ok p ∧ p.toksuper = 0 ∧
      Inside input [] p :=
  ⟨_, rfl, rfl, rfl, rfl, ⟨pos, hpos, rfl⟩, by simp, by simp, Or.inl rfl⟩

/-- The tokens of an object of strings. -/
structure Tokenized (input : List UInt8) (ms : List Member) (p : JsmnParser) : Prop where
  count : p.count = 1 + 2 * ms.length
  type : (p.tokens 0).type = .object
  size : (p.tokens 0).size = ms.length
  key : ∀ i m, ms[i]? = some m → Holds input m.key (p.tokens (1 + 2 * i : ℕ))
  val : ∀ i m, ms[i]? = some m → Holds input m.val (p.tokens (1 + 2 * i + 1 : ℕ))

/-- The closing brace: no token is open any more. -/
theorem Inside.closed {input : List UInt8} {ms : List Member} {p : JsmnParser} {pos : ℕ}
    (h : Inside input ms p) (hlen : input.length < 2 ^ 32 - 1) (hpos : pos < input.length) :
    ∃ q, p.closed pos .object = .ok q ∧ Tokenized input ms q ∧ q.finish = .ok q := by
  have hnext := h.toknext
  have hstop : toInt (pos + 1) ≠ -1 := toInt_ne (by omega)
  generalize hs : toInt (pos + 1) = stop at hstop
  obtain ⟨start, -, hobj⟩ := h.object
  let r := p.modify (0 : ℕ) fun t => { t with stop := stop }
  have hold : ∀ j : ℕ, 0 < j → r.tokens j = p.tokens j :=
    fun j h₀ => JsmnParser.modify_tokens_of_ne (by omega) _
  have hzero : r.tokens (0 : ℕ) = ⟨.object, toInt start, stop, ms.length⟩ := by
    rw [JsmnParser.modify_tokens_self, Nat.cast_zero, hobj]
  refine ⟨{ r with toksuper := ((r.lastOpen (0 + 1)).map (↑)).getD (-1) }, ?_,
    ⟨?_, ?_, ?_, ?_, ?_⟩, ?_⟩
  · rw [JsmnParser.closed, h.lastOpen_eq hlen]
    dsimp only
    rw [if_neg (by rw [Nat.cast_zero, hobj]; simp), hs]
  · exact h.count.trans hnext
  · exact congrArg JsmnTok.type hzero
  · exact congrArg JsmnTok.size hzero
  · intro i m hm
    exact (hold (1 + 2 * i) (by omega)).symm ▸ h.key i m hm
  · intro i m hm
    exact (hold (1 + 2 * i + 1) (by omega)).symm ▸ h.val i m hm
  · rw [JsmnParser.finish, JsmnParser.lastOpen, lastBelow_eq_none]
    intro j hj
    dsimp only
    rcases j.eq_zero_or_pos with rfl | h₀
    · rw [hzero]
      simp [JsmnTok.isOpen, hstop]
    · rw [hold j h₀]
      obtain ⟨b, hb⟩ := h.holds h₀ hj
      exact hb.isOpen hlen

section Parse

variable (memory : ℤ → JsmnTok) (o : StatsObject)

/-- The text up to the members. -/
theorem exists_inside :
    ∃ p, p.toksuper = 0 ∧ Inside o.bytes [] p ∧
      Remains o.bytes (o.before.bytes.length + 1 + o.inside.bytes.length)
        (membersBytes o.members ++ closeBrace :: o.after.bytes) ∧
      scan JsmnParser.iteration 0 0 o.bytes (JsmnParser.jsmnInit memory) =
        scan JsmnParser.iteration (o.before.bytes.length + 1 + o.inside.bytes.length) 0
          (membersBytes o.members ++ closeBrace :: o.after.bytes) p := by
  have hbytes : o.bytes = o.before.bytes ++ (openBrace :: (o.inside.bytes ++
      (membersBytes o.members ++ closeBrace :: o.after.bytes))) := by
    simp [StatsObject.bytes]
  have hrem : Remains o.bytes (0 + o.before.bytes.length) (openBrace :: (o.inside.bytes ++
      (membersBytes o.members ++ closeBrace :: o.after.bytes))) :=
    Remains.append ⟨by rw [List.drop_zero, hbytes], Nat.zero_le _⟩
  rw [Nat.zero_add] at hrem
  obtain ⟨p, hp, hsuper, hin⟩ := inside_opened memory (Nat.lt_of_succ_le hrem.cons.le)
  refine ⟨p, hsuper, hin, hrem.cons.append, ?_⟩
  rw [hbytes, JsmnParser.scan_blanks, Nat.zero_add, JsmnParser.scan_openBrace hp,
    JsmnParser.scan_blanks]

/-- `jsmn_parse` finds the tokens of all members. -/
theorem jsmnParse_object (hlen : o.text.length < 2 ^ 32 - 1) (hn : o.members.length ≤ 31) :
    ∃ p, jsmnParse memory o.text = .ok p ∧ Tokenized o.text.bytes o.members p := by
  obtain ⟨p, hsuper, hin, hrem, hscan⟩ := exists_inside memory o
  obtain ⟨q, hmembers, hq⟩ := Inside.scan_members hlen o.members hin hsuper hrem hn
  obtain ⟨r, hr, htok, hfinish⟩ := hq.closed hlen (Nat.lt_of_succ_le hrem.append.cons.le)
  refine ⟨r, ?_, htok⟩
  change Except.bind (scan JsmnParser.iteration 0 0 o.bytes _) _ = _
  rw [hscan, hmembers, JsmnParser.scan_closeBrace hr, ← o.after.bytes.append_nil,
    JsmnParser.scan_blanks, scan_nil]
  exact hfinish

theorem jsmnParse_object_full (hlen : o.text.length < 2 ^ 32 - 1)
    (hn : 32 ≤ o.members.length) : jsmnParse memory o.text = .error .nomem := by
  obtain ⟨p, hsuper, hin, hrem, hscan⟩ := exists_inside memory o
  have hfull := Inside.scan_members_full hlen o.members hin hsuper hrem hn
  change Except.bind (scan JsmnParser.iteration 0 0 o.bytes _) _ = _
  rw [hscan, hfull]
  rfl

end Parse

section Print

variable {text : CString} {b : Body} {t : JsmnTok} {ms : List Member} {p : JsmnParser}

theorem Holds.type_eq {input : List UInt8} (h : Holds input b t) : t.type = .string := by
  obtain ⟨start, size, rfl, -⟩ := h
  rfl

/-- In a text shorter than `2 ^ 31` the token gives the body back. -/
theorem Holds.content (h : Holds text.bytes b t) (hlen : text.length < 2 ^ 31) :
    t.content text = some b.bytes := by
  obtain ⟨start, size, rfl, hlt, htake⟩ := h
  have hlt : start + b.bytes.length < 2 ^ 31 := hlt.trans hlen
  rw [JsmnTok.content, toInt_of_lt (by omega), toInt_of_lt hlt]
  rw [if_neg (by push_cast; omega)]
  have hsub : ((start + b.bytes.length : ℕ) - (start : ℕ) : ℤ).toNat = b.bytes.length := by omega
  rw [hsub, Int.toNat_natCast, htake]

/-- The end of a body which is too long for an `int` comes out in front of its start. -/
theorem Holds.content_eq_none (h : Holds text.bytes b t) (hlong : 2 ^ 31 ≤ b.bytes.length)
    (hlen : text.length < 2 ^ 32 - 1) : t.content text = none := by
  obtain ⟨start, size, rfl, hlt, -⟩ := h
  have hlt : start + b.bytes.length < 2 ^ 32 - 1 := hlt.trans hlen
  have hneg : toInt (start + b.bytes.length) - toInt start < 0 := by
    simp only [toInt]
    omega
  exact if_pos hneg

/-- The line of a member. -/
def Member.line (m : Member) : List UInt8 := Stats.line m.key.bytes m.val.bytes

theorem Tokenized.printMembers (h : Tokenized text.bytes ms p) (hlen : text.length < 2 ^ 31)
    {n key : ℕ} (hn : key + n = ms.length) :
    (printMembers text p.tokens n key).output =
        (ms.drop key).map (fun m => fprintf m.line) ∧
      (printMembers text p.tokens n key).outcome = .finished := by
  induction n generalizing key with
  | zero =>
      rw [List.drop_eq_nil_of_le (by omega)]
      exact ⟨rfl, rfl⟩
  | succ n ih =>
      have hm := List.getElem?_eq_getElem (show key < ms.length by omega)
      have hk := h.key key _ hm
      have hv := h.val key _ hm
      rw [printMembers_strings hk.type_eq hv.type_eq (hk.content hlen) (hv.content hlen),
        List.drop_eq_getElem_cons (by omega), List.map_cons]
      have hrest : key + 1 + n = ms.length := by omega
      obtain ⟨hout, hend⟩ := ih hrest
      exact ⟨congrArg _ hout, hend⟩

theorem Tokenized.raftPrintStats {memory : ℤ → JsmnTok} (h : Tokenized text.bytes ms p)
    (hp : jsmnParse memory text = .ok p) :
    raftPrintStats memory (some text) =
      ⟨fprintf header :: (Stats.printMembers text p.tokens ms.length 0).output,
        0 :: (Stats.printMembers text p.tokens ms.length 0).reads,
        (Stats.printMembers text p.tokens ms.length 0).outcome⟩ := by
  have hcount := h.count
  rw [Stats.raftPrintStats, hp]
  dsimp only
  rw [printParsed, if_neg (by omega), if_neg (not_not.mpr h.type), h.size, Int.toNat_natCast]

/-- The bodies of a member are not longer than the text between the braces. -/
theorem StatsObject.length_member (o : StatsObject) {m : Member} (hm : m ∈ o.members) :
    m.key.bytes.length + m.val.bytes.length + 7 ≤ o.text.length := by
  have hmember : m.bytes.length ≤ (membersBytes o.members).length := by
    cases hms : o.members with
    | nil => simp [hms] at hm
    | cons first ms =>
        rw [membersBytes, List.length_append]
        rcases List.mem_cons.mp (hms ▸ hm) with rfl | hm
        · omega
        · have hmem : comma :: m.bytes ∈ ms.map fun m => comma :: m.bytes :=
            List.mem_map_of_mem hm
          have hle := (List.sublist_flatten_of_mem hmem).length_le
          rw [List.length_cons, ← List.flatMap_def] at hle
          rw [furtherBytes]
          omega
  have hbodies : m.key.bytes.length + m.val.bytes.length + 5 ≤ m.bytes.length := by
    simp only [Member.bytes, List.length_append, Body.length_quoted, List.length_singleton]
    omega
  have htext : (membersBytes o.members).length + 2 ≤ o.text.length := by
    simp only [StatsObject.text, StatsObject.bytes, CString.length, List.length_append,
      List.length_singleton]
    omega
  omega

/-- In a text which leaves room for the column of the key every line can be printed. -/
theorem StatsObject.fprintf_line (o : StatsObject) (hlen : o.text.length < 2 ^ 31 - 20)
    {m : Member} (hm : m ∈ o.members) : fprintf m.line = some m.line := by
  have hbodies := o.length_member hm
  have hline := length_line_le m.key.bytes m.val.bytes
  refine fprintf_of_lt ?_
  rw [Member.line]
  omega

end Print

theorem stats_printed (memory : ℤ → JsmnTok) (o : StatsObject)
    (hlen : o.text.length < 2 ^ 31 - 20) :
    (o.members.length ≤ 31 →
      (raftPrintStats memory (some o.text)).output =
          some header :: o.members.map (fun m => some m.line) ∧
        (raftPrintStats memory (some o.text)).outcome = .finished) ∧
    (32 ≤ o.members.length →
      (raftPrintStats memory (some o.text)).output = [] ∧
        (raftPrintStats memory (some o.text)).outcome = .parsingError (-1)) := by
  constructor
  · intro hn
    obtain ⟨p, hp, htok⟩ := jsmnParse_object memory o (by omega) hn
    obtain ⟨hout, hend⟩ := htok.printMembers (by omega) (Nat.zero_add _)
    have hlines : o.members.map (fun m => fprintf m.line) =
        o.members.map fun m => some m.line :=
      List.map_congr_left fun m hm => o.fprintf_line hlen hm
    rw [htok.raftPrintStats hp, hout, List.drop_zero, hlines]
    exact ⟨rfl, hend⟩
  · intro hn
    have hp := jsmnParse_object_full memory o (by omega) hn
    rw [raftPrintStats, hp]
    exact ⟨rfl, rfl⟩

theorem isBody_replicate (n : ℕ) : IsBody (List.replicate n 97) := by
  induction n with
  | zero => exact .nil
  | succ n ih => exact .byte (by decide) (by decide) (by decide) ih

/-- An object with one member, whose key is the letter `a` so many times and whose value is
empty, without blanks. -/
def oneMember (n : ℕ) : StatsObject :=
  let noBlanks : Blanks := ⟨[], by simp⟩
  ⟨noBlanks, noBlanks,
    [⟨noBlanks, ⟨_, isBody_replicate n⟩, noBlanks, noBlanks, ⟨[], .nil⟩, noBlanks⟩], noBlanks⟩

theorem length_oneMember (n : ℕ) : (oneMember n).text.length = n + 7 := by
  simp [oneMember, StatsObject.text, StatsObject.bytes, CString.length, membersBytes, furtherBytes,
    Member.bytes, Body.quoted]

theorem stats_printed_one :
    (oneMember 1).text.length < 2 ^ 31 - 20 ∧
      (raftPrintStats zeros (some (oneMember 1).text)).output =
        [some header, some (line [97] [])] := by
  have hlen : (oneMember 1).text.length < 2 ^ 31 - 20 := by
    rw [length_oneMember]
    decide
  exact ⟨hlen, ((stats_printed zeros (oneMember 1) hlen).1 (by decide)).1⟩

/-- A key which is too long for an `int` is not printed. -/
theorem stats_not_printed_long :
    (oneMember (2 ^ 31)).members.length = 1 ∧
      (raftPrintStats zeros (some (oneMember (2 ^ 31)).text)).output = [some header] ∧
      (raftPrintStats zeros (some (oneMember (2 ^ 31)).text)).outcome = .lengthError := by
  have hlen : (oneMember (2 ^ 31)).text.length = 2 ^ 31 + 7 := length_oneMember _
  obtain ⟨p, hp, htok⟩ := jsmnParse_object zeros (oneMember (2 ^ 31)) (by omega) (by decide)
  have hk := htok.key 0 _ rfl
  have hv := htok.val 0 _ rfl
  have hkS := hk.content_eq_none List.length_replicate.ge (by omega)
  have hpr : printMembers _ p.tokens 1 0 = _ :=
    printMembers_lengthError hk.type_eq hv.type_eq hkS
  rw [htok.raftPrintStats hp]
  change 1 = 1 ∧ fprintf header :: (printMembers _ _ 1 0).output = _ ∧
    (printMembers _ _ 1 0).outcome = _
  rw [hpr]
  exact ⟨rfl, rfl, rfl⟩

end Libraft.Stats
