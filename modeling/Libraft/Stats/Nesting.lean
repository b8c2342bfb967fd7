import Libraft.Foundation.Nesting
import Libraft.Stats.Members
import Libraft.Stats.Print

/-!
# The tokens of an accepted text

What `jsmn_parse` accepts has been cut into nested parts: every token is a part
of the text, with the brackets or quotes which belong to its type, and of two
tokens the later one stands behind the earlier one or inside of it.

## Implementation notes

`Round` says once what a round of the loop can do. The parser looks for the
token to be closed from above, which is why the tokens behind it are closed.
-/

namespace Libraft.Stats

open Foundation

/-- The brackets of the types which hold other tokens. -/
def JsmnType.brackets : JsmnType → Option (UInt8 × UInt8)
  | .object => some (openBrace, closeBrace)
  | .array => some (openBracket, closeBracket)
  | .string | .primitive => none

theorem JsmnTok.isContainer_of_brackets {t : JsmnTok} {b : UInt8 × UInt8}
    (h : t.type.brackets = some b) : t.isContainer = true := by
  cases ht : t.type <;> simp_all [JsmnType.brackets, JsmnTok.isContainer]

/-- What a byte means to the tokenizer. -/
inductive Mark where
  | opening
  | closing
  | quote
  | blank
  | colon
  | comma
  | plain

def mark (c : UInt8) : Mark :=
  if c = openBrace ∨ c = openBracket then .opening
  else if c = closeBrace ∨ c = closeBracket then .closing
  else if c = quote then .quote
  else if isBlank c then .blank
  else if c = colon then .colon
  else if c = comma then .comma
  else .plain

section Text

variable {l : List UInt8} {n : ℕ}

/-- The hexadecimal digits of an escape. -/
theorem of_stringLength_hex {m : ℕ} (h : stringLength (.hex m) l = .ok n) :
    ∃ digits rest k, l = digits ++ rest ∧ digits.length = m + 1 ∧ (∀ d ∈ digits, isHex d = true) ∧
      stringLength .plain rest = .ok k ∧ n = k + (m + 1) := by
  induction m generalizing l n with
  | zero =>
      cases l with
      | nil => cases h
      | cons d rest =>
          rw [stringLength] at h
          split_ifs at h with hd
          obtain ⟨k, hk, rfl⟩ := map_eq_ok h
          exact ⟨[d], rest, k, rfl, rfl, by simpa using hd, hk, rfl⟩
  | succ m ih =>
      cases l with
      | nil => cases h
      | cons d rest =>
          rw [stringLength] at h
          split_ifs at h with hd
          obtain ⟨k, hk, hn⟩ := map_eq_ok h
          obtain ⟨digits, rest', k', hl, hlen, hhex, hk', hkk'⟩ := ih hk
          refine ⟨d :: digits, rest', k', by rw [hl]; rfl, by rw [List.length_cons, hlen],
            by simpa [hd] using hhex, hk', by omega⟩

/-- What a string holds in front of its closing quote. -/
theorem body_of_stringLength (hz : ∀ b ∈ l, b ≠ 0) (h : stringLength .plain l = .ok n) :
    ∃ body rest, l = body ++ quote :: rest ∧ IsBody body ∧ body.length = n := by
  induction hlen : l.length using Nat.strong_induction_on generalizing l n with
  | _ len ih =>
      cases l with
      | nil => cases h
      | cons c rest =>
          rw [stringLength] at h
          split_ifs at h with hq hb
          · exact ⟨[], rest, by rw [hq]; rfl, .nil, Except.ok.inj h⟩
          · -- a backslash: the escape is passed over as a whole
            obtain ⟨k, hk, rfl⟩ := map_eq_ok h
            cases rest with
            | nil => cases hk
            | cons d rest =>
                rw [stringLength] at hk
                split_ifs at hk with he hu
                · obtain ⟨k', hk', rfl⟩ := map_eq_ok hk
                  obtain ⟨body, tail, rfl, hbody, rfl⟩ := ih rest.length
                    (by rw [← hlen, List.length_cons, List.length_cons]; omega)
                    (fun b hb => hz b (by simp [hb])) hk' rfl
                  exact ⟨c :: d :: body, tail, rfl, hb ▸ .escape he hbody, rfl⟩
                · obtain ⟨k', hk', rfl⟩ := map_eq_ok hk
                  obtain ⟨digits, rest', k'', rfl, hdigits, hhex, hk'', rfl⟩ :=
                    of_stringLength_hex hk'
                  obtain ⟨body, tail, rfl, hbody, rfl⟩ := ih rest'.length
                    (by rw [← hlen, List.length_cons, List.length_cons, List.length_append]; omega)
                    (fun b hb => hz b (by simp [hb])) hk'' rfl
                  obtain ⟨w, x, y, z, rfl⟩ := List.length_eq_four.mp hdigits
                  refine ⟨c :: d :: w :: x :: y :: z :: body, tail, rfl, ?_, rfl⟩
                  rw [hb, hu]
                  exact .unicode (hhex w (by simp)) (hhex x (by simp)) (hhex y (by simp))
                    (hhex z (by simp)) hbody
          · obtain ⟨k, hk, rfl⟩ := map_eq_ok h
            obtain ⟨body, tail, rfl, hbody, rfl⟩ := ih rest.length
              (by rw [← hlen, List.length_cons]; omega) (fun b hb => hz b (by simp [hb])) hk rfl
            exact ⟨c :: body, tail, rfl, .byte (hz c (by simp)) hq hb hbody, rfl⟩

/-- A byte of a primitive. -/
def isPlain (c : UInt8) : Bool := 32 ≤ c && c < 127 && !endsPrimitive c

theorem plain_of_primitiveLength (h : primitiveLength l = .ok n) :
    ∀ c ∈ l.take n, isPlain c = true := by
  induction l generalizing n with
  | nil => simp
  | cons c rest ih =>
      rw [primitiveLength] at h
      split_ifs at h with he hr
      · rw [← Except.ok.inj h, List.take_zero]
        exact fun d hd => absurd hd List.not_mem_nil
      · obtain ⟨k, hk, rfl⟩ := map_eq_ok h
        rw [not_or, UInt8.not_lt, UInt8.not_le] at hr
        rw [List.take_succ_cons]
        intro d hd
        rcases List.mem_cons.mp hd with rfl | hd
        · simp [isPlain, hr.1, hr.2, he]
        · exact ih hk d hd

theorem endsPrimitive_of_mark {c : UInt8} (h : mark c = .plain) : endsPrimitive c = false := by
  unfold mark at h
  split_ifs at h with h₁ h₂ h₃ h₄ h₅ h₆
  rw [not_or] at h₂
  simp [endsPrimitive, h₂, h₄, h₅, h₆]

theorem eq_quote_of_mark {c : UInt8} (h : mark c = .quote) : c = quote := by
  unfold mark at h
  split_ifs at h with h₁ h₂ h₃
  exact h₃

theorem pos_of_primitiveLength {c : UInt8} (hc : endsPrimitive c = false)
    (h : primitiveLength (c :: l) = .ok n) : 0 < n := by
  rw [primitiveLength, if_neg (by simp [hc])] at h
  split_ifs at h
  obtain ⟨k, -, rfl⟩ := map_eq_ok h
  exact k.succ_pos

end Text

/-- A part of the text with its brackets. -/
def Bracketed (input : List UInt8) (b : UInt8 × UInt8) (start stop : ℕ) : Prop :=
  start + 1 < stop ∧ input[start]? = some b.1 ∧ input[stop - 1]? = some b.2

/-- What a token of some type stands for in the text. -/
def JsmnType.Shows (input : List UInt8) (start stop : ℕ) : JsmnType → Prop
  | .object => Bracketed input (openBrace, closeBrace) start stop
  | .array => Bracketed input (openBracket, closeBracket) start stop
  | .string => 0 < start ∧ input[start - 1]? = some quote ∧ input[stop]? = some quote ∧
      IsBody ((input.drop start).take (stop - start))
  | .primitive => start < stop ∧ ∀ c ∈ (input.drop start).take (stop - start), isPlain c = true

theorem JsmnType.shows_of_brackets {input : List UInt8} {type : JsmnType} {b : UInt8 × UInt8}
    {start stop : ℕ} (hb : type.brackets = some b) (h : Bracketed input b start stop) :
    type.Shows input start stop := by
  cases type <;> cases hb <;> exact h

/-- A token which is a part of the text. -/
def JsmnTok.IsPart (input : List UInt8) (t : JsmnTok) : Prop :=
  ∃ start stop : ℕ, t.start = start ∧ t.stop = stop ∧ start ≤ stop ∧ stop ≤ input.length ∧
    t.type.Shows input start stop

/-- A token whose closing bracket is still to come. -/
def JsmnTok.IsBegun (input : List UInt8) (t : JsmnTok) : Prop :=
  ∃ (start : ℕ) (b : UInt8 × UInt8), t.start = start ∧ t.stop = -1 ∧
    t.type.brackets = some b ∧ input[start]? = some b.1

theorem JsmnTok.isOpen_iff {input : List UInt8} {t : JsmnTok}
    (h : t.IsPart input ∨ t.IsBegun input) : t.isOpen = true ↔ t.stop = -1 := by
  have hstart : t.start ≠ -1 := by
    rcases h with ⟨start, _, h, -⟩ | ⟨start, _, h, -⟩ <;> omega
  simp [JsmnTok.isOpen, hstart]

theorem JsmnTok.isBegun_of_stop {input : List UInt8} {t : JsmnTok}
    (h : t.IsPart input ∨ t.IsBegun input) (ht : t.stop = -1) : t.IsBegun input := by
  rcases h with ⟨_, stop, -, h, -⟩ | h
  · omega
  · exact h

/-- The interval of a token. -/
def JsmnTok.span (t : JsmnTok) : Span ℤ where
  start := t.start
  stop := if t.stop = -1 then none else some t.stop
  leaf := !t.isContainer

namespace JsmnParser

variable {p q : JsmnParser} {pos skip : ℕ} {c : UInt8} {rest : List UInt8}

/-- `-1`, or one of the tokens which have been filled. -/
def Within (p : JsmnParser) (super : ℤ) : Prop := -1 ≤ super ∧ super < p.toknext

/-- An index as a value of `toksuper`. -/
def superOf (i : Option ℕ) : ℤ := (i.map (↑)).getD (-1)

/-- The parser after the closing bracket of token `i`. -/
def closeAt (p : JsmnParser) (pos i : ℕ) : JsmnParser :=
  let q := p.modify i fun t => { t with stop := toInt (pos + 1) }
  { q with toksuper := superOf (q.lastOpen (i + 1)) }

theorem within_superOf {i : Option ℕ} (h : ∀ j ∈ i, j < p.toknext) : p.Within (superOf i) := by
  cases i with
  | none => exact ⟨le_rfl, by simp only [superOf, Option.map_none, Option.getD_none]; omega⟩
  | some j =>
      have hj := h j rfl
      constructor <;> simp only [superOf, Option.map_some, Option.getD_some] <;> omega

/-- What a round of the loop at a byte can do. -/
inductive Round (pos : ℕ) (c : UInt8) (rest : List UInt8) (p : JsmnParser) :
    ℕ → JsmnParser → Prop
  | opened {type : JsmnType} {c' : UInt8} (hm : mark c = .opening)
      (hb : type.brackets = some (c, c')) :
      Round pos c rest p 0
        { (p.push ⟨type, toInt pos, -1, 0⟩).counted with toksuper := p.toknext }
  | closed {i : ℕ} {c' : UInt8} (hm : mark c = .closing) (hi : p.lastOpen p.toknext = some i)
      (hb : (p.tokens i).type.brackets = some (c', c)) : Round pos c rest p 0 (p.closeAt pos i)
  | string {n : ℕ} (hm : mark c = .quote) (hn : stringLength .plain rest = .ok n) :
      Round pos c rest p (n + 1)
        (p.push ⟨.string, toInt (pos + 1), toInt (pos + 1 + n), 0⟩).counted
  | primitive {n : ℕ} (hm : mark c = .plain) (hn : primitiveLength (c :: rest) = .ok n) :
      Round pos c rest p (n - 1) (p.push ⟨.primitive, toInt pos, toInt (pos + n), 0⟩).counted
  | blank (hm : mark c = .blank) : Round pos c rest p 0 p
  | colon (hm : mark c = .colon) : Round pos c rest p 0 p.atColon
  | comma (hm : mark c = .comma) : Round pos c rest p 0 p.atComma

/-- The token which grows is not the new one. -/
theorem modify_growSuper_push (hs : p.Within p.toksuper) (t : JsmnTok) (f : JsmnTok → JsmnTok) :
    (p.push t).growSuper.modify p.toknext f = (p.push (f t)).growSuper := by
  by_cases h : p.toksuper = -1
  · simp only [growSuper, push, modify, h, ne_eq, not_true_eq_false, if_false, Function.update_self,
      Function.update_idem]
  · have hne : p.toksuper ≠ p.toknext := hs.2.ne
    simp only [growSuper, push, modify, h, ne_eq, not_false_eq_true, if_true,
      Function.update_of_ne hne, Function.update_of_ne hne.symm, Function.update_self]
    rw [Function.update_comm hne.symm, Function.update_idem, Function.update_comm hne]

/-- The opening of an object or an array is one more token, which becomes the one to be
filled in. -/
theorem opened_eq_ok {type : JsmnType} (hs : p.Within p.toksuper) (h : p.opened pos type = .ok q) :
    q = { (p.push ⟨type, toInt pos, -1, 0⟩).counted with toksuper := p.toknext } := by
  rw [JsmnParser.opened] at h
  cases ha : p.jsmnAllocToken with
  | none =>
      rw [ha] at h
      cases h
  | some r =>
      obtain ⟨-, rfl⟩ := of_jsmnAllocToken ha
      simp only [ha, Except.ok.injEq, modify_growSuper_push hs] at h
      exact h.symm

theorem closed_eq_ok {type : JsmnType} (h : p.closed pos type = .ok q) :
    ∃ i, p.lastOpen p.toknext = some i ∧ (p.tokens i).type = type ∧ q = p.closeAt pos i := by
  rw [JsmnParser.closed] at h
  cases hi : p.lastOpen p.toknext with
  | none =>
      rw [hi] at h
      cases h
  | some i =>
      simp only [hi] at h
      split_ifs at h with ht
      exact ⟨i, rfl, not_not.mp ht, (Except.ok.inj h).symm⟩

/-- The search of a comma leads to a token or leaves things as they are. -/
theorem atComma_within (hs : p.Within p.toksuper) : p.atComma.Within p.atComma.toksuper := by
  rw [atComma]
  split_ifs
  · exact hs
  · split
    · exact hs
    · next i hi => exact ⟨by dsimp only; omega, Int.ofNat_lt.mpr (of_lastBelow_eq_some hi).1⟩

theorem atComma_eq (p : JsmnParser) : p.atComma = { p with toksuper := p.atComma.toksuper } := by
  rw [atComma]
  split_ifs
  · rfl
  · split <;> rfl

/-- How far a string or a primitive takes the loop. -/
theorem filled_skip {len : Except JsmnErr ℕ} {f : ℕ → ℕ} {g : ℕ → JsmnParser → JsmnParser}
    {r : ℕ × JsmnParser} {n : ℕ} (hn : len = .ok n)
    (h : (match len with
      | .error e => .error e
      | .ok n =>
        match p.jsmnAllocToken with
        | none => .error .nomem
        | some q => .ok (f n, g n q)) = Except.ok r) : r.1 = f n := by
  subst hn
  cases hq : p.jsmnAllocToken with
  | none =>
      rw [hq] at h
      cases h
  | some q =>
      simp only [hq, Except.ok.injEq] at h
      rw [← h]

theorem round_of_iteration (hs : p.Within p.toksuper)
    (h : iteration pos c rest p = .ok (skip, q)) : Round pos c rest p skip q := by
  revert h
  rw [JsmnParser.iteration]
  refine iteInduction (motive := (· = _ → _)) (fun hc hq => ?_) fun hbrace => ?_
  · obtain ⟨r, hr, he⟩ := map_eq_ok hq
    cases he
    rw [opened_eq_ok hs hr]
    exact .opened (by rw [hc]; rfl) (by rw [hc]; rfl)
  refine iteInduction (motive := (· = _ → _)) (fun hc hq => ?_) fun hbracket => ?_
  · obtain ⟨r, hr, he⟩ := map_eq_ok hq
    cases he
    rw [opened_eq_ok hs hr]
    exact .opened (by rw [hc]; rfl) (by rw [hc]; rfl)
  refine iteInduction (motive := (· = _ → _)) (fun hc hq => ?_) fun hbrace' => ?_
  · obtain ⟨r, hr, he⟩ := map_eq_ok hq
    cases he
    obtain ⟨i, hi, ht, rfl⟩ := closed_eq_ok hr
    exact .closed (by rw [hc]; rfl) hi (by rw [ht, hc]; rfl)
  refine iteInduction (motive := (· = _ → _)) (fun hc hq => ?_) fun hbracket' => ?_
  · obtain ⟨r, hr, he⟩ := map_eq_ok hq
    cases he
    obtain ⟨i, hi, ht, rfl⟩ := closed_eq_ok hr
    exact .closed (by rw [hc]; rfl) hi (by rw [ht, hc]; rfl)
  have hopening : ¬ (c = openBrace ∨ c = openBracket) := not_or.mpr ⟨hbrace, hbracket⟩
  have hclosing : ¬ (c = closeBrace ∨ c = closeBracket) := not_or.mpr ⟨hbrace', hbracket'⟩
  refine iteInduction (motive := (· = _ → _)) (fun hc hq => ?_) fun hquote => ?_
  · obtain ⟨r, hr, he⟩ := map_eq_ok hq
    obtain ⟨n, hn, -, hr'⟩ := jsmnParseString_eq_ok hr
    obtain ⟨rfl, rfl⟩ := Prod.mk.inj he
    rw [hr', filled_skip hn hr]
    exact .string (by rw [hc]; rfl) hn
  refine iteInduction (motive := (· = _ → _)) (fun hc hq => ?_) fun hblank => ?_
  · cases hq
    exact .blank (by rw [mark, if_neg hopening, if_neg hclosing, if_neg hquote, if_pos hc])
  refine iteInduction (motive := (· = _ → _)) (fun hc hq => ?_) fun hcolon => ?_
  · cases hq
    exact .colon (by rw [hc]; rfl)
  refine iteInduction (motive := (· = _ → _)) (fun hc hq => ?_) fun hcomma hq => ?_
  · cases hq
    exact .comma (by rw [hc]; rfl)
  · obtain ⟨r, hr, he⟩ := map_eq_ok hq
    obtain ⟨n, hn, -, hr'⟩ := jsmnParsePrimitive_eq_ok hr
    obtain ⟨rfl, rfl⟩ := Prod.mk.inj he
    rw [hr', filled_skip hn hr]
    refine .primitive ?_ hn
    rw [mark, if_neg hopening, if_neg hclosing, if_neg hquote, if_neg hblank, if_neg hcolon,
      if_neg hcomma]

theorem Round.within (h : Round pos c rest p skip q) (hs : p.Within p.toksuper) :
    q.Within q.toksuper := by
  cases h with
  | opened hm hb => simp [Within, counted, push]
  | closed hm hi hb =>
      have hlt := (of_lastBelow_eq_some hi).1
      exact within_superOf fun j hj => by
        have hji := (of_lastBelow_eq_some hj).1
        change j < p.toknext
        omega
  | string hm hn | primitive hm hn =>
      simp only [Within, counted, growSuper_toknext, growSuper_toksuper, push]
      exact ⟨hs.1, by have := hs.2; omega⟩
  | blank hm => exact hs
  | colon hm => exact ⟨by simp only [atColon]; omega, Int.sub_one_lt_of_le le_rfl⟩
  | comma hm => exact atComma_within hs

theorem Round.count (h : Round pos c rest p skip q) (hp : p.count = p.toknext) :
    q.count = q.toknext := by
  have hpush (t : JsmnTok) : (p.push t).counted.count = (p.push t).counted.toknext := by
    simp [counted, JsmnParser.push, hp]
  cases h with
  | opened hm hb | string hm hn | primitive hm hn => exact hpush _
  | closed hm hi hb | blank hm | colon hm => exact hp
  | comma hm =>
      rw [atComma_eq]
      exact hp

section Pushed

variable {t : JsmnTok}

theorem counted_push_toknext : (p.push t).counted.toknext = p.toknext + 1 := by
  rw [counted, growSuper_toknext, push]

/-- A new token leaves everything about the others as it is, apart from their sizes. -/
theorem counted_push_congr {β : Sort*} {f : JsmnTok → β} (hf : ∀ t n, f { t with size := n } = f t)
    {i : ℕ} (hi : i < p.toknext) : f ((p.push t).counted.tokens i) = f (p.tokens i) := by
  obtain ⟨n, hn⟩ := growSuper_tokens (p.push t) i
  rw [counted, hn, hf, push_tokens_of_ne (by omega)]

theorem counted_push_self {β : Sort*} {f : JsmnTok → β} (hf : ∀ t n, f { t with size := n } = f t) :
    f ((p.push t).counted.tokens p.toknext) = f t := by
  obtain ⟨n, hn⟩ := growSuper_tokens (p.push t) p.toknext
  rw [counted, hn, hf, push_tokens_self]

end Pushed

section Parts

variable {input : List UInt8}

/-- The tokens as parts of a text of which the loop has come to `pos`. -/
structure Laid (input : List UInt8) (pos : ℕ) (p : JsmnParser) : Prop where
  nested : Nested (fun i : ℕ => (p.tokens i).span) p.toknext (pos : ℤ)
  parts : ∀ i : ℕ, i < p.toknext → (p.tokens i).IsPart input ∨ (p.tokens i).IsBegun input

/-- One more token, whatever happens to the sizes. -/
theorem Laid.push (h : p.Laid input pos) {t : JsmnTok} {pos' : ℕ} (hstart : (pos : ℤ) ≤ t.start)
    (hlt : t.start < pos') (hstop : ∀ e ∈ t.span.stop, t.start ≤ e ∧ e ≤ pos')
    (ht : t.IsPart input ∨ t.IsBegun input) : (p.push t).counted.Laid input pos' := by
  have hnew : ((p.push t).counted.tokens p.toknext).span = t.span :=
    counted_push_self fun _ _ => rfl
  refine ⟨?_, fun i hi => ?_⟩
  · have hsame : Nested (fun i : ℕ => ((p.push t).counted.tokens i).span) p.toknext (pos : ℤ) :=
      h.nested.congr fun i hi => counted_push_congr (fun _ _ => rfl) hi
    rw [counted_push_toknext]
    refine hsame.push ?_ ?_ ?_ <;> rwa [hnew]
  · rw [counted_push_toknext] at hi
    rcases Nat.lt_succ_iff_lt_or_eq.mp hi with hi | rfl
    · rw [counted_push_congr (f := (·.IsPart input)) (fun _ _ => rfl) hi,
        counted_push_congr (f := (·.IsBegun input)) (fun _ _ => rfl) hi]
      exact h.parts i hi
    · rwa [counted_push_self (f := (·.IsPart input)) fun _ _ => rfl,
        counted_push_self (f := (·.IsBegun input)) fun _ _ => rfl]

/-- The closing bracket of the token which was opened last. -/
theorem Laid.close (h : p.Laid input pos) (hlen : pos + 1 < 2 ^ 31) (hle : pos + 1 ≤ input.length)
    {i : ℕ} {c' : UInt8} (hi : p.lastOpen p.toknext = some i)
    (hb : (p.tokens i).type.brackets = some (c', c)) (hc : input[pos]? = some c) :
    (p.modify i fun t => { t with stop := toInt (pos + 1) }).Laid input (pos + 1) := by
  obtain ⟨hlt, hopen⟩ := of_lastBelow_eq_some hi
  have hstop := (JsmnTok.isOpen_iff (h.parts i hlt)).mp hopen
  obtain ⟨start, b, hstart, -, hb', hb₁⟩ := JsmnTok.isBegun_of_stop (h.parts i hlt) hstop
  obtain rfl : b = (c', c) := Option.some.inj (hb'.symm.trans hb)
  have hbefore : start < pos := by
    have hlt := h.nested.start_lt i hlt
    simp only [JsmnTok.span, hstart] at hlt
    omega
  refine ⟨?_, ?_⟩
  · have hnext : (pos : ℤ) < (pos + 1 : ℕ) := Int.ofNat_lt.mpr pos.lt_succ_self
    refine (h.nested.close hlt (if_pos hstop) ?_ ?_ hnext).congr ?_
    · simp [JsmnTok.span, JsmnTok.isContainer_of_brackets hb]
    · intro j hij hj
      have hclosed := false_of_lastBelow_lt hi j hij hj
      have hne : (p.tokens j).stop ≠ -1 := by
        intro hj'
        rw [(JsmnTok.isOpen_iff (h.parts j hj)).mpr hj'] at hclosed
        cases hclosed
      simp [JsmnTok.span, hne]
    · intro j hj
      rcases eq_or_ne j i with rfl | hji
      · rw [modify_tokens_self, Function.update_self, JsmnTok.span]
        simp only [toInt_of_lt hlen, JsmnTok.span]
        rw [if_neg (by omega)]
        rfl
      · rw [modify_tokens_of_ne (by omega), Function.update_of_ne hji]
  · intro j hj
    rcases eq_or_ne j i with rfl | hji
    · rw [modify_tokens_self]
      refine Or.inl ⟨start, pos + 1, hstart, toInt_of_lt hlen, by omega, hle, ?_⟩
      exact JsmnType.shows_of_brackets hb ⟨by omega, hb₁, hc⟩
    · rw [modify_tokens_of_ne (by omega)]
      exact h.parts j hj

theorem Laid.round (h : p.Laid input pos) (hlen : input.length < 2 ^ 31)
    (hz : ∀ b ∈ input, b ≠ 0) (hl : Remains input pos (c :: rest))
    (hr : Round pos c rest p skip q) : skip ≤ rest.length ∧ q.Laid input (pos + 1 + skip) := by
  have hlength := hl.length
  rw [List.length_cons] at hlength
  cases hr with
  | @opened type c' hm hb =>
      have hpos : toInt pos = pos := toInt_of_lt (by omega)
      have hq : (p.push ⟨type, toInt pos, -1, 0⟩).counted.Laid input (pos + 1) := by
        refine h.push ?_ ?_ ?_ (Or.inr ⟨pos, (c, c'), hpos, rfl, hb, hl.head⟩)
        · exact hpos.ge
        · exact hpos.trans_lt (Int.ofNat_lt.mpr pos.lt_succ_self)
        · simp [JsmnTok.span]
      exact ⟨Nat.zero_le _, hq.nested, hq.parts⟩
  | closed hm hi hb =>
      have hq := h.close (by omega) (by omega) hi hb hl.head
      exact ⟨Nat.zero_le _, hq.nested, hq.parts⟩
  | @string n hm hn =>
      obtain rfl := eq_quote_of_mark hm
      have hrest : ∀ b ∈ rest, b ≠ 0 := by
        intro b hb
        refine hz b (List.mem_of_mem_drop (i := pos) ?_)
        rw [hl.drop]
        exact List.mem_cons_of_mem _ hb
      obtain ⟨body, tail, rfl, hbody, rfl⟩ := body_of_stringLength hrest hn
      rw [List.length_append, List.length_cons] at hlength
      have hstart : toInt (pos + 1) = (pos + 1 : ℕ) := toInt_of_lt (by omega)
      have hstop : toInt (pos + 1 + body.length) = (pos + 1 + body.length : ℕ) :=
        toInt_of_lt (by omega)
      refine ⟨by rw [List.length_append, List.length_cons]; omega, ?_⟩
      refine h.push ?_ ?_ ?_ (Or.inl ⟨_, _, hstart, hstop, by omega, by omega, ?_⟩)
      · simp only [hstart]
        omega
      · simp only [hstart]
        omega
      · simp only [JsmnTok.span, hstart, hstop]
        rw [if_neg (by omega)]
        rintro e he
        cases he
        omega
      · refine ⟨by omega, hl.head, hl.cons.append.head, ?_⟩
        rw [Nat.add_sub_cancel_left, hl.cons.take]
        exact hbody
  | @primitive n hm hn =>
      have hn₀ := pos_of_primitiveLength (endsPrimitive_of_mark hm) hn
      have hle := le_of_primitiveLength hn
      rw [List.length_cons] at hle
      have hstart : toInt pos = pos := toInt_of_lt (by omega)
      have hstop : toInt (pos + n) = (pos + n : ℕ) := toInt_of_lt (by omega)
      refine ⟨by omega, ?_⟩
      refine h.push ?_ ?_ ?_ (Or.inl ⟨_, _, hstart, hstop, by omega, by omega, ?_⟩)
      · exact hstart.ge
      · simp only [hstart]
        omega
      · simp only [JsmnTok.span, hstart, hstop]
        rw [if_neg (by omega)]
        rintro e he
        cases he
        omega
      · refine ⟨by omega, ?_⟩
        rw [Nat.add_sub_cancel_left, hl.drop]
        exact plain_of_primitiveLength hn
  | blank hm | colon hm =>
      exact ⟨Nat.zero_le _, h.nested.mono (Int.ofNat_le.mpr (Nat.le_succ pos)), h.parts⟩
  | comma hm =>
      rw [atComma_eq]
      exact ⟨Nat.zero_le _, h.nested.mono (Int.ofNat_le.mpr (Nat.le_succ pos)), h.parts⟩

end Parts

/-- What holds of the parser between two rounds of the loop. -/
structure Steady (p : JsmnParser) : Prop where
  within : p.Within p.toksuper
  count : p.count = p.toknext

theorem Steady.round (h : p.Steady) (hr : Round pos c rest p skip q) : q.Steady :=
  ⟨hr.within h.within, hr.count h.count⟩

theorem steady_jsmnInit (memory : ℤ → JsmnTok) : (jsmnInit memory).Steady :=
  ⟨⟨le_rfl, by simp [jsmnInit]⟩, rfl⟩

end JsmnParser

section Accepted

variable {memory : ℤ → JsmnTok} {text : CString} {p : JsmnParser}

theorem steady_of_jsmnParse (h : jsmnParse memory text = .ok p) : p.Steady :=
  scan_invariant (I := JsmnParser.Steady)
    (fun _ _ _ _ _ _ _ hs hq => hs.round (JsmnParser.round_of_iteration hs.within hq))
    (Nat.zero_add _) (JsmnParser.steady_jsmnInit memory) (jsmnParse_eq_ok h).1

theorem laid_of_jsmnParse (hlen : text.length < 2 ^ 31) (h : jsmnParse memory text = .ok p) :
    p.Laid text.bytes text.length := by
  refine (scan_invariant_at (I := fun pos p => p.Steady ∧ p.Laid text.bytes pos) ?_
    ⟨rfl, Nat.zero_le _⟩ (Nat.zero_le _) ⟨JsmnParser.steady_jsmnInit memory, ?_⟩
    (jsmnParse_eq_ok h).1).2
  · rintro pos c rest p skip q hl ⟨hs, hp⟩ hq
    have hr := JsmnParser.round_of_iteration hs.within hq
    have hq' := hp.round hlen text.nonzero hl hr
    exact ⟨hq'.1, hs.round hr, hq'.2⟩
  · exact ⟨.zero _ _, fun i hi => absurd hi i.not_lt_zero⟩

/-- The tokens of an accepted text are parts of it, in the order in which they begin; a later
token stands behind an earlier one, or inside of one which holds others. -/
theorem tokens_nested (hlen : text.length < 2 ^ 31) (h : jsmnParse memory text = .ok p) :
    (∀ i : ℕ, i < p.count → (p.tokens i).IsPart text.bytes) ∧
    ∀ i j : ℕ, i < j → j < p.count →
      (p.tokens i).start < (p.tokens j).start ∧
      ((p.tokens i).stop ≤ (p.tokens j).start ∨
        (p.tokens i).isContainer = true ∧ (p.tokens j).stop < (p.tokens i).stop) := by
  have hl := laid_of_jsmnParse hlen h
  rw [(steady_of_jsmnParse h).count]
  -- nothing is open at the end
  have hstop : ∀ i : ℕ, i < p.toknext → (p.tokens i).stop ≠ -1 := by
    intro i hi hopen
    have hclosed := false_of_lastBelow_eq_none (jsmnParse_eq_ok h).2 i hi
    rw [(JsmnTok.isOpen_iff (hl.parts i hi)).mpr hopen] at hclosed
    cases hclosed
  have hspan : ∀ i : ℕ, i < p.toknext → (p.tokens i).stop ∈ (p.tokens i).span.stop := by
    intro i hi
    simp [JsmnTok.span, hstop i hi]
  refine ⟨fun i hi => ?_, fun i j hij hj => ⟨hl.nested.increasing i j hij hj, ?_⟩⟩
  · rcases hl.parts i hi with hp | ⟨_, _, -, hopen, -⟩
    · exact hp
    · exact absurd hopen (hstop i hi)
  · rcases hl.nested.apart i j hij hj _ (hspan i (hij.trans hj)) with hle | ⟨hleaf, e, he, hlt⟩
    · exact Or.inl hle
    · refine Or.inr ⟨by simpa [JsmnTok.span] using hleaf, ?_⟩
      rwa [Option.mem_unique (hspan j hj) he]

/-- An array which holds an object. -/
def nestedText : CString where
  bytes := [openBracket, openBrace, closeBrace, closeBracket]
  nonzero := by simp [openBracket, openBrace, closeBrace, closeBracket]

theorem jsmnParse_nestedText : ∃ p, jsmnParse zeros nestedText = .ok p ∧ p.count = 2 :=
  map_eq_ok (f := JsmnParser.count) (by decide +kernel)

theorem tokens_nested_two : ∃ p, jsmnParse zeros nestedText = .ok p ∧ p.count = 2 ∧
    (p.tokens 0).IsPart nestedText.bytes ∧ (p.tokens 1).IsPart nestedText.bytes ∧
    (p.tokens 0).start < (p.tokens 1).start := by
  obtain ⟨p, hp, hcount⟩ := jsmnParse_nestedText
  obtain ⟨hparts, hnested⟩ := tokens_nested (by decide) hp
  exact ⟨p, hp, hcount, hparts 0 (by omega), hparts 1 (by omega),
    (hnested 0 1 (by omega) (by omega)).1⟩

end Accepted

end Libraft.Stats
