import Libraft.Stats.Jsmn

/-!
# What the tokenizer keeps

Whatever the text, `jsmn_parse` counts the tokens it has filled and fills at
most those there are. A token which is neither an object nor an array is filled
at once and has a start and an end in this order.
-/

namespace Libraft.Stats

open Foundation

theorem toInt_of_lt {pos : ℕ} (h : pos < 2 ^ 31) : toInt pos = pos := by
  simp only [toInt]
  omega

theorem toInt_ne {pos : ℕ} (h : pos < 2 ^ 32 - 1) : toInt pos ≠ -1 := by
  simp only [toInt]
  omega

/-- The string ends inside of the text. -/
theorem lt_of_stringLength {mode : StringMode} {l : List UInt8} {n : ℕ}
    (h : stringLength mode l = .ok n) : n < l.length := by
  induction l generalizing mode n with
  | nil => cases mode <;> cases h
  | cons c rest ih =>
      have hmap : ∀ {m : StringMode}, (stringLength m rest).map (· + 1) = .ok n →
          n < (c :: rest).length := by
        intro m hm
        obtain ⟨k, hk, rfl⟩ := map_eq_ok hm
        exact Nat.succ_lt_succ (ih hk)
      cases mode with
      | plain =>
          rw [stringLength] at h
          split_ifs at h
          · exact Except.ok.inj h ▸ Nat.succ_pos _
          · exact hmap h
          · exact hmap h
      | escape =>
          rw [stringLength] at h
          split_ifs at h
          · exact hmap h
          · exact hmap h
      | hex m =>
          cases m <;> rw [stringLength] at h <;> split_ifs at h <;> exact hmap h

/-- The primitive ends inside of the text. -/
theorem le_of_primitiveLength {l : List UInt8} {n : ℕ} (h : primitiveLength l = .ok n) :
    n ≤ l.length := by
  induction l generalizing n with
  | nil => exact Except.ok.inj h ▸ le_rfl
  | cons c rest ih =>
      rw [primitiveLength] at h
      split_ifs at h
      · exact Except.ok.inj h ▸ Nat.zero_le _
      · obtain ⟨k, hk, rfl⟩ := map_eq_ok h
        exact Nat.succ_le_succ (ih hk)

/-- A token holds others, or has a start and an end in this order. -/
def JsmnTok.Spanned (t : JsmnTok) : Prop :=
  t.isContainer = true ∨ 0 ≤ t.start ∧ t.start ≤ t.stop

theorem JsmnTok.spanned_toInt {a b : ℕ} (hab : a ≤ b) (hb : b < 2 ^ 31) (type : JsmnType)
    (size : ℤ) : JsmnTok.Spanned ⟨type, toInt a, toInt b, size⟩ := by
  rw [toInt_of_lt (hab.trans_lt hb), toInt_of_lt hb]
  exact Or.inr ⟨Int.natCast_nonneg a, Int.ofNat_le.mpr hab⟩

/-- Only objects and arrays are still open. -/
theorem JsmnTok.Spanned.close {t : JsmnTok} (h : t.Spanned) (ho : t.isOpen = true) (stop : ℤ) :
    JsmnTok.Spanned { t with stop := stop } := by
  rcases h with h | ⟨h₀, h₁⟩
  · exact Or.inl h
  · have hstop : t.stop = -1 := by simpa using (Bool.and_eq_true_iff.mp ho).2
    omega

namespace JsmnParser

variable {p q : JsmnParser}

@[simp] theorem modify_tokens_self (p : JsmnParser) (i : ℤ) (f : JsmnTok → JsmnTok) :
    (p.modify i f).tokens i = f (p.tokens i) :=
  Function.update_self ..

theorem modify_tokens_of_ne {i j : ℤ} (h : j ≠ i) (f : JsmnTok → JsmnTok) :
    (p.modify i f).tokens j = p.tokens j :=
  Function.update_of_ne h ..

/-- One more token. -/
def push (p : JsmnParser) (t : JsmnTok) : JsmnParser :=
  { p with tokens := Function.update p.tokens p.toknext t, toknext := p.toknext + 1 }

@[simp] theorem push_tokens_self (p : JsmnParser) (t : JsmnTok) :
    (p.push t).tokens p.toknext = t :=
  Function.update_self ..

theorem push_tokens_of_ne {i : ℤ} (h : i ≠ p.toknext) (t : JsmnTok) :
    (p.push t).tokens i = p.tokens i :=
  Function.update_of_ne h ..

theorem jsmnAllocToken_of_lt (h : p.toknext < numTokens) :
    p.jsmnAllocToken =
      some (p.push { p.tokens p.toknext with start := -1, stop := -1, size := 0 }) := by
  rw [jsmnAllocToken, if_neg (by omega)]
  rfl

theorem jsmnAllocToken_of_le (h : numTokens ≤ p.toknext) : p.jsmnAllocToken = none := by
  rw [jsmnAllocToken, if_pos h]

theorem of_jsmnAllocToken (h : p.jsmnAllocToken = some q) : p.toknext < numTokens ∧
    q = p.push { p.tokens p.toknext with start := -1, stop := -1, size := 0 } := by
  have hlt : p.toknext < numTokens := by
    by_contra hle
    rw [jsmnAllocToken_of_le (by omega)] at h
    cases h
  rw [jsmnAllocToken_of_lt hlt] at h
  exact ⟨hlt, (Option.some.inj h).symm⟩

@[simp] theorem jsmnFillToken_push (t : JsmnTok) (type : JsmnType) (start stop : ℤ) :
    (p.push t).jsmnFillToken p.toknext type start stop = p.push ⟨type, start, stop, 0⟩ := by
  simp only [jsmnFillToken, modify, push, Function.update_idem]

/-- A primitive or a string is measured first, and then gets its token. -/
theorem filled_eq_ok {len : Except JsmnErr ℕ} {skip : ℕ → ℕ} {type : JsmnType} {start : ℤ}
    {stop : ℕ → ℤ} {r : ℕ × JsmnParser}
    (h : (match len with
      | .error e => .error e
      | .ok n =>
        match p.jsmnAllocToken with
        | none => .error .nomem
        | some q => .ok (skip n, q.jsmnFillToken p.toknext type start (stop n))) =
      Except.ok r) :
    ∃ n, len = .ok n ∧ p.toknext < numTokens ∧ r.2 = p.push ⟨type, start, stop n, 0⟩ := by
  cases len with
  | error e => cases h
  | ok n =>
      cases hq : p.jsmnAllocToken with
      | none =>
          rw [hq] at h
          cases h
      | some q =>
          obtain ⟨hlt, rfl⟩ := of_jsmnAllocToken hq
          simp only [hq, Except.ok.injEq] at h
          exact ⟨n, rfl, hlt, by rw [← h, jsmnFillToken_push]⟩

theorem jsmnParseString_eq_ok {pos : ℕ} {rest : List UInt8} {r : ℕ × JsmnParser}
    (h : p.jsmnParseString pos rest = .ok r) :
    ∃ n, stringLength .plain rest = .ok n ∧ p.toknext < numTokens ∧
      r.2 = p.push ⟨.string, toInt (pos + 1), toInt (pos + 1 + n), 0⟩ :=
  filled_eq_ok h

theorem jsmnParsePrimitive_eq_ok {pos : ℕ} {c : UInt8} {rest : List UInt8} {r : ℕ × JsmnParser}
    (h : p.jsmnParsePrimitive pos c rest = .ok r) :
    ∃ n, primitiveLength (c :: rest) = .ok n ∧ p.toknext < numTokens ∧
      r.2 = p.push ⟨.primitive, toInt pos, toInt (pos + n), 0⟩ :=
  filled_eq_ok h

theorem growSuper_tokens_self (h : p.toksuper ≠ -1) : p.growSuper.tokens p.toksuper =
    { p.tokens p.toksuper with size := (p.tokens p.toksuper).size + 1 } := by
  rw [growSuper, if_pos h, modify_tokens_self]

theorem growSuper_tokens_of_ne {i : ℤ} (h : i ≠ p.toksuper) :
    p.growSuper.tokens i = p.tokens i := by
  rw [growSuper]
  split_ifs
  · exact modify_tokens_of_ne h _
  · rfl

/-- Only sizes grow. -/
theorem growSuper_tokens (p : JsmnParser) (i : ℤ) :
    ∃ n, p.growSuper.tokens i = { p.tokens i with size := n } := by
  by_cases hi : i = p.toksuper
  · subst hi
    by_cases h : p.toksuper = -1
    · exact ⟨_, by rw [growSuper, if_neg (not_not.mpr h)]⟩
    · exact ⟨_, growSuper_tokens_self h⟩
  · exact ⟨_, growSuper_tokens_of_ne hi⟩

@[simp] theorem growSuper_toknext (p : JsmnParser) : p.growSuper.toknext = p.toknext := by
  rw [growSuper]
  split_ifs <;> rfl

@[simp] theorem growSuper_toksuper (p : JsmnParser) : p.growSuper.toksuper = p.toksuper := by
  rw [growSuper]
  split_ifs <;> rfl

/-- What holds of the parser between two rounds of the loop. -/
structure Inv (p : JsmnParser) : Prop where
  count : p.count = p.toknext
  room : p.toknext ≤ numTokens
  spanned : ∀ i : ℕ, i < p.toknext → (p.tokens i).Spanned

theorem inv_jsmnInit (memory : ℤ → JsmnTok) : (jsmnInit memory).Inv :=
  ⟨rfl, Nat.zero_le _, fun i hi => absurd hi i.not_lt_zero⟩

/-- A new token with a span, or which holds others, keeps the invariant. -/
theorem Inv.push_spanned (h : p.Inv) {t : JsmnTok} (ht : t.Spanned) (i : ℕ)
    (hi : i < p.toknext + 1) : ((p.push t).tokens i).Spanned := by
  rcases Nat.lt_succ_iff_lt_or_eq.mp hi with hlt | rfl
  · rw [push_tokens_of_ne (by omega)]
    exact h.spanned i hlt
  · rwa [push_tokens_self]

theorem Inv.counted_push (h : p.Inv) (hlt : p.toknext < numTokens) {t : JsmnTok}
    (ht : t.Spanned) : (p.push t).counted.Inv where
  count := by
    rw [counted, growSuper_toknext, push, h.count]
  room := by
    rw [counted, growSuper_toknext]
    exact hlt
  spanned := by
    intro i hi
    rw [counted, growSuper_toknext] at hi
    obtain ⟨n, hn⟩ := growSuper_tokens (p.push t) i
    rw [counted, hn]
    exact h.push_spanned ht i hi

theorem Inv.opened (h : p.Inv) {pos : ℕ} {type : JsmnType} (ht : type = .array ∨ type = .object)
    (hq : p.opened pos type = .ok q) : q.Inv := by
  rw [JsmnParser.opened] at hq
  cases ha : p.jsmnAllocToken with
  | none =>
      rw [ha] at hq
      cases hq
  | some r =>
      obtain ⟨hlt, rfl⟩ := of_jsmnAllocToken ha
      simp only [ha, Except.ok.injEq] at hq
      subst hq
      refine ⟨?_, ?_, ?_⟩
      · simp [modify, push, h.count]
      · simpa [modify, push] using Nat.succ_le_of_lt hlt
      · intro i hi
        dsimp only
        have hi' : i < p.toknext + 1 := by simpa [modify, push] using hi
        rcases Nat.lt_succ_iff_lt_or_eq.mp hi' with hlt | rfl
        · rw [modify_tokens_of_ne (by omega)]
          obtain ⟨n, hn⟩ := growSuper_tokens
            (p.push { p.tokens p.toknext with start := -1, stop := -1, size := 0 }) i
          rw [hn, push_tokens_of_ne (by omega)]
          exact h.spanned i hlt
        · rw [modify_tokens_self]
          refine Or.inl ?_
          rcases ht with rfl | rfl <;> rfl

theorem Inv.closed (h : p.Inv) {pos : ℕ} {type : JsmnType} (hq : p.closed pos type = .ok q) :
    q.Inv := by
  rw [JsmnParser.closed] at hq
  cases ho : p.lastOpen p.toknext with
  | none =>
      rw [ho] at hq
      cases hq
  | some i =>
      simp only [ho] at hq
      split_ifs at hq
      rw [← Except.ok.inj hq]
      refine ⟨h.count, h.room, ?_⟩
      intro j hj
      dsimp only
      by_cases hji : j = i
      · subst hji
        rw [modify_tokens_self]
        exact (h.spanned j hj).close (of_lastBelow_eq_some ho).2 _
      · rw [modify_tokens_of_ne (by omega)]
        exact h.spanned j hj

theorem Inv.atComma (h : p.Inv) : p.atComma.Inv := by
  rw [JsmnParser.atComma]
  split_ifs
  · exact h
  · split
    · exact h
    · exact ⟨h.count, h.room, h.spanned⟩

/-- A round of the loop at a text shorter than `2 ^ 31`. -/
theorem Inv.iteration {pos skip : ℕ} {c : UInt8} {rest : List UInt8} (h : p.Inv)
    (hlen : pos + rest.length + 1 < 2 ^ 31) (hq : iteration pos c rest p = .ok (skip, q)) :
    q.Inv := by
  revert hq
  rw [JsmnParser.iteration]
  -- one bullet for each `case` of the `switch`
  refine iteInduction (motive := (· = _ → _)) (fun _ hq => ?_) fun _ => ?_
  · exact h.opened (.inr rfl) (map_mk_eq_ok hq)
  refine iteInduction (motive := (· = _ → _)) (fun _ hq => ?_) fun _ => ?_
  · exact h.opened (.inl rfl) (map_mk_eq_ok hq)
  refine iteInduction (motive := (· = _ → _)) (fun _ hq => ?_) fun _ => ?_
  · exact h.closed (map_mk_eq_ok hq)
  refine iteInduction (motive := (· = _ → _)) (fun _ hq => ?_) fun _ => ?_
  · exact h.closed (map_mk_eq_ok hq)
  refine iteInduction (motive := (· = _ → _)) (fun _ hq => ?_) fun _ => ?_
  · obtain ⟨r, hr, he⟩ := map_eq_ok hq
    obtain ⟨n, hn, hlt, hr⟩ := jsmnParseString_eq_ok hr
    have hn := lt_of_stringLength hn
    rw [hr] at he
    exact (Prod.mk.inj he).2 ▸ h.counted_push hlt (JsmnTok.spanned_toInt (by omega) (by omega) _ _)
  refine iteInduction (motive := (· = _ → _)) (fun _ hq => ?_) fun _ => ?_
  · exact (Prod.mk.inj (Except.ok.inj hq)).2 ▸ h
  refine iteInduction (motive := (· = _ → _)) (fun _ hq => ?_) fun _ => ?_
  · exact (Prod.mk.inj (Except.ok.inj hq)).2 ▸ ⟨h.count, h.room, h.spanned⟩
  refine iteInduction (motive := (· = _ → _)) (fun _ hq => ?_) fun _ hq => ?_
  · exact (Prod.mk.inj (Except.ok.inj hq)).2 ▸ h.atComma
  · obtain ⟨r, hr, he⟩ := map_eq_ok hq
    obtain ⟨n, hn, hlt, hr⟩ := jsmnParsePrimitive_eq_ok hr
    have hn := le_of_primitiveLength hn
    rw [List.length_cons] at hn
    rw [hr] at he
    exact (Prod.mk.inj he).2 ▸ h.counted_push hlt (JsmnTok.spanned_toInt (by omega) (by omega) _ _)

end JsmnParser

theorem jsmnParse_eq_ok {memory : ℤ → JsmnTok} {text : CString} {p : JsmnParser}
    (h : jsmnParse memory text = .ok p) :
    scan JsmnParser.iteration 0 0 text.bytes (JsmnParser.jsmnInit memory) = .ok p ∧
      p.lastOpen p.toknext = none := by
  rw [jsmnParse] at h
  cases hs : scan JsmnParser.iteration 0 0 text.bytes (JsmnParser.jsmnInit memory) with
  | error e =>
      rw [hs] at h
      cases h
  | ok q =>
      rw [hs] at h
      change q.finish = .ok p at h
      rw [JsmnParser.finish] at h
      split at h
      · cases h
      · next hn => exact Except.ok.inj h ▸ ⟨rfl, hn⟩

/-- The parser after a successful `jsmn_parse`. -/
theorem inv_of_jsmnParse {memory : ℤ → JsmnTok} {text : CString} {p : JsmnParser}
    (hlen : text.length < 2 ^ 31) (h : jsmnParse memory text = .ok p) : p.Inv :=
  scan_invariant (I := JsmnParser.Inv)
    (fun _ _ _ _ _ _ hpos hs => hs.iteration (hpos ▸ hlen)) (Nat.zero_add _)
    (JsmnParser.inv_jsmnInit memory) (jsmnParse_eq_ok h).1

end Libraft.Stats
