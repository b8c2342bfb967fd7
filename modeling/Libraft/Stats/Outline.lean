import Libraft.Stats.Nesting

/-!
# Which token a token belongs to

The tokenizer has no stack: it finds the object or the array which is open by
searching its tokens from above. The outline of a text is made with a stack of
the open brackets. A token belongs to the innermost object or array which is
open; behind a colon it belongs to the token in front of the colon, up to the
next comma or bracket. In every accepted text the sizes of the tokens are the
numbers of their members in the outline.

## Implementation notes

The outline is as lenient as the tokenizer, which takes a colon or a comma
anywhere. Behind the colon of `{} : 1` the number belongs to the object although
that is closed, and a comma changes nothing there; nor does one outside of all
brackets.
-/

namespace Libraft.Stats

open Foundation

/-- A token in the outline: which token it belongs to, and whether it is an object or an
array. -/
structure Entry where
  owner : Option ℕ
  container : Bool
  deriving DecidableEq

/-- `stack` lists what is open, the innermost first, and `super` is the token to which the
next one belongs. -/
structure Outline where
  entries : List Entry
  stack : List ℕ
  super : Option ℕ

namespace Outline

def empty : Outline := ⟨[], [], none⟩

def add (o : Outline) (container : Bool) : Outline :=
  { o with entries := o.entries ++ [⟨o.super, container⟩] }

def opening (o : Outline) : Outline :=
  { o.add true with
    stack := o.entries.length :: o.stack
    super := some o.entries.length }

def closing (o : Outline) : Outline :=
  { o with stack := o.stack.tail, super := o.stack.tail.head? }

def colon (o : Outline) : Outline :=
  { o with super := if o.entries.length = 0 then none else some (o.entries.length - 1) }

/-- A comma ends what belongs to a key; inside of an object or an array it changes nothing. -/
def comma (o : Outline) : Outline :=
  match o.super with
  | none => o
  | some i =>
      if (o.entries[i]?.map Entry.container).getD false then o
      else { o with super := o.stack.head?.getD i }

/-- One byte, or the string or the primitive which begins there. -/
def step : ScanStep UInt8 Outline JsmnErr := fun _ c rest o =>
  match mark c with
  | .opening => .ok (0, o.opening)
  | .closing => .ok (0, o.closing)
  | .quote => (stringLength .plain rest).map fun n => (n + 1, o.add false)
  | .blank => .ok (0, o)
  | .colon => .ok (0, o.colon)
  | .comma => .ok (0, o.comma)
  | .plain => (primitiveLength (c :: rest)).map fun n => (n - 1, o.add false)

end Outline

/-- The outline of a text. -/
def outline (text : CString) : Except JsmnErr Outline :=
  scan Outline.step 0 0 text.bytes .empty

namespace JsmnParser

variable {p q : JsmnParser} {pos skip : ℕ} {c : UInt8} {rest : List UInt8} {t : JsmnTok}
  {l : List Entry} {o : Outline}

theorem superOf_eq_iff {s : Option ℕ} {i : ℕ} : superOf s = i ↔ s = some i := by
  cases s with
  | none => exact ⟨fun h => absurd h (by rw [superOf, Option.map_none, Option.getD_none]; omega),
      fun h => by cases h⟩
  | some j => simp [superOf]

theorem superOf_lt {s : Option ℕ} (hs : p.Within (superOf s)) {i : ℕ} (hi : i ∈ s) :
    i < p.toknext := by
  have hlt := hs.2
  rw [superOf_eq_iff.mpr hi] at hlt
  exact Int.ofNat_lt.mp hlt

section Sizes

theorem counted_push_size {s : Option ℕ} (hs : p.toksuper = superOf s) {i : ℕ}
    (hi : i < p.toknext) : ((p.push t).counted.tokens i).size =
      (p.tokens i).size + if s = some i then 1 else 0 := by
  have hold : (p.push t).tokens i = p.tokens i := push_tokens_of_ne (by omega) t
  have hsuper : (p.push t).toksuper = superOf s := hs
  by_cases h : s = some i
  · rw [superOf_eq_iff.mpr h] at hsuper
    have hself := growSuper_tokens_self (p := p.push t) (by omega)
    rw [hsuper, hold] at hself
    rw [counted, hself, if_pos h]
  · have hother : (p.push t).growSuper.tokens i = (p.push t).tokens i :=
      growSuper_tokens_of_ne fun heq => h (superOf_eq_iff.mp (hsuper ▸ heq.symm))
    rw [counted, hother, hold, if_neg h, add_zero]

theorem counted_push_size_self (hs : p.Within p.toksuper) :
    ((p.push t).counted.tokens p.toknext).size = t.size := by
  have hother : (p.push t).growSuper.tokens p.toknext = (p.push t).tokens p.toknext :=
    growSuper_tokens_of_ne hs.2.ne'
  rw [counted, hother, push_tokens_self]

end Sizes

/-- The tokens are the ones which the outline lists. -/
structure Lists (p : JsmnParser) (l : List Entry) : Prop where
  length : l.length = p.toknext
  container : ∀ i < p.toknext, (l[i]?).map Entry.container = some (p.tokens i).isContainer
  holds : ∀ i < p.toknext, (p.tokens i).isOpen = true → (p.tokens i).isContainer = true
  size : ∀ i < p.toknext, (p.tokens i).size = l.countP fun m => m.owner = some i
  before : ∀ (j : ℕ) (m : Entry), l[j]? = some m → ∀ i ∈ m.owner, i < j

/-- Nobody belongs to a token which is still to come. -/
theorem Lists.countP_eq_zero (h : p.Lists l) :
    (l.countP fun m => m.owner = some p.toknext) = 0 := by
  rw [List.countP_eq_zero]
  intro m hm
  obtain ⟨j, hj, hget⟩ := List.mem_iff_getElem.mp hm
  have hget' : l[j]? = some m := by rw [List.getElem?_eq_getElem hj, hget]
  rw [decide_eq_true_eq]
  intro howner
  have hlt := h.before j m hget' p.toknext howner
  rw [h.length] at hj
  omega

/-- A new token is a member of the one which is being filled in. -/
theorem Lists.add {s : Option ℕ} (h : p.Lists l) (hw : p.Within p.toksuper)
    (hs : p.toksuper = superOf s) (ht : t.size = 0)
    (hopen : t.isOpen = true → t.isContainer = true) (hnext : q.toknext = p.toknext + 1)
    (htok : q.tokens = (p.push t).counted.tokens) : q.Lists (l ++ [⟨s, t.isContainer⟩]) := by
  have hbound (i : ℕ) (hi : i ∈ s) : i < p.toknext := superOf_lt (hs ▸ hw) hi
  refine ⟨?_, fun i hi => ?_, fun i hi => ?_, fun i hi => ?_, fun j m hj i hi => ?_⟩
  · rw [List.length_append, h.length, hnext]
    rfl
  all_goals try rw [hnext] at hi
  all_goals try rw [htok]
  · rcases Nat.lt_succ_iff_lt_or_eq.mp hi with hlt | rfl
    · rw [List.getElem?_append_left (h.length ▸ hlt), h.container i hlt,
        counted_push_congr (f := JsmnTok.isContainer) (fun _ _ => rfl) hlt]
    · rw [← h.length, List.getElem?_concat_length, h.length,
        counted_push_self (f := JsmnTok.isContainer) fun _ _ => rfl]
      rfl
  · rcases Nat.lt_succ_iff_lt_or_eq.mp hi with hlt | rfl
    · rw [counted_push_congr (f := JsmnTok.isContainer) (fun _ _ => rfl) hlt,
        counted_push_congr (f := JsmnTok.isOpen) (fun _ _ => rfl) hlt]
      exact h.holds i hlt
    · rw [counted_push_self (f := JsmnTok.isContainer) fun _ _ => rfl,
        counted_push_self (f := JsmnTok.isOpen) fun _ _ => rfl]
      exact hopen
  · rw [List.countP_append, List.countP_singleton]
    rcases Nat.lt_succ_iff_lt_or_eq.mp hi with hlt | rfl
    · rw [counted_push_size hs hlt, h.size i hlt]
      push_cast
      simp only [decide_eq_true_eq]
    · have hself : s ≠ some p.toknext := fun hself => absurd (hbound _ hself) (lt_irrefl _)
      rw [counted_push_size_self hw, ht, h.countP_eq_zero]
      simp [hself]
  · rcases Nat.lt_or_ge j l.length with hlt | hge
    · rw [List.getElem?_append_left hlt] at hj
      exact h.before j m hj i hi
    · rw [List.getElem?_append_right hge] at hj
      obtain rfl : m = ⟨s, t.isContainer⟩ := List.mem_singleton.mp (List.mem_of_getElem? hj)
      exact (hbound i hi).trans_le (h.length ▸ hge)

/-- Closing a token changes nothing of what is listed. -/
theorem Lists.modify (h : p.Lists l) {i : ℕ} {f : JsmnTok → JsmnTok}
    (hc : (f (p.tokens i)).isContainer = (p.tokens i).isContainer)
    (hs : (f (p.tokens i)).size = (p.tokens i).size) (ho : (f (p.tokens i)).isOpen = false)
    (hnext : q.toknext = p.toknext) (htok : q.tokens = (p.modify i f).tokens) : q.Lists l := by
  have hother {j : ℕ} (hj : j ≠ i) : (p.modify i f).tokens j = p.tokens j :=
    modify_tokens_of_ne (by omega) f
  refine ⟨hnext ▸ h.length, fun j hj => ?_, fun j hj => ?_, fun j hj => ?_, h.before⟩
  all_goals
    rw [hnext] at hj
    rw [htok]
    rcases eq_or_ne j i with rfl | hji
  · rw [modify_tokens_self, hc, h.container j hj]
  · rw [hother hji, h.container j hj]
  · rw [modify_tokens_self, ho]
    exact fun hopen => absurd hopen Bool.false_ne_true
  · rw [hother hji]
    exact h.holds j hj
  · rw [modify_tokens_self, hs, h.size j hj]
  · rw [hother hji, h.size j hj]

/-- The parser stands where the outline stands. -/
structure Follows (p : JsmnParser) (o : Outline) : Prop where
  steady : p.Steady
  lists : p.Lists o.entries
  super : p.toksuper = superOf o.super
  stack : o.stack = allBelow (fun i => (p.tokens i).isOpen) p.toknext
  outside : o.super = none → o.stack = []

theorem follows_jsmnInit (memory : ℤ → JsmnTok) : (jsmnInit memory).Follows .empty where
  steady := steady_jsmnInit memory
  lists :=
    { length := rfl
      container := fun i hi => absurd hi i.not_lt_zero
      holds := fun i hi => absurd hi i.not_lt_zero
      size := fun i hi => absurd hi i.not_lt_zero
      before := fun j m hj => by cases hj }
  super := rfl
  stack := rfl
  outside := fun _ => rfl

/-- The search for an open token finds the top of the stack. -/
theorem Follows.lastOpen (h : p.Follows o) : p.lastOpen p.toknext = o.stack.head? := by
  rw [JsmnParser.lastOpen, lastBelow_eq_head?, h.stack]

theorem isOpen_of_stop (h : t.stop ≠ -1) : t.isOpen = false := by
  simp [JsmnTok.isOpen, h]

/-- The tokens which were open stay so when there is one more. -/
theorem Follows.stack_push (h : p.Follows o) :
    o.stack = allBelow (fun i => ((p.push t).counted.tokens i).isOpen) p.toknext :=
  h.stack.trans (allBelow_congr fun _ hj =>
    (counted_push_congr (f := JsmnTok.isOpen) (fun _ _ => rfl) hj).symm)

theorem Follows.leaf (h : p.Follows o) (hq : (p.push t).counted.Steady) (ht : t.size = 0)
    (hc : t.isContainer = false) (ho : t.isOpen = false) :
    (p.push t).counted.Follows (o.add false) where
  steady := hq
  lists := hc ▸ h.lists.add h.steady.within h.super ht (fun hopen => absurd (ho ▸ hopen)
    Bool.false_ne_true) counted_push_toknext rfl
  super := by
    rw [counted, growSuper_toksuper]
    exact h.super
  stack := by
    rw [counted_push_toknext, allBelow, counted_push_self (f := JsmnTok.isOpen) fun _ _ => rfl, ho]
    exact h.stack_push
  outside := h.outside

theorem Follows.opened (h : p.Follows o)
    (hq : ({ (p.push t).counted with toksuper := p.toknext } : JsmnParser).Steady)
    (ht : t.size = 0) (hc : t.isContainer = true) (ho : t.isOpen = true) :
    Follows { (p.push t).counted with toksuper := p.toknext } o.opening where
  steady := hq
  lists := by
    have hl := h.lists.add (q := { (p.push t).counted with toksuper := p.toknext })
      h.steady.within h.super ht (fun _ => hc) counted_push_toknext rfl
    rwa [hc] at hl
  super := by
    dsimp only [Outline.opening]
    rw [h.lists.length, superOf_eq_iff.mpr rfl]
  stack := by
    dsimp only [Outline.opening]
    rw [counted_push_toknext, allBelow, counted_push_self (f := JsmnTok.isOpen) fun _ _ => rfl, ho,
      if_pos rfl, h.lists.length, ← h.stack_push]
  outside := fun hnone => by cases hnone

theorem Follows.closed (h : p.Follows o) {i : ℕ} (hi : p.lastOpen p.toknext = some i)
    (hq : (p.closeAt pos i).Steady) (hpos : toInt (pos + 1) ≠ -1) :
    (p.closeAt pos i).Follows o.closing := by
  have hstop : ({ p.tokens i with stop := toInt (pos + 1) } : JsmnTok).isOpen = false :=
    isOpen_of_stop hpos
  have hopen : ((p.closeAt pos i).tokens i).isOpen = false := by
    rw [closeAt, modify_tokens_self, hstop]
  have hother (j : ℕ) (hj : j ≠ i) :
      ((p.closeAt pos i).tokens j).isOpen = (p.tokens j).isOpen := by
    rw [closeAt, modify_tokens_of_ne (by omega)]
  have hlt := (of_lastBelow_eq_some hi).1
  have htail {m : ℕ} (him : i < m) (hmn : m ≤ p.toknext) :
      allBelow (fun j => ((p.closeAt pos i).tokens j).isOpen) m = o.stack.tail := by
    rw [h.stack]
    exact allBelow_eq_tail hi hopen hother him hmn
  have hlists : (p.closeAt pos i).Lists o.entries :=
    h.lists.modify (i := i) (f := fun t => { t with stop := toInt (pos + 1) })
      (by rw [JsmnTok.isContainer, JsmnTok.isContainer]) rfl hstop rfl rfl
  refine ⟨hq, hlists, ?_, (htail hlt le_rfl).symm, List.head?_eq_none_iff.mp⟩
  change superOf (lastBelow (fun j => ((p.closeAt pos i).tokens j).isOpen) (i + 1)) = _
  rw [lastBelow_eq_head?, htail i.lt_succ_self hlt]
  rfl

theorem Follows.colon (h : p.Follows o) (hq : p.atColon.Steady) : p.atColon.Follows o.colon := by
  refine ⟨hq, ⟨h.lists.length, h.lists.container, h.lists.holds, h.lists.size, h.lists.before⟩, ?_,
    h.stack, fun hnone => ?_⟩
  · dsimp only [atColon, Outline.colon]
    rw [h.lists.length]
    split_ifs with hz
    · rw [hz]
      rfl
    · rw [superOf_eq_iff.mpr rfl]
      omega
  · dsimp only [Outline.colon] at hnone ⊢
    split_ifs at hnone with hz
    rw [h.stack, ← h.lists.length, hz]
    rfl

/-- The search of a comma finds the top of the stack as well. -/
theorem Follows.lastContainer (h : p.Follows o) :
    lastBelow (fun i => (p.tokens i).isContainer && (p.tokens i).isOpen) p.toknext =
      o.stack.head? := by
  rw [lastBelow_eq_head?, h.stack]
  congr 1
  refine allBelow_congr fun j hj => ?_
  cases ho : (p.tokens j).isOpen with
  | false => rw [Bool.and_false]
  | true => rw [h.lists.holds j hj ho, Bool.and_true]

theorem Follows.comma (h : p.Follows o) (hq : p.atComma.Steady) : p.atComma.Follows o.comma := by
  cases hs : o.super with
  | none =>
      have hsame : p.atComma = p := by
        rw [atComma, h.lastContainer, h.outside hs]
        exact ite_self _
      have hsame' : o.comma = o := by rw [Outline.comma, hs]
      rwa [hsame, hsame']
  | some i =>
      have hsuper : p.toksuper = i := h.super.trans (superOf_eq_iff.mpr hs)
      have hlt : i < p.toknext := superOf_lt (h.super ▸ h.steady.within) hs
      have hcont := h.lists.container i hlt
      simp only [atComma, Outline.comma, hsuper, hs, hcont, Option.getD_some, h.lastContainer]
        at hq ⊢
      split_ifs at hq ⊢ with hc
      · exact h
      · cases htop : o.stack.head? with
        | none =>
            have hsame : ({ o with super := some ((none : Option ℕ).getD i) } : Outline) = o := by
              rw [Option.getD_none, ← hs]
            rwa [hsame]
        | some k =>
            simp only [htop] at hq
            exact ⟨hq, ⟨h.lists.length, h.lists.container, h.lists.holds, h.lists.size,
              h.lists.before⟩, (superOf_eq_iff.mpr rfl).symm, h.stack, fun hnone => by cases hnone⟩

/-- A round of the loop at a byte is what the outline does there. -/
theorem Follows.round (h : p.Follows o) (hlen : pos + rest.length + 1 < 2 ^ 32 - 1)
    (hr : Round pos c rest p skip q) :
    ∃ o', Outline.step pos c rest o = .ok (skip, o') ∧ q.Follows o' := by
  have hq := h.steady.round hr
  cases hr with
  | @opened type c' hm hb =>
      have hpos : toInt pos ≠ -1 := toInt_ne (by omega)
      refine ⟨o.opening, by rw [Outline.step, hm], h.opened hq rfl ?_ ?_⟩
      · exact JsmnTok.isContainer_of_brackets hb
      · simp [JsmnTok.isOpen, hpos]
  | closed hm hi hb =>
      exact ⟨o.closing, by rw [Outline.step, hm], h.closed hi hq (toInt_ne (by omega))⟩
  | string hm hn =>
      have hlt := lt_of_stringLength hn
      exact ⟨o.add false, by rw [Outline.step, hm, hn]; rfl,
        h.leaf hq rfl rfl (isOpen_of_stop (toInt_ne (by omega)))⟩
  | primitive hm hn =>
      have hle := le_of_primitiveLength hn
      rw [List.length_cons] at hle
      exact ⟨o.add false, by rw [Outline.step, hm, hn]; rfl,
        h.leaf hq rfl rfl (isOpen_of_stop (toInt_ne (by omega)))⟩
  | blank hm => exact ⟨o, by rw [Outline.step, hm], h⟩
  | colon hm => exact ⟨o.colon, by rw [Outline.step, hm], h.colon hq⟩
  | comma hm => exact ⟨o.comma, by rw [Outline.step, hm], h.comma hq⟩

end JsmnParser

/-- The tokens of an accepted text are those of its outline, where each belongs to at most one
token, which stands in front of it; and the size of a token is the number of those which belong
to it. -/
theorem sizes_count_members {memory : ℤ → JsmnTok} {text : CString} {p : JsmnParser}
    (hlen : text.length < 2 ^ 32 - 1) (h : jsmnParse memory text = .ok p) :
    ∃ o, outline text = .ok o ∧ o.entries.length = p.count ∧ o.stack = [] ∧
      (∀ (j : ℕ) (m : Entry), o.entries[j]? = some m →
        m.container = (p.tokens j).isContainer ∧ ∀ i ∈ m.owner, i < j) ∧
      ∀ i : ℕ, i < p.count → (p.tokens i).size = o.entries.countP fun m => m.owner = some i := by
  obtain ⟨hscan, hclosed⟩ := jsmnParse_eq_ok h
  obtain ⟨o, ho, hf⟩ : ∃ o, outline text = .ok o ∧ p.Follows o := by
    refine scan_simulation ?_ (Nat.zero_add _) (JsmnParser.follows_jsmnInit memory) hscan
    intro pos c rest s u skip s' hpos hs hstep
    exact hs.round (hpos ▸ hlen) (JsmnParser.round_of_iteration hs.steady.within hstep)
  rw [hf.steady.count]
  refine ⟨o, ho, hf.lists.length, ?_, fun j m hj => ⟨?_, hf.lists.before j m hj⟩, hf.lists.size⟩
  · rw [hf.lastOpen] at hclosed
    exact List.head?_eq_none_iff.mp hclosed
  · have hlt : j < p.toknext := hf.lists.length ▸ (List.getElem?_eq_some_iff.mp hj).1
    have hc := hf.lists.container j hlt
    rw [hj, Option.map_some, Option.some.injEq] at hc
    exact hc

/-- The text `[{"a":1},2]`. -/
def keyedText : CString where
  bytes := [openBracket, openBrace, quote, 97, quote, colon, 49, closeBrace, comma, 50,
    closeBracket]
  nonzero := by simp [openBracket, openBrace, quote, colon, closeBrace, comma, closeBracket]

/-- The array has two members, the object has one, and so has the key. -/
theorem sizes_count_members_keyed : ∃ p o, jsmnParse zeros keyedText = .ok p ∧
    outline keyedText = .ok o ∧
    o.entries.map Entry.owner = [none, some 0, some 1, some 2, some 0] ∧
    (p.tokens 0).size = o.entries.countP (fun m => m.owner = some 0) := by
  obtain ⟨p, hp, hcount⟩ : ∃ p, jsmnParse zeros keyedText = .ok p ∧ p.count = 5 :=
    map_eq_ok (f := JsmnParser.count) (by decide +kernel)
  obtain ⟨o', ho', howners⟩ : ∃ o, outline keyedText = .ok o ∧
      o.entries.map Entry.owner = [none, some 0, some 1, some 2, some 0] :=
    map_eq_ok (f := fun o : Outline => o.entries.map Entry.owner) (by decide +kernel)
  obtain ⟨o, ho, -, -, -, hsize⟩ := sizes_count_members (by decide) hp
  obtain rfl : o = o' := Except.ok.inj (ho.symm.trans ho')
  exact ⟨p, o, hp, ho, howners, hsize 0 (by omega)⟩

end Libraft.Stats
