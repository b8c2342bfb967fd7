import Libraft.Foundation.CString
import Libraft.Foundation.Scanning

/-!
# The JSON tokenizer

`jsmn_parse` fills an array of tokens in one pass over the text, without an
own stack: the token which is being filled in, `toksuper`, is found again by
searching the array for a token with a start and no end. It is compiled without
`JSMN_STRICT` and without `JSMN_PARENT_LINKS`.

## Implementation notes

The array is not initialised, so the tokens start from an arbitrary memory. It
is indexed by integers: at a comma `tokens[toksuper]` is read with `toksuper`
possibly `-1`. Only three types are ever compared with, so any other value in
memory is as good as `JSMN_PRIMITIVE`. `pos` is where the loop stands; the
texts are shorter than `2 ^ 32`, for which it does not wrap around, but the
tokens hold it as an `int`. After an error nobody looks at the parser, whose
`pos` is therefore not put back.
-/

namespace Libraft.Stats

open Foundation

inductive JsmnType where
  | primitive
  | object
  | array
  | string
  deriving DecidableEq

/-- A token; `stop` is the source's `end`. -/
structure JsmnTok where
  type : JsmnType
  start : ℤ
  stop : ℤ
  size : ℤ
  deriving DecidableEq

inductive JsmnErr where
  | nomem
  | inval
  | part
  deriving DecidableEq

/-- The number which `jsmn_parse` returns for an error. -/
def JsmnErr.code : JsmnErr → ℤ
  | nomem => -1
  | inval => -2
  | part => -3

/-- The parser with its tokens, and the tokens which `jsmn_parse` has counted. -/
structure JsmnParser where
  toknext : ℕ
  toksuper : ℤ
  tokens : ℤ → JsmnTok
  count : ℕ

/-- The size of the array of tokens in `raft_print_stats`. -/
def numTokens : ℕ := 64

/-- A position as an `int`. -/
def toInt (pos : ℕ) : ℤ := ((pos : ℤ) + 2 ^ 31) % 2 ^ 32 - 2 ^ 31

-- the bytes to which the tokenizer gives a meaning

def quote : UInt8 := 34

def comma : UInt8 := 44

def colon : UInt8 := 58

def openBracket : UInt8 := 91

def backslash : UInt8 := 92

def closeBracket : UInt8 := 93

def openBrace : UInt8 := 123

def closeBrace : UInt8 := 125

/-- Tab, carriage return, line feed and space. -/
def isBlank (c : UInt8) : Bool := c == 9 || c == 13 || c == 10 || c == 32

/-- What may follow a backslash, other than `u`. -/
def isEscape (c : UInt8) : Bool :=
  c == quote || c == 47 || c == backslash || c == 98 || c == 102 || c == 114 || c == 110 ||
    c == 116

def isHex (c : UInt8) : Bool :=
  (48 ≤ c && c ≤ 57) || (65 ≤ c && c ≤ 70) || (97 ≤ c && c ≤ 102)

/-- What ends a primitive. -/
def endsPrimitive (c : UInt8) : Bool :=
  c == colon || isBlank c || c == comma || c == closeBracket || c == closeBrace

/-- A token which has been opened and not closed. -/
def JsmnTok.isOpen (t : JsmnTok) : Bool := t.start != -1 && t.stop == -1

/-- A token which holds others. -/
def JsmnTok.isContainer (t : JsmnTok) : Bool := t.type == .array || t.type == .object

/-- Where the loop of `jsmn_parse_string` stands: not in an escape, behind a backslash, or in
front of `n + 1` hexadecimal digits. -/
inductive StringMode where
  | plain
  | escape
  | hex (n : ℕ)

/-- The loop of `jsmn_parse_string`: the number of bytes in front of the closing quote. -/
def stringLength : StringMode → List UInt8 → Except JsmnErr ℕ
  | _, [] => .error .part
  | .plain, c :: rest =>
    if c = quote then .ok 0
    else if c = backslash then (stringLength .escape rest).map (· + 1)
    else (stringLength .plain rest).map (· + 1)
  | .escape, c :: rest =>
    if isEscape c then (stringLength .plain rest).map (· + 1)
    else if c = 117 then (stringLength (.hex 3) rest).map (· + 1)
    else .error .inval
  | .hex n, c :: rest =>
    if isHex c then
      match n with
      | 0 => (stringLength .plain rest).map (· + 1)
      | n + 1 => (stringLength (.hex n) rest).map (· + 1)
    else .error .inval

/-- The loop of `jsmn_parse_primitive`: the number of bytes of the primitive. -/
def primitiveLength : List UInt8 → Except JsmnErr ℕ
  | [] => .ok 0
  | c :: rest =>
    if endsPrimitive c then .ok 0
    else if c < 32 ∨ 127 ≤ c then .error .inval
    else (primitiveLength rest).map (· + 1)

namespace JsmnParser

/-- `jsmn_init`, with what the array of tokens happens to hold. -/
def jsmnInit (memory : ℤ → JsmnTok) : JsmnParser := ⟨0, -1, memory, 0⟩

/-- A store to one of the tokens. -/
def modify (p : JsmnParser) (i : ℤ) (f : JsmnTok → JsmnTok) : JsmnParser :=
  { p with tokens := Function.update p.tokens i (f (p.tokens i)) }

/-- `jsmn_alloc_token`; the token is the one at the old `toknext`. -/
def jsmnAllocToken (p : JsmnParser) : Option JsmnParser :=
  if numTokens ≤ p.toknext then none
  else some { p.modify p.toknext fun t => { t with start := -1, stop := -1, size := 0 } with
    toknext := p.toknext + 1 }

/-- `jsmn_fill_token`. -/
def jsmnFillToken (p : JsmnParser) (i : ℤ) (type : JsmnType) (start stop : ℤ) : JsmnParser :=
  p.modify i fun _ => ⟨type, start, stop, 0⟩

/-- The token which is being filled in has one more member. -/
def growSuper (p : JsmnParser) : JsmnParser :=
  if p.toksuper ≠ -1 then p.modify p.toksuper fun t => { t with size := t.size + 1 } else p

/-- A token has been parsed. -/
def counted (p : JsmnParser) : JsmnParser := { p.growSuper with count := p.count + 1 }

/-- `jsmn_parse_primitive`, which leaves `pos` on the last byte of the primitive. -/
def jsmnParsePrimitive (p : JsmnParser) (pos : ℕ) (c : UInt8) (rest : List UInt8) :
    Except JsmnErr (ℕ × JsmnParser) :=
  match primitiveLength (c :: rest) with
  | .error e => .error e
  | .ok n =>
    match p.jsmnAllocToken with
    | none => .error .nomem
    | some q => .ok (n - 1, q.jsmnFillToken p.toknext .primitive (toInt pos) (toInt (pos + n)))

/-- `jsmn_parse_string`, which leaves `pos` on the closing quote. -/
def jsmnParseString (p : JsmnParser) (pos : ℕ) (rest : List UInt8) :
    Except JsmnErr (ℕ × JsmnParser) :=
  match stringLength .plain rest with
  | .error e => .error e
  | .ok n =>
    match p.jsmnAllocToken with
    | none => .error .nomem
    | some q =>
      .ok (n + 1, q.jsmnFillToken p.toknext .string (toInt (pos + 1)) (toInt (pos + 1 + n)))

/-- The opening of an object or an array. -/
def opened (p : JsmnParser) (pos : ℕ) (type : JsmnType) : Except JsmnErr JsmnParser :=
  match p.jsmnAllocToken with
  | none => .error .nomem
  | some q =>
    .ok { q.growSuper.modify p.toknext fun t => { t with type := type, start := toInt pos } with
      toksuper := p.toknext, count := p.count + 1 }

/-- The last open token below an index. -/
def lastOpen (p : JsmnParser) (n : ℕ) : Option ℕ := lastBelow (fun i => (p.tokens i).isOpen) n

/-- The closing of an object or an array. -/
def closed (p : JsmnParser) (pos : ℕ) (type : JsmnType) : Except JsmnErr JsmnParser :=
  match p.lastOpen p.toknext with
  | none => .error .inval
  | some i =>
    if (p.tokens i).type ≠ type then .error .inval
    else
      let q := p.modify i fun t => { t with stop := toInt (pos + 1) }
      .ok { q with toksuper := ((q.lastOpen (i + 1)).map (↑)).getD (-1) }

/-- A colon: what follows belongs to the last token. -/
def atColon (p : JsmnParser) : JsmnParser := { p with toksuper := (p.toknext : ℤ) - 1 }

/-- A comma: what follows belongs to the last open object or array. -/
def atComma (p : JsmnParser) : JsmnParser :=
  if (p.tokens p.toksuper).isContainer then p
  else
    match lastBelow (fun i => (p.tokens i).isContainer && (p.tokens i).isOpen) p.toknext with
    | none => p
    | some i => { p with toksuper := i }

/-- The body of the loop of `jsmn_parse`. -/
def iteration : ScanStep UInt8 JsmnParser JsmnErr := fun pos c rest p =>
  if c = openBrace then (p.opened pos .object).map (0, ·)
  else if c = openBracket then (p.opened pos .array).map (0, ·)
  else if c = closeBrace then (p.closed pos .object).map (0, ·)
  else if c = closeBracket then (p.closed pos .array).map (0, ·)
  else if c = quote then (p.jsmnParseString pos rest).map fun r => (r.1, r.2.counted)
  else if isBlank c then .ok (0, p)
  else if c = colon then .ok (0, p.atColon)
  else if c = comma then .ok (0, p.atComma)
  else (p.jsmnParsePrimitive pos c rest).map fun r => (r.1, r.2.counted)

/-- The check behind the loop of `jsmn_parse`. -/
def finish (p : JsmnParser) : Except JsmnErr JsmnParser :=
  match p.lastOpen p.toknext with
  | some _ => .error .part
  | none => .ok p

end JsmnParser

/-- `jsmn_parse` after `jsmn_init`; it returns the `count` of the parser. -/
def jsmnParse (memory : ℤ → JsmnTok) (text : CString) : Except JsmnErr JsmnParser :=
  (scan JsmnParser.iteration 0 0 text.bytes (JsmnParser.jsmnInit memory)).bind JsmnParser.finish

end Libraft.Stats
