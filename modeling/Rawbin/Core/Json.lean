import Rawbin.Core.Python

/-!
# JSON

`json.loads` of Python: the text is cut into tokens, then the tokens are read with the open arrays
and objects on a stack. `none` is any exception. Two ways in which Python is more liberal than
the standard are kept: `NaN` and the infinities are numbers, and an escape may leave a single
surrogate in a string.
-/

namespace Rawbin

/-- A `str`, by its code points. -/
abbrev PyStr := List Nat

def PyStr.ofString (s : String) : PyStr := s.toList.map Char.toNat

inductive Json where
  | null
  | bool (b : Bool)
  | int (n : Int)
  | float (x : PyFloat)
  | str (s : PyStr)
  | array (items : List Json)
  | object (members : List (PyStr × Json))

namespace Json

inductive Token where
  | openArray | closeArray | openObject | closeObject | colon | comma
  | str (s : PyStr)
  /-- A number or a literal. -/
  | scalar (value : Json)

variable (I : Interpreter)

/-! ## Numbers -/

/-- The value of a string of decimal digits. -/
def natOfDigits (ds : List Char) : Nat :=
  ds.foldl (fun n c => 10 * n + (c.toNat - '0'.toNat)) 0

/-- `(\.[0-9]+)?` -/
def fraction : List Char → Option (Option (List Char) × List Char)
  | '.' :: cs =>
    let ds := cs.takeWhile Char.isDigit
    if ds.isEmpty then none else some (some ds, cs.drop ds.length)
  | cs => some (none, cs)

/-- `([eE][-+]?[0-9]+)?` -/
def exponent : List Char → Option (Option Int)
  | [] => some none
  | c :: cs =>
    if c = 'e' || c = 'E' then
      let ds := if cs.head?.any (fun s => s = '-' || s = '+') then cs.tail else cs
      if ds.isEmpty || !ds.all Char.isDigit then none
      else if cs.head? = some '-' then some (some (-(natOfDigits ds : Int)))
      else some (some (natOfDigits ds))
    else none

def pow10 (e : Int) : ℚ := if 0 ≤ e then 10 ^ e.toNat else 1 / 10 ^ (-e).toNat

/-- `-?(0|[1-9][0-9]*)(\.[0-9]+)?([eE][-+]?[0-9]+)?`, an `int` without the optional parts. -/
def number (cs : List Char) : Option Json := do
  let sign : Int := if cs.head? = some '-' then -1 else 1
  let cs := if cs.head? = some '-' then cs.tail else cs
  let whole := cs.takeWhile Char.isDigit
  if whole.isEmpty || (whole.head? = some '0' && 1 < whole.length) then none
  else
    let (frac, cs) ← fraction (cs.drop whole.length)
    let exp ← exponent cs
    match frac, exp with
    | none, none =>
      if I.maxStrDigits < whole.length then none else some (.int (sign * natOfDigits whole))
    | frac, exp =>
      let frac := frac.getD []
      let significand : Int := sign * natOfDigits (whole ++ frac)
      some (.float (roundToDouble (significand * pow10 (exp.getD 0 - frac.length))))

/-- A literal or a number. -/
def scalar (cs : List Char) : Option Json :=
  if cs = "null".toList then some .null
  else if cs = "true".toList then some (.bool true)
  else if cs = "false".toList then some (.bool false)
  else if cs = "NaN".toList then some (.float .nan)
  else if cs = "Infinity".toList then some (.float (.inf false))
  else if cs = "-Infinity".toList then some (.float (.inf true))
  else number I cs

/-! ## Tokens -/

/-- Where the tokenizer is: between tokens, in a number or literal, in a string, after a
backslash in a string, in the digits of `\u`. -/
inductive Lexer where
  | ready
  | scalar (read : List Char)
  | str (read : PyStr)
  | escape (read : PyStr)
  | unicode (read : PyStr) (digits : List Char)

/-- Append a code unit; a pair of surrogates becomes one code point. -/
def appendUnit (read : PyStr) (unit : Nat) : PyStr :=
  match read.getLast? with
  | some high =>
    if 0xD800 ≤ high ∧ high < 0xDC00 ∧ 0xDC00 ≤ unit ∧ unit < 0xE000 then
      read.dropLast ++ [0x10000 + (high - 0xD800) * 0x400 + (unit - 0xDC00)]
    else read ++ [unit]
  | none => [unit]

def isScalarChar (c : Char) : Bool := c.isAlphanum || c = '-' || c = '+' || c = '.'

/-- The characters of the short escapes. -/
def escaped : Char → Option Char
  | '"' => some '"'
  | '\\' => some '\\'
  | '/' => some '/'
  | 'b' => some (.ofNat 8)
  | 'f' => some (.ofNat 12)
  | 'n' => some '\n'
  | 'r' => some '\r'
  | 't' => some '\t'
  | _ => none

/-- The first character of a token, or white space. -/
def lexReady : Char → Option (List Token × Lexer)
  | ' ' | '\t' | '\n' | '\r' => some ([], .ready)
  | '[' => some ([.openArray], .ready)
  | ']' => some ([.closeArray], .ready)
  | '\x7b' => some ([.openObject], .ready)
  | '\x7d' => some ([.closeObject], .ready)
  | ':' => some ([.colon], .ready)
  | ',' => some ([.comma], .ready)
  | '"' => some ([], .str [])
  | c => if isScalarChar c then some ([], .scalar [c]) else none

/-- One character more. -/
def lexStep (c : Char) : Lexer → Option (List Token × Lexer)
  | .ready => lexReady c
  | .scalar read =>
    if isScalarChar c then some ([], .scalar (read ++ [c]))
    else do
      let value ← scalar I read
      let (tokens, lexer) ← lexReady c
      some (.scalar value :: tokens, lexer)
  | .str read =>
    if c = '"' then some ([.str read], .ready)
    else if c = '\\' then some ([], .escape read)
    else if c.toNat < 0x20 then none
    else some ([], .str (read ++ [c.toNat]))
  | .escape read =>
    if c = 'u' then some ([], .unicode read [])
    else (escaped c).map fun c => ([], .str (read ++ [c.toNat]))
  | .unicode read digits => do
    let digits := digits ++ [c]
    let unit ← digits.foldlM (fun n c => (hexValue c).map (16 * n + ·)) 0
    if digits.length < 4 then some ([], .unicode read digits)
    else some ([], .str (appendUnit read unit))
where
  /-- The value of an ASCII hexadecimal digit. -/
  hexValue (c : Char) : Option Nat := if isAscii c then digitValue I 16 c else none

def tokens (lexer : Lexer) : List Char → Option (List Token)
  | [] =>
    match lexer with
    | .ready => some []
    | .scalar read => (scalar I read).map fun value => [.scalar value]
    | _ => none
  | c :: cs => do
    let (emitted, lexer) ← lexStep I c lexer
    let rest ← tokens lexer cs
    some (emitted ++ rest)

/-! ## Values -/

/-- An open array with its items so far, or an open object with its members so far and the key
whose value is being read. -/
inductive Frame where
  | array (items : List Json)
  | object (members : List (PyStr × Json)) (key : PyStr)

/-- What the reader expects. -/
inductive Expect where
  | value
  /-- The first item of an array, or its end. -/
  | firstItem
  /-- The first key of an object, or its end. -/
  | firstKey
  | key (members : List (PyStr × Json))
  | colon (members : List (PyStr × Json)) (key : PyStr)
  /-- A value is complete: a separator, the end of its container or the end of the text. -/
  | after (value : Json)

/-- The first token of a value, under the frames that are open. -/
def readValue (stack : List Frame) : Token → Option (Expect × List Frame)
  | .openArray =>
    if stack.length < I.recursionLimit then some (.firstItem, stack) else none
  | .openObject =>
    if stack.length < I.recursionLimit then some (.firstKey, stack) else none
  | .str s => some (.after (.str s), stack)
  | .scalar value => some (.after value, stack)
  | _ => none

def readStep (stack : List Frame) (token : Token) : Expect → Option (Expect × List Frame)
  | .value => readValue I stack token
  | .firstItem =>
    match token with
    | .closeArray => some (.after (.array []), stack)
    | token => readValue I (.array [] :: stack) token
  | .firstKey =>
    match token with
    | .closeObject => some (.after (.object []), stack)
    | .str key => some (.colon [] key, stack)
    | _ => none
  | .key members =>
    match token with
    | .str key => some (.colon members key, stack)
    | _ => none
  | .colon members key =>
    match token with
    | .colon => some (.value, .object members key :: stack)
    | _ => none
  | .after value =>
    match stack, token with
    | .array items :: stack, .comma => some (.value, .array (items ++ [value]) :: stack)
    | .array items :: stack, .closeArray => some (.after (.array (items ++ [value])), stack)
    | .object members key :: stack, .comma => some (.key (members ++ [(key, value)]), stack)
    | .object members key :: stack, .closeObject =>
      some (.after (.object (members ++ [(key, value)])), stack)
    | _, _ => none

def read (expect : Expect) (stack : List Frame) : List Token → Option Json
  | [] =>
    match expect, stack with
    | .after value, [] => some value
    | _, _ => none
  | token :: tokens => do
    let (expect, stack) ← readStep I stack token expect
    read expect stack tokens

/-- The value of a key: the last one, where the key occurs more than once. -/
def lookup (members : List (PyStr × Json)) (key : String) : Option Json :=
  (members.reverse.find? fun m => m.1 = .ofString key).map Prod.snd

end Json

/-- `json.loads(text)` -/
def jsonLoads (I : Interpreter) (text : String) : Option Json :=
  (Json.tokens I .ready text.toList).bind (Json.read I .value [])

end Rawbin
