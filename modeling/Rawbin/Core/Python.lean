import Mathlib.Data.Rat.Floor
import Mathlib.Data.List.SplitBy
import Rawbin.Core.Config

/-!
# Text and numbers of Python

The built-in functions that the source applies to text: parts of `str`, `int()`, `float()` on
the text of a number, and `bytes.decode`.
-/

namespace Rawbin

/-- What these functions take from the interpreter: the Unicode database for the characters
outside ASCII, and two limits. -/
structure Interpreter where
  /-- The value of a character as a decimal digit. -/
  decimalUnicode : Char → Option Nat
  spaceUnicode : Char → Bool
  /-- `sys.get_int_max_str_digits()` -/
  maxStrDigits : Nat
  /-- How deep `json.loads` follows arrays and objects. -/
  recursionLimit : Nat

variable (I : Interpreter)

/-! ## Text -/

def isAscii (c : Char) : Bool := c.val < 128

/-- `str.strip(chars)` on a list of characters. -/
def stripBy (p : Char → Bool) (cs : List Char) : List Char :=
  ((cs.dropWhile p).reverse.dropWhile p).reverse

/-- `str.split(sep)`; there is always at least one piece. -/
def splitBy (sep : Char) (cs : List Char) : List (List Char) := cs.splitOn sep

/-- `str.replace(pattern, "")`, with the number of characters of a match still to be skipped. -/
def removeAll (pattern : List Char) : Nat → List Char → List Char
  | _, [] => []
  | n + 1, _ :: cs => removeAll pattern n cs
  | 0, c :: cs =>
    if pattern.isPrefixOf (c :: cs) then removeAll pattern (pattern.length - 1) cs
    else c :: removeAll pattern 0 cs

/-- `bytes.decode("utf-8")` -/
def decodeUtf8 (bytes : ByteArray) : Except Exn String :=
  match String.fromUTF8? bytes with
  | some text => .ok text
  | none => .error .unicodeDecodeError

/-! ## Integers -/

/-- The value of a digit in the given base. -/
def digitValue (base : Nat) (c : Char) : Option Nat :=
  let value :=
    if c.isDigit then some (c.toNat - '0'.toNat)
    else if c.isLower then some (c.toNat - 'a'.toNat + 10)
    else if c.isUpper then some (c.toNat - 'A'.toNat + 10)
    else if isAscii c then none
    else I.decimalUnicode c
  value.filter (· < base)

/-- The white space that `int()` skips. -/
def isIntSpace (c : Char) : Bool :=
  if isAscii c then c = ' ' || (9 ≤ c.toNat && c.toNat ≤ 13) else I.spaceUnicode c

/-- Digits, with single underscores between them. -/
def pyDigits (base acc : Nat) : List Char → Option Nat
  | [] => some acc
  | '_' :: c :: cs => (digitValue I base c).bind fun n => pyDigits base (acc * base + n) cs
  | c :: cs => (digitValue I base c).bind fun n => pyDigits base (acc * base + n) cs

/-- An `int` literal without its sign: at least one digit, and no underscore first. A decimal
one may not be too long. -/
def pyNat (base : Nat) : List Char → Option Nat
  | [] => none
  | '_' :: _ => none
  | cs =>
    if base = 10 && I.maxStrDigits < (cs.filter (· ≠ '_')).length then none
    else pyDigits I base 0 cs

/-- The prefix `0x` that a literal in base 16 may have. -/
def dropHexPrefix : List Char → List Char
  | '0' :: 'x' :: '_' :: cs => cs
  | '0' :: 'X' :: '_' :: cs => cs
  | '0' :: 'x' :: cs => cs
  | '0' :: 'X' :: cs => cs
  | cs => cs

/-- `int(text, base)` for base 10 and 16; `none` is a `ValueError`. -/
def pyInt (base : Nat) (cs : List Char) : Option Int :=
  let magnitude (cs : List Char) := pyNat I base (if base = 16 then dropHexPrefix cs else cs)
  match stripBy (isIntSpace I) cs with
  | '-' :: ds => (magnitude ds).map fun n => -(n : Int)
  | '+' :: ds => (magnitude ds).map fun n => (n : Int)
  | ds => (magnitude ds).map fun n => (n : Int)

/-- `uuid.UUID(text)`; `none` is a `ValueError`. -/
def parseUuid (text : String) : Option Uuid :=
  let cs := removeAll "uuid:".toList 0 (removeAll "urn:".toList 0 text.toList)
  let hex := (stripBy (fun c => c = '{' || c = '}') cs).filter (· ≠ '-')
  if hex.length ≠ 32 then none
  else (pyInt I 16 hex).bind fun n => if 0 ≤ n ∧ n < 2 ^ 128 then some n.toNat else none

/-! ## Floating-point numbers -/

/-- A `float`. The two zeros are one. -/
inductive PyFloat where
  | nan
  | inf (negative : Bool)
  | finite (q : ℚ)
  deriving DecidableEq

namespace PyFloat

/-- `x < q`; nothing compares with NaN. -/
def lt : PyFloat → ℚ → Bool
  | .nan, _ => false
  | .inf negative, _ => negative
  | .finite r, q => r < q

/-- `x > q` -/
def gt : PyFloat → ℚ → Bool
  | .nan, _ => false
  | .inf negative, _ => !negative
  | .finite r, q => q < r

/-- `x >= q` -/
def ge : PyFloat → ℚ → Bool
  | .nan, _ => false
  | .inf negative, _ => !negative
  | .finite r, q => q ≤ r

/-- `x <= q` -/
def le : PyFloat → ℚ → Bool
  | .nan, _ => false
  | .inf negative, _ => negative
  | .finite r, q => r ≤ q

end PyFloat

def pow2 (e : Int) : ℚ := if 0 ≤ e then 2 ^ e.toNat else 1 / 2 ^ (-e).toNat

/-- The nearest integer; between two, the even one. -/
def roundHalfEven (q : ℚ) : Int :=
  let f := ⌊q⌋
  if q - f < 1 / 2 then f
  else if 1 / 2 < q - f then f + 1
  else if f % 2 = 0 then f else f + 1

/-- The exponent of the last bit of the significand of a double next to `q`. -/
def lastBit (q : ℚ) : Int :=
  let e : Int := (Nat.log2 q.num.natAbs : Int) - Nat.log2 q.den
  let e := if pow2 e ≤ |q| then e else e - 1
  max (e - 52) (-1074)

/-- `float(text)` for the text of a number: the nearest double. -/
def roundToDouble (q : ℚ) : PyFloat :=
  let ulp := pow2 (lastBit q)
  let r := roundHalfEven (q / ulp) * ulp
  if |r| < pow2 1024 then .finite r else .inf (q < 0)

/-- `format(x, ".{digits}f")` of a finite float: rounded half to even, with its sign. -/
def formatFixed (digits : Nat) (q : ℚ) : String :=
  let n := (roundHalfEven (|q| * 10 ^ digits)).toNat
  let fraction := (toString (n % 10 ^ digits)).toList.leftpad digits '0'
  (if q < 0 then "-" else "") ++ toString (n / 10 ^ digits) ++
    (if digits = 0 then "" else "." ++ String.ofList fraction)

end Rawbin
