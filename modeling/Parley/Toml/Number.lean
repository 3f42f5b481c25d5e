import Parley.Toml.Text
import Parley.Toml.Value

/-! Numbers.

Single underscores may stand between digits. An integer must fit 64 bits with a sign;
only a decimal one may have a sign. A float is checked for one thing: a positive one must
not be so large that it is infinite in double precision. -/
namespace Parley.Toml.Reader

/-- Digits of a class, with underscores between them. -/
def digits (p : Char → Bool) : Reader (List Char) := do
  return (← separated1 (span1 p) (char '_')).flatten

/-- Whether there is a minus sign; a plus sign may stand as well. -/
def negative : Reader Bool := (char '-' *> pure true) <|> discard (optional? (char '+')) *> pure false

/-! ### Integers -/

/-- Decimal digits without a leading zero. -/
def whole : Reader (List Char) := do
  let ds ← digits Char.isDigit
  guard (ds.length = 1 ∨ ds.head? ≠ some '0')
  return ds

def isOctal (c : Char) : Bool := '0' ≤ c && c ≤ '7'

def isBinary (c : Char) : Bool := c == '0' || c == '1'

/-- An integer of 64 bits with a sign. -/
def fitting (n : Int) : Reader Value := do
  guard (Int64.minValue.toInt ≤ n ∧ n ≤ Int64.maxValue.toInt)
  return .integer n

/-- An integer with a radix before it. -/
def withRadix (mark : String) (radix : Nat) (p : Char → Bool) : Reader Value := do
  literal mark
  fitting (ofDigits radix (← digits p))

/-! ### Floats -/

/-- The number from which on a decimal fraction is infinite in double precision: half a
unit beyond the largest double. -/
def infinite : Nat := (1 <<< 1024) - (1 <<< 970)

/-- Whether the digits of a whole number, times a power of ten, reach infinity. The first
two tests keep the powers small. -/
def isInfinite (ds : List Char) (exponent : Int) : Bool :=
  let ds := ds.dropWhile (· == '0')
  let places : Int := ds.length + exponent
  if ds = [] ∨ places ≤ 308 then false
  else if 310 ≤ places then true
  else
    let m := ofDigits 10 ds
    infinite * Nat.pow 10 (-exponent).toNat ≤ m * Nat.pow 10 exponent.toNat

def fraction : Reader (List Char) := char '.' *> digits Char.isDigit

def exponent : Reader Int := do
  discard (oneOf fun c => c == 'e' || c == 'E')
  let minus ← negative
  let n : Int := ofDigits 10 (← digits Char.isDigit)
  return if minus then -n else n

/-- A decimal integer or a float. -/
def decimal : Reader Value := do
  let minus ← negative
  let ds ← whole
  match ← optional? fraction, ← optional? exponent with
  | none, none =>
    let n : Int := ofDigits 10 ds
    fitting (if minus then -n else n)
  | frac, exp =>
    let frac := frac.getD []
    guard (minus || !isInfinite (ds ++ frac) (exp.getD 0 - frac.length))
    return .float

/-- Infinity and what is no number. -/
def special : Reader Value := do
  discard negative
  literal "inf" <|> literal "nan"
  return .float

def number : Reader Value :=
  special <|> withRadix "0x" 16 isHex <|> withRadix "0o" 8 isOctal <|> withRadix "0b" 2 isBinary
    <|> decimal

end Parley.Toml.Reader
