import Parley.Toml.Reader

/-! Strings: between quotation marks with escapes, or between apostrophes as they stand;
on one line, or on several between triple marks.

In a string on several lines a line end counts as one line feed however it is written,
one right after the opening does not count, and one or two marks may stand anywhere, also
before the closing. -/
namespace Parley.Toml.Reader

/-! ### Escapes -/

def hexValue (c : Char) : Nat :=
  if c.isDigit then c.toNat - '0'.toNat else c.toLower.toNat - 'a'.toNat + 10

def isHex (c : Char) : Bool := c.isDigit || 'a' ≤ c && c ≤ 'f' || 'A' ≤ c && c ≤ 'F'

def ofDigits (radix : Nat) (digits : List Char) : Nat :=
  digits.foldl (fun n c => n * radix + hexValue c) 0

/-- The character of a number in so many hexadecimal digits. -/
def codePoint (width : Nat) : Reader Char := do
  let n := ofDigits 16 (← exactly isHex width)
  guard (n.isValidChar)
  return Char.ofNat n

/-- What follows a backslash. -/
def escaped : Reader Char := do
  match ← oneOf fun _ => true with
  | 'b' => return '\x08'
  | 't' => return '\t'
  | 'n' => return '\n'
  | 'f' => return '\x0c'
  | 'r' => return '\r'
  | '"' => return '"'
  | '\\' => return '\\'
  | 'u' => codePoint 4
  | 'U' => codePoint 8
  | _ => failure

/-! ### On one line -/

/-- Characters that stand for themselves in a string with escapes. -/
def isPlain (c : Char) : Bool := isPrintable c && c != '"' && c != '\\'

/-- Characters that stand for themselves in a string without escapes. -/
def isVerbatim (c : Char) : Bool := isPrintable c && c != '\''

def escape : Reader (List Char) := do
  char '\\'
  return [← escaped]

def quoted : Reader (List Char) := do
  char '"'
  let parts ← many (span1 isPlain <|> escape)
  char '"'
  return parts.flatten

def verbatim : Reader (List Char) := do
  char '\''
  let cs ← span isVerbatim
  char '\''
  return cs

/-! ### On several lines -/

/-- A line end in a string. -/
def lineFeed : Reader (List Char) := do
  newline
  return ['\n']

/-- A backslash at the end of a line: it and all blanks and line ends from there on do not
count. -/
def continuation : Reader (List Char) := do
  char '\\'
  blanks
  newline
  discard (many (newline <|> discard (span1 isBlank)))
  return []

/-- One or two marks that do not close the string. -/
def strayMarks (mark : Char) : Reader (List Char) := do
  let marks ← span1 (· == mark)
  guard (marks.length < 3)
  return marks

/-- The closing marks, and what precedes them of the string's own. -/
def closingMarks (mark : Char) : Reader (List Char) := do
  let marks ← span (· == mark)
  guard (3 ≤ marks.length ∧ marks.length ≤ 5)
  return marks.drop 3

/-- A string between triple marks, of parts that one reader reads. -/
def onLines (mark : Char) (part : Reader (List Char)) : Reader (List Char) := do
  discard (exactly (· == mark) 3)
  discard (optional? newline)
  let parts ← many (part <|> lineFeed <|> strayMarks mark)
  return parts.flatten ++ (← closingMarks mark)

def quotedLines : Reader (List Char) := onLines '"' (span1 isPlain <|> continuation <|> escape)

def verbatimLines : Reader (List Char) := onLines '\'' (span1 isVerbatim)

/-- A string of any kind. -/
def string : Reader String :=
  String.ofList <$> (quotedLines <|> quoted <|> verbatimLines <|> verbatim)

end Parley.Toml.Reader
