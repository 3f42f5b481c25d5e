/-! Readers: functions that take characters off the front of a text.

A reader yields a value and the characters that are left, or fails and takes none.
`many` repeats a reader until it fails; every round but the last is meant to take
something, so there are at most as many rounds as characters. -/
namespace Parley.Toml

abbrev Reader (α : Type) := StateT (List Char) Option α

namespace Reader
variable {α : Type}

/-- Reads all of a text. -/
def readAll? (r : Reader α) (text : List Char) : Option α :=
  match r text with
  | some (a, []) => some a
  | _ => none

/-! ### Single characters -/

/-- The next character, if it is of a class. -/
def oneOf (p : Char → Bool) : Reader Char
  | [] => none
  | c :: cs => if p c then some (c, cs) else none

def char (c : Char) : Reader Unit := discard (oneOf (· == c))

def literal (s : String) : Reader Unit := s.toList.forM char

/-! ### Runs of characters -/

/-- The longest run of characters of a class. -/
def span (p : Char → Bool) : Reader (List Char) := fun cs =>
  some (cs.takeWhile p, cs.dropWhile p)

/-- The longest run of characters of a class, of which there is at least one. -/
def span1 (p : Char → Bool) : Reader (List Char) := do
  let run ← span p
  guard (run ≠ [])
  return run

/-- So many characters of a class. -/
def exactly (p : Char → Bool) : Nat → Reader (List Char)
  | 0 => pure []
  | n + 1 => do return (← oneOf p) :: (← exactly p n)

/-! ### Repetition -/

/-- A value, or nothing in place of failure. -/
def optional? (r : Reader α) : Reader (Option α) := (some <$> r) <|> pure none

/-- At most so many values, after those in hand. -/
def upTo (r : Reader α) : Nat → List α → Reader (List α)
  | 0, found => pure found.reverse
  | n + 1, found => do
    match ← optional? r with
    | none => return found.reverse
    | some a => upTo r n (a :: found)

/-- As many values as there are. -/
def many (r : Reader α) : Reader (List α) := do
  match ← optional? r with
  | none => return []
  | some a => upTo r (← get).length [a]

/-- One value or more, with separators between them. -/
def separated1 (r : Reader α) (separator : Reader Unit) : Reader (List α) := do
  return (← r) :: (← many (separator *> r))

/-- Any number of values, with separators between them. -/
def separated (r : Reader α) (separator : Reader Unit) : Reader (List α) :=
  separated1 r separator <|> pure []

/-! ### Blanks, comments and line ends -/

def isBlank (c : Char) : Bool := c == ' ' || c == '\t'

/-- What may stand in a comment: tabs and everything that is no control character. -/
def isPrintable (c : Char) : Bool := c == '\t' || ' ' ≤ c && c != '\x7f'

def blanks : Reader Unit := discard (span isBlank)

/-- A line feed, after a carriage return or not. -/
def newline : Reader Unit := literal "\r\n" <|> char '\n'

def comment : Reader Unit := do
  char '#'
  discard (span isPrintable)

/-- The end of the text. -/
def textEnd : Reader Unit
  | [] => some ((), [])
  | _ :: _ => none

/-- The end of a line or of the text. -/
def lineEnd : Reader Unit := newline <|> textEnd

/-- What may follow on a line that is complete. -/
def lineRest : Reader Unit := do
  blanks
  discard (optional? comment)
  lineEnd

/-- Any number of blanks, line ends and comments with their line ends. -/
def gap : Reader Unit := do
  blanks
  discard (many (newline *> blanks <|> comment *> newline *> blanks))

end Reader
end Parley.Toml
