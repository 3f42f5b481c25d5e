import Parley.Toml.Moment
import Parley.Toml.Number
import Parley.Toml.Value

/-! Documents: lines that open tables and lines that add values to the open one.

A text is first read into statements, one a line, and the statements then make the table.
Keys may have up to 79 parts, and arrays and tables in braces may be nested 79 deep. -/
namespace Parley.Toml

/-- What a line says. -/
inductive Statement where
  /-- `[path]` opens a table. -/
  | header (path : Key)
  /-- `[[path]]` opens one more table of a list. -/
  | element (path : Key)
  | entry (key : Key) (v : Value)

namespace Reader

/-! ### Keys -/

def isBare (c : Char) : Bool := c.isAlphanum || c == '-' || c == '_'

def keyPart : Reader String := String.ofList <$> (quoted <|> verbatim <|> span1 isBare)

/-- How many parts a key must stay below, and how deep values must. -/
def limit : Nat := 80

def key : Reader Key := do
  let parts ← separated1 (blanks *> keyPart <* blanks) (char '.')
  guard (parts.length < limit)
  return parts

/-! ### Values -/

def boolean : Reader Value :=
  (literal "true" *> pure (.boolean true)) <|> (literal "false" *> pure (.boolean false))

/-- Values in brackets, with commas between them and perhaps one after the last. -/
def array (item : Reader Value) : Reader Value := do
  char '['
  let items ← separated (gap *> item <* gap) (char ',')
  if items ≠ [] then discard (optional? (char ','))
  gap
  char ']'
  return .array items

/-- A key, an equals sign and a value. -/
def pair (item : Reader Value) : Reader (Key × Value) := do
  let k ← key
  char '='
  blanks
  return (k, ← item)

/-- Pairs in braces, on one line, with commas between them. -/
def braces (item : Reader Value) : Reader Value := do
  char '{'
  let pairs ← separated (pair item <* blanks) (char ',')
  blanks
  char '}'
  return .table .braces (← Table.ofPairs pairs)

/-- A value nested at most so deep. -/
def value : Nat → Reader Value
  | 0 => scalar
  | depth + 1 => scalar <|> array (value depth) <|> braces (value depth)
where
  scalar : Reader Value :=
    (.text <$> string) <|> (moment *> pure .moment) <|> number <|> boolean

/-! ### Lines -/

def header : Reader Statement :=
  (do literal "[["; let path ← key; literal "]]"; return .element path)
    <|> (do char '['; let path ← key; char ']'; return .header path)

def entry : Reader Statement := do
  let (k, v) ← pair (value (limit - 1))
  return .entry k v

/-- A line and what it says, if it says anything. -/
def line : Reader (Option Statement) := do
  blanks
  (newline *> pure none)
    <|> (comment *> lineEnd *> pure none)
    <|> (some <$> (header <|> entry) <* lineRest)

/-- The lines of a text, after a byte order mark that does not count. -/
def statements : Reader (List Statement) := do
  discard (optional? (char '\uFEFF'))
  let found ← many line
  blanks
  return found.filterMap id

end Reader

/-! ### The table of a document -/

/-- The table so far, and the path of the open one. -/
structure Draft where
  root : Table := []
  path : Key := []

/-- Opens the table at the end of a path. -/
def Draft.turnTo (d : Draft) (f : String → Table → Option Table) (path : Key) : Option Draft :=
  match path.getLast? with
  | none => none
  | some k => (d.root.within (f k) path.dropLast).map fun root => { root, path }

/-- Takes a statement in, unless it goes against those before it. -/
def Draft.add (d : Draft) : Statement → Option Draft
  | .header path => d.turnTo Table.openTable path
  | .element path => d.turnTo Table.openElement path
  | .entry k v => (d.root.within (Table.insert v true k) d.path).map fun root => { d with root }

/-- The table that a text spells, if it spells one. -/
def parse? (text : String) : Option Table := do
  let statements ← Reader.statements.readAll? text.toList
  let d ← statements.foldlM Draft.add {}
  return d.root

end Parley.Toml
