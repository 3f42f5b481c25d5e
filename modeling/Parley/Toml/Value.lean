/-! Values and tables.

A table is a list of entries in the order of their coming. How a table came to be decides
what may still be added to it, and where from. -/
namespace Parley.Toml

/-- How a table came to be. -/
inductive Origin where
  /-- Written in braces: complete. -/
  | braces
  /-- Opened by a header of its own. -/
  | header
  /-- Only on the way of a longer header. -/
  | path
  /-- On the way of a dotted key. -/
  | dotted
  deriving Repr, DecidableEq

inductive Value where
  | text (s : String)
  | integer (n : Int)
  | boolean (b : Bool)
  /-- A number that is no integer; nothing depends on which. -/
  | float
  /-- A date, a time or both; nothing depends on which. -/
  | moment
  /-- Written in brackets. -/
  | array (items : List Value)
  | table (origin : Origin) (entries : List (String × Value))
  /-- Opened by headers in double brackets, one for each table. -/
  | tables (elements : List (List (String × Value)))

abbrev Table := List (String × Value)

/-- A dotted key, or the path of a header. -/
abbrev Key := List String

namespace Table

def get? (t : Table) (k : String) : Option Value := t.lookup k

/-- Replaces the value of a key, or adds one. -/
def put (t : Table) (k : String) (v : Value) : Table :=
  if (t.get? k).isSome then t.map fun e => if e.1 = k then (k, v) else e else t ++ [(k, v)]

/-! ### Dotted keys -/

/-- Adds a value under a dotted key. The tables on the way must be new, or open: made by
dotted keys or on the way of a header. The table at its end must be the one at hand or
made by dotted keys (`ends`), and must not have the key. -/
def insert (v : Value) : Bool → Key → Table → Option Table
  | _, [], _ => none
  | ends, [k], t => if ends && (t.get? k).isNone then some (t ++ [(k, v)]) else none
  | _, k :: rest, t =>
    match t.get? k with
    | none => (insert v true rest []).map fun sub => t ++ [(k, .table .dotted sub)]
    | some (.table .dotted sub) =>
      (insert v true rest sub).map fun sub => t.put k (.table .dotted sub)
    | some (.table .path sub) =>
      (insert v false rest sub).map fun sub => t.put k (.table .path sub)
    | some (.tables elements) =>
      (insert v false rest (elements.getLast?.getD [])).map fun last =>
        t.put k (.tables (elements.dropLast ++ [last]))
    | some _ => none

/-- The table in braces that pairs of dotted keys and values make. -/
def ofPairs (pairs : List (Key × Value)) : Option Table :=
  pairs.foldlM (fun t (k, v) => insert v true k t) []

/-! ### Headers -/

/-- Changes the table at the end of a header's path. Tables missing on the way are made; a
list of tables stands for its last. -/
def within (change : Table → Option Table) : Key → Table → Option Table
  | [], t => change t
  | k :: rest, t =>
    match t.get? k with
    | none => (within change rest []).map fun sub => t ++ [(k, .table .path sub)]
    | some (.table .braces _) => none
    | some (.table origin sub) =>
      (within change rest sub).map fun sub => t.put k (.table origin sub)
    | some (.tables elements) =>
      (within change rest (elements.getLast?.getD [])).map fun last =>
        t.put k (.tables (elements.dropLast ++ [last]))
    | some _ => none

/-- Opens the table of a header. It must be new, or known only from longer headers. -/
def openTable (k : String) (t : Table) : Option Table :=
  match t.get? k with
  | none => some (t ++ [(k, .table .header [])])
  | some (.table .path sub) => some (t.put k (.table .header sub))
  | some _ => none

/-- Adds a table to the list of a header in double brackets. -/
def openElement (k : String) (t : Table) : Option Table :=
  match t.get? k with
  | none => some (t ++ [(k, .tables [[]])])
  | some (.tables elements) => some (t.put k (.tables (elements ++ [[]])))
  | some _ => none

end Table
end Parley.Toml
