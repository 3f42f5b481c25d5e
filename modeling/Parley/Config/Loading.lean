import Parley.Config.Reading
import Parley.Config.Validation
import Parley.Error
import Parley.Utf8

/-! Configurations from files and their text. -/
namespace Parley.Config

/-- Why there is no configuration. -/
inductive LoadError where
  | io (cause : IoError)
  /-- The text spells no table, or a field has the wrong type. -/
  | malformed
  | invalid (problems : List Problem)
  deriving Repr, DecidableEq

def LoadError.message : LoadError → String
  | .io cause => s!"IO error: {cause.text}"
  | .malformed => "Parse error: not a configuration"
  | .invalid problems =>
    let texts := String.intercalate ", " (problems.map Problem.text)
    s!"Validation failed: {texts}"

/-- A configuration without problems. -/
def validated (c : Config) : Except LoadError Config :=
  if c.problems = [] then .ok c else .error (.invalid c.problems)

/-- The configuration that a text spells. -/
def parse (text : String) : Except LoadError Config :=
  match (Toml.parse? text).bind ofTable? with
  | none => .error .malformed
  | some c => c.validated

def fileNotFound : IoError := { kind := .notFound, text := "No such file or directory" }

def notUtf8 : IoError := { kind := .invalidData, text := "stream did not contain valid UTF-8" }

/-- The configuration in a file, given its bytes if it is there. -/
def load : Option Bytes → Except LoadError Config
  | none => .error (.io fileNotFound)
  | some bs =>
    match Utf8.decode? bs with
    | none => .error (.io notUtf8)
    | some text => parse text

end Parley.Config
