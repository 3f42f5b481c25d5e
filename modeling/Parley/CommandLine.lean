/-! The command line: what its words say.

There are two commands. `serve` answers calls; `call` sends one message. Options stand
before or after the words they go with, as `--name value`, `--name=value`, `-n value`,
`-nvalue` or `-n=value`; short flags may be run together, and after `--` every word stands
for itself. The configuration may be named before the command or after it, and the latter
counts.

Words are read in order, and the first mistake found is reported. The value of an option
is looked at only when something comes after it at its own level, or at the end; what the
command's words say is looked at before an option that was left open in front of it. -/
namespace Parley.CommandLine

inductive Command where
  | serve (bind : Option String)
  | call (address : Option String) (notify : Bool) (message : String)
  deriving Repr, DecidableEq

/-- What a command line asks for. -/
structure Request where
  config : Option String
  command : Command
  deriving Repr, DecidableEq

/-- Why a command line asks for nothing that can be done. -/
inductive UsageError where
  /-- Help was asked for. -/
  | help
  /-- There are no words at all. -/
  | nothing
  /-- There are options, but no command. -/
  | noCommand
  | unknownCommand
  | unknownArgument
  | missingMessage
  /-- An option has no value, or the configuration has an empty name. -/
  | missingValue
  /-- An option or flag was given twice. -/
  | repeated
  /-- A flag has a value. -/
  | needlessValue
  deriving Repr, DecidableEq

def UsageError.message : UsageError → String
  | .help | .nothing => "Sends encrypted calls over TCP: serve, or call MESSAGE."
  | .noCommand => "a command is needed: serve or call"
  | .unknownCommand => "there is no such command"
  | .unknownArgument => "unexpected argument"
  | .missingMessage => "a message is needed"
  | .missingValue => "an option has no value"
  | .repeated => "an option was given twice"
  | .needlessValue => "a flag takes no value"

/-! ### Options -/

inductive Flag where
  | config
  | bind
  | addr
  | notify
  | help
  deriving Repr, DecidableEq

namespace Flag

def long : Flag → String
  | .config => "config"
  | .bind => "bind"
  | .addr => "addr"
  | .notify => "notify"
  | .help => "help"

/-- The letter that stands for a flag: its first. -/
def short (f : Flag) : Option Char := f.long.toList.head?

def takesValue : Flag → Bool
  | .config | .bind | .addr => true
  | .notify | .help => false

end Flag

/-- What may be said at one level: on the whole, or of one command. -/
structure Level where
  flags : List Flag
  commands : List String := []
  /-- Whether a message is expected. -/
  takesMessage : Bool := false
  deriving Repr, DecidableEq

def root : Level where
  flags := [.config, .help]
  commands := ["serve", "call", "help"]

def serveLevel : Level where
  flags := [.config, .bind, .help]

def callLevel : Level where
  flags := [.config, .addr, .notify, .help]
  takesMessage := true

/-! ### What was said -/

structure Given where
  values : List (Flag × String) := []
  /-- The last option, as long as nothing came after it, and its value once it has one. -/
  pending : Option (Flag × Option String) := none
  message : Option String := none
  deriving Repr, DecidableEq

namespace Given

def value? (g : Given) (f : Flag) : Option String := g.values.lookup f

/-- Takes note of a flag and its value. -/
def record (g : Given) (f : Flag) (v : String) : Except UsageError Given :=
  if (g.value? f).isSome then .error .repeated
  else if f = .config ∧ v = "" then .error .missingValue
  else .ok { g with values := (f, v) :: g.values }

/-- Looks at the option that is pending. -/
def resolve (g : Given) : Except UsageError Given :=
  match g.pending with
  | none => .ok g
  | some (_, none) => .error .missingValue
  | some (f, some v) => { g with pending := none }.record f v

/-- An option whose value is the next word. -/
def expectValue (g : Given) (f : Flag) : Except UsageError Given :=
  g.resolve.map fun g => { g with pending := some (f, none) }

/-- An option with its value. -/
def give (g : Given) (f : Flag) (v : String) : Except UsageError Given :=
  g.resolve.bind (·.record f v)

/-- A flag without a value. Help is given at once. -/
def raise (g : Given) (f : Flag) : Except UsageError Given :=
  g.resolve.bind fun g => if f = .help then .error .help else g.record f ""

end Given

/-! ### Words -/

/-- `--name` or `--name=value`, after the dashes. -/
def long (l : Level) (g : Given) (word : List Char) : Except UsageError Given :=
  let name := String.ofList (word.takeWhile (· ≠ '='))
  let value := (word.dropWhile (· ≠ '=')).tail?
  match l.flags.find? (·.long == name) with
  | none => .error .unknownArgument
  | some f =>
    match f.takesValue, value with
    | true, some v => g.give f (String.ofList v)
    | true, none => g.expectValue f
    | false, some _ => .error .needlessValue
    | false, none => g.raise f

/-- Short flags run together, after the dash. The first that takes a value takes the rest
of the word, or else the next word. -/
def short (l : Level) (g : Given) : List Char → Except UsageError Given
  | [] => .ok g
  | c :: rest =>
    match l.flags.find? (·.short == some c) with
    | none => .error .unknownArgument
    | some f =>
      if f.takesValue then
        match rest with
        | [] => g.expectValue f
        | '=' :: v => g.give f (String.ofList v)
        | v => g.give f (String.ofList v)
      else do short l (← g.raise f) rest

/-- A word that stands for itself; `dashed` if it comes after `--`. -/
def plain (l : Level) (g : Given) (dashed : Bool) (word : String) : Except UsageError Given :=
  if l.takesMessage ∧ g.message.isNone then
    g.resolve.map fun g => { g with message := some word }
  else if l.commands ≠ [] ∧ ¬(dashed ∧ l.commands.contains word) then .error .unknownCommand
  else .error .unknownArgument

/-- What one level's words say: what was given, and the command they end with and the
words after it. -/
structure Reading where
  given : Given
  command : Option (String × List String) := none
  deriving Repr, DecidableEq

/-- Reads words up to a command or to their end. -/
def read (l : Level) (g : Given) : List String → Except UsageError Reading
  | [] => .ok { given := g }
  | word :: rest => do
    match g.pending with
    | some (f, none) =>
      match word.toList with
      | ['-', '-'] => dashes g rest
      | '-' :: '-' :: cs => read l (← long l g cs) rest
      | '-' :: c :: cs => read l (← short l g (c :: cs)) rest
      | _ => read l { g with pending := some (f, some word) } rest
    | _ =>
      if l.commands.contains word then return { given := g, command := some (word, rest) }
      match word.toList with
      | ['-', '-'] => dashes g rest
      | '-' :: '-' :: cs => read l (← long l g cs) rest
      | '-' :: c :: cs => read l (← short l g (c :: cs)) rest
      | _ => read l (← plain l g false word) rest
where
  /-- The words after `--`. -/
  dashes (g : Given) (words : List String) : Except UsageError Reading :=
    (words.foldlM (plain l · true ·) g).map fun g => { given := g }

/-! ### The whole line -/

/-- What `help` and the words after it come to. -/
def helpOn : List String → UsageError
  | [] => .help
  | [word] => if root.commands.contains word then .help else .unknownCommand
  | _ => .unknownCommand

/-- Reads the words of a command, which are the last. -/
def readCommand (l : Level) (words : List String) : Except UsageError Given := do
  (← read l {} words).given.resolve

/-- The command of a name and what was given of it. -/
def commandOf (name : String) (words : List String) : Except UsageError (Command × Given) :=
  if name = "serve" then do
    let g ← readCommand serveLevel words
    return (.serve (g.value? .bind), g)
  else if name = "call" then do
    let g ← readCommand callLevel words
    match g.message with
    | none => throw .missingMessage
    | some message => return (.call (g.value? .addr) (g.value? .notify).isSome message, g)
  else throw (helpOn words)

/-- What the words after the program's name ask for. -/
def parse (words : List String) : Except UsageError Request := do
  let r ← read root {} words
  match r.command with
  | none =>
    let g ← r.given.resolve
    throw (if g.values = [] then .nothing else .noCommand)
  | some (name, rest) =>
    let (command, inner) ← commandOf name rest
    let outer ← r.given.resolve
    return { config := (inner.value? .config).or (outer.value? .config), command }

end Parley.CommandLine
