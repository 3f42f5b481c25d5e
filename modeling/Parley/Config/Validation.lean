import Parley.Address
import Parley.Config.Schema
import Parley.Frame

/-! What a configuration must be like beyond its types.

`problems` lists everything that is wrong, in the order of the fields. Zero is never
wrong, for it selects a default. -/
namespace Parley.Config

/-- The fields that can be wrong. -/
inductive Field where
  | bindAddress
  | address
  | readBufferSize
  | writeBufferSize
  | logLevel
  | metricsAddress
  deriving Repr, DecidableEq

/-- Where a field stands in the configuration. -/
def Field.path : Field → String
  | .bindAddress => "server.bind_address"
  | .address => "client.address"
  | .readBufferSize => "connection.read_buffer_size"
  | .writeBufferSize => "connection.write_buffer_size"
  | .logLevel => "observability.log_level"
  | .metricsAddress => "observability.metrics_address"

def levels : List String := ["trace", "debug", "info", "warn", "error"]

/-- The largest buffer whose ciphertext's length fits the length of a frame. -/
def maxBufferSize : Nat := UInt32.size - 1 - Frame.tagLength - Frame.prefixLength

/-- What is wrong with a value. -/
inductive Fault where
  | notSocketAddress (s : String)
  | notHostPort (s : String)
  /-- No room for a sequence number and one byte more. -/
  | bufferTooSmall (size : Nat)
  | bufferTooLarge (size : Nat)
  | unknownLevel (s : String)
  deriving Repr, DecidableEq

def Fault.message : Fault → String
  | .notSocketAddress s => s!"'{s}' is not a socket address"
  | .notHostPort s => s!"'{s}' is not a host:port pair"
  | .bufferTooSmall size => s!"{size} bytes cannot hold a sequence number and payload"
  | .bufferTooLarge size => s!"{size} bytes exceeds the frame length limit of {maxBufferSize}"
  | .unknownLevel s =>
    let expected := String.intercalate ", " levels
    s!"unknown level '{s}', expected one of {expected}"

structure Problem where
  field : Field
  fault : Fault
  deriving Repr, DecidableEq

def Problem.text (p : Problem) : String := s!"{p.field.path}: {p.fault.message}"

/-! ### Checks -/

def checkSocketAddress (s : String) : Option Fault :=
  if Address.isSocketAddress s then none else some (.notSocketAddress s)

def checkHostPort (s : String) : Option Fault :=
  if Address.isHostPort s then none else some (.notHostPort s)

def checkBuffer (size : Nat) : Option Fault :=
  if size = 0 then none
  else if size ≤ Frame.seqLength then some (.bufferTooSmall size)
  else if maxBufferSize < size then some (.bufferTooLarge size)
  else none

/-- Levels may be written in capital letters. -/
def checkLevel (s : String) : Option Fault :=
  if levels.contains (s.map Char.toLower) then none else some (.unknownLevel s)

/-- Everything that is wrong with a configuration. An address to serve metrics at matters
only if they are served. -/
def problems (c : Config) : List Problem :=
  let check (field : Field) (fault : Option Fault) := (fault.map (Problem.mk field)).toList
  check .bindAddress (checkSocketAddress c.server.bindAddress)
    ++ check .address (checkHostPort c.client.address)
    ++ check .readBufferSize (checkBuffer c.connection.readBufferSize)
    ++ check .writeBufferSize (checkBuffer c.connection.writeBufferSize)
    ++ check .logLevel (checkLevel c.observability.logLevel)
    ++ check .metricsAddress
      (if c.observability.metricsEnabled then checkSocketAddress c.observability.metricsAddress
        else none)

def isValid (c : Config) : Bool := c.problems.isEmpty

/-! ### Sizes that pass -/

/-- A buffer of a size that passes its check, or of the default size in place of zero, holds a
sequence number and one byte more, and its ciphertext's length fits. -/
theorem bounds_of_checkBuffer {size : Nat} (h : checkBuffer size = none) :
    Frame.seqLength < positiveOr size 65536 ∧ positiveOr size 65536 ≤ maxBufferSize := by
  unfold checkBuffer at h
  unfold positiveOr
  by_cases hzero : size = 0
  · rw [if_pos hzero]
    decide
  · rw [if_neg hzero] at h ⊢
    split at h
    · cases h
    · split at h
      · cases h
      · omega

theorem checkBuffer_of_problems {c : Config} (h : c.problems = []) :
    checkBuffer c.connection.readBufferSize = none ∧
      checkBuffer c.connection.writeBufferSize = none := by
  simp only [problems, List.append_eq_nil_iff, Option.toList_eq_nil_iff,
    Option.map_eq_none_iff] at h
  exact ⟨h.1.1.1.2, h.1.1.2⟩

end Parley.Config
