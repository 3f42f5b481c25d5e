import Parley.Config.Schema
import Parley.Toml.Document

/-! Configurations from tables.

A section is a table whose keys are the names of its fields, or an array of their values
in order. Fields that are missing take their defaults, and what is unknown does not count;
a field of the wrong type is a failure. Numbers are whole and not negative. -/
namespace Parley.Config
open Toml

/-! ### Fields -/

/-- How a section's fields are looked up, given their names in order. A date has none of
them. -/
def fields? (names : List String) : Value → Option (String → Option Value)
  | .table _ t => some (Table.get? t)
  | .array items => some fun name => (names.idxOf? name).bind (items[·]?)
  | .moment => some fun _ => none
  | _ => none

def text? (fallback : String) : Option Value → Option String
  | none => some fallback
  | some (.text s) => some s
  | some _ => none

def boolean? (fallback : Bool) : Option Value → Option Bool
  | none => some fallback
  | some (.boolean b) => some b
  | some _ => none

def natural? (fallback : Nat) : Option Value → Option Nat
  | none => some fallback
  | some (.integer (.ofNat n)) => some n
  | some _ => none

/-- A number that may be missing. -/
def maybeNatural? (v : Option Value) : Option (Option Nat) :=
  if v.isNone then some none else (natural? 0 v).map some

/-! ### Sections -/

def Server.ofValue? (v : Value) : Option Server := do
  let d : Server := {}
  let field ← fields? ["bind_address", "max_connections", "handshake_timeout_ms",
    "max_conn_wait_timeout_ms", "accept_backoff_ms"] v
  return {
    bindAddress := ← text? d.bindAddress (field "bind_address")
    maxConnections := ← natural? d.maxConnections (field "max_connections")
    handshakeTimeoutMs := ← maybeNatural? (field "handshake_timeout_ms")
    maxWaitMs := ← natural? d.maxWaitMs (field "max_conn_wait_timeout_ms")
    acceptBackoffMs := ← natural? d.acceptBackoffMs (field "accept_backoff_ms") }

def Client.ofValue? (v : Value) : Option Client := do
  let d : Client := {}
  let field ← fields? ["address", "max_connections", "handshake_timeout_ms",
    "max_conn_wait_timeout_ms"] v
  return {
    address := ← text? d.address (field "address")
    maxConnections := ← natural? d.maxConnections (field "max_connections")
    handshakeTimeoutMs := ← maybeNatural? (field "handshake_timeout_ms")
    maxWaitMs := ← natural? d.maxWaitMs (field "max_conn_wait_timeout_ms") }

def Connection.ofValue? (v : Value) : Option Connection := do
  let d : Connection := {}
  let field ← fields? ["read_buffer_size", "write_buffer_size", "read_timeout_ms",
    "write_timeout_ms", "request_timeout_ms"] v
  return {
    readBufferSize := ← natural? d.readBufferSize (field "read_buffer_size")
    writeBufferSize := ← natural? d.writeBufferSize (field "write_buffer_size")
    readTimeoutMs := ← natural? d.readTimeoutMs (field "read_timeout_ms")
    writeTimeoutMs := ← natural? d.writeTimeoutMs (field "write_timeout_ms")
    requestTimeoutMs := ← natural? d.requestTimeoutMs (field "request_timeout_ms") }

def Observability.ofValue? (v : Value) : Option Observability := do
  let d : Observability := {}
  let field ← fields? ["log_level", "metrics_enabled", "metrics_address"] v
  return {
    logLevel := ← text? d.logLevel (field "log_level")
    metricsEnabled := ← boolean? d.metricsEnabled (field "metrics_enabled")
    metricsAddress := ← text? d.metricsAddress (field "metrics_address") }

/-- A section, or its defaults if it is missing. -/
def orDefault {α : Type} (ofValue? : Value → Option α) (fallback : α) : Option Value → Option α
  | none => some fallback
  | some v => ofValue? v

def ofTable? (t : Table) : Option Config := do
  return {
    server := ← orDefault Server.ofValue? {} (t.get? "server")
    client := ← orDefault Client.ofValue? {} (t.get? "client")
    connection := ← orDefault Connection.ofValue? {} (t.get? "connection")
    observability := ← orDefault Observability.ofValue? {} (t.get? "observability") }

end Parley.Config
