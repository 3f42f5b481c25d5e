import Parley.Engine.Settings

/-! The configuration: what is stored, and what it comes to.

Every field has a default, so that nothing needs to be given. Zero stands for the default
in most fields; for a handshake's deadline it means that there is none, and for a read
deadline that a frame may take for ever. -/
namespace Parley.Config

/-- A value, or the default in place of zero. -/
def positiveOr (value fallback : Nat) : Nat := if value = 0 then fallback else value

/-- A handshake's deadline: the default if absent, none if zero. -/
def handshakeLimit : Option Nat → Option Nat
  | none => some 3000
  | some 0 => none
  | some ms => some ms

/-! ### Server -/

structure Server where
  bindAddress : String := "127.0.0.1:7070"
  maxConnections : Nat := 1024
  handshakeTimeoutMs : Option Nat := none
  maxWaitMs : Nat := 3000
  acceptBackoffMs : Nat := 100
  deriving Repr, DecidableEq

namespace Server

/-- How many connections are handled at once. -/
def slots (c : Server) : Nat := positiveOr c.maxConnections 1024

def handshakeTimeout (c : Server) : Option Nat := handshakeLimit c.handshakeTimeoutMs

/-- How long a connection may wait for a slot. -/
def maxWait (c : Server) : Nat := positiveOr c.maxWaitMs 3000

/-- The pause after an accept error that may pass. -/
def acceptBackoff (c : Server) : Nat := positiveOr c.acceptBackoffMs 100

end Server

/-! ### Client -/

structure Client where
  address : String := "127.0.0.1:7070"
  maxConnections : Nat := 16
  handshakeTimeoutMs : Option Nat := none
  maxWaitMs : Nat := 3000
  deriving Repr, DecidableEq

namespace Client

def slots (c : Client) : Nat := positiveOr c.maxConnections 16

/-- The deadline on connecting and the handshake together. -/
def handshakeTimeout (c : Client) : Option Nat := handshakeLimit c.handshakeTimeoutMs

def maxWait (c : Client) : Nat := positiveOr c.maxWaitMs 3000

end Client

/-! ### Connections -/

structure Connection where
  readBufferSize : Nat := 65536
  writeBufferSize : Nat := 65536
  readTimeoutMs : Nat := 0
  writeTimeoutMs : Nat := 10000
  requestTimeoutMs : Nat := 5000
  deriving Repr, DecidableEq

namespace Connection

/-- The largest plaintext taken from the peer. -/
def maxRead (c : Connection) : Nat := positiveOr c.readBufferSize 65536

/-- The largest plaintext sent. -/
def maxWrite (c : Connection) : Nat := positiveOr c.writeBufferSize 65536

def readTimeout (c : Connection) : Option Nat :=
  if c.readTimeoutMs = 0 then none else some c.readTimeoutMs

def writeTimeout (c : Connection) : Nat := positiveOr c.writeTimeoutMs 10000

/-- How long a caller that does not say waits for a response. -/
def requestTimeout (c : Connection) : Nat := positiveOr c.requestTimeoutMs 5000

def settings (c : Connection) : Engine.Settings where
  maxRead := c.maxRead
  maxWrite := c.maxWrite
  readTimeout := c.readTimeout
  writeTimeout := c.writeTimeout

end Connection

/-! ### The rest -/

structure Observability where
  logLevel : String := "info"
  metricsEnabled : Bool := false
  metricsAddress : String := "127.0.0.1:9091"
  deriving Repr, DecidableEq

end Config

structure Config where
  server : Config.Server := {}
  client : Config.Client := {}
  connection : Config.Connection := {}
  observability : Config.Observability := {}
  deriving Repr, DecidableEq

end Parley
