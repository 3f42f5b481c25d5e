/-! What can go wrong, by cause.

A failure is a framing violation, a cryptographic failure, an expired deadline, a
transport failure, or the connection being shut or shutting. Each cause carries
what its message needs and nothing secret; `Error.message` is the one place where
the wording is. -/
namespace Parley

/-! ### Framing and cryptography -/

/-- A length on the wire, or of a payload, outside its bounds. -/
inductive FramingError where
  | frameTooLarge (length max : Nat)
  | frameTooShort (length min : Nat)
  | payloadTooLarge (length max : Nat)
  | responseTooLarge (seq : UInt32) (length capacity : Nat)
  deriving Repr, DecidableEq

def FramingError.message : FramingError → String
  | .frameTooLarge length max => s!"frame of {length} bytes exceeds limit of {max}"
  | .frameTooShort length min => s!"frame of {length} bytes is shorter than the minimum {min}"
  | .payloadTooLarge length max => s!"payload of {length} bytes exceeds limit of {max}"
  | .responseTooLarge seq length capacity =>
    s!"response for seq {seq} is {length} bytes, destination holds {capacity}"

/-- A handshake or a frame that cannot be trusted. -/
inductive CryptoError where
  /-- The shared secret is all zero. -/
  | nonContributory
  | keyDerivation
  | authentication
  /-- The nonce counter has reached its last value. -/
  | nonceExhausted
  deriving Repr, DecidableEq

def CryptoError.message : CryptoError → String
  | .nonContributory => "peer public key is a low-order point"
  | .keyDerivation => "key derivation failed"
  | .authentication => "frame failed authentication"
  | .nonceExhausted => "nonce counter exhausted"

/-! ### Deadlines -/

/-- What a deadline was set on. -/
inductive Timed where
  | handshake
  | admission
  | request
  | read
  | write
  deriving Repr, DecidableEq

def Timed.name : Timed → String
  | .handshake => "handshake"
  | .admission => "admission wait"
  | .request => "request"
  | .read => "read"
  | .write => "write"

/-! ### Transport -/

/-- The kinds of transport failure. -/
inductive IoKind where
  | notFound
  | permissionDenied
  | connectionRefused
  | connectionReset
  | hostUnreachable
  | networkUnreachable
  | connectionAborted
  | notConnected
  | addrInUse
  | addrNotAvailable
  | networkDown
  | brokenPipe
  | alreadyExists
  | wouldBlock
  | notADirectory
  | isADirectory
  | directoryNotEmpty
  | readOnlyFilesystem
  | filesystemLoop
  | staleNetworkFileHandle
  | invalidInput
  | invalidData
  | timedOut
  | writeZero
  | storageFull
  | notSeekable
  | quotaExceeded
  | fileTooLarge
  | resourceBusy
  | executableFileBusy
  | deadlock
  | crossesDevices
  | tooManyLinks
  | invalidFilename
  | argumentListTooLong
  | interrupted
  | unsupported
  | unexpectedEof
  | outOfMemory
  | inProgress
  | other
  | uncategorized
  deriving Repr, DecidableEq

/-- The kind of a Linux error number. -/
def IoKind.ofCode (code : Int) : IoKind :=
  match code with
  | 1 | 13 => .permissionDenied
  | 2 => .notFound
  | 4 => .interrupted
  | 7 => .argumentListTooLong
  | 11 => .wouldBlock
  | 12 => .outOfMemory
  | 16 => .resourceBusy
  | 17 => .alreadyExists
  | 18 => .crossesDevices
  | 20 => .notADirectory
  | 21 => .isADirectory
  | 22 => .invalidInput
  | 26 => .executableFileBusy
  | 27 => .fileTooLarge
  | 28 => .storageFull
  | 29 => .notSeekable
  | 30 => .readOnlyFilesystem
  | 31 => .tooManyLinks
  | 32 => .brokenPipe
  | 35 => .deadlock
  | 36 => .invalidFilename
  | 38 | 95 => .unsupported
  | 39 => .directoryNotEmpty
  | 40 => .filesystemLoop
  | 98 => .addrInUse
  | 99 => .addrNotAvailable
  | 100 => .networkDown
  | 101 => .networkUnreachable
  | 103 => .connectionAborted
  | 104 => .connectionReset
  | 107 => .notConnected
  | 110 => .timedOut
  | 111 => .connectionRefused
  | 113 => .hostUnreachable
  | 115 => .inProgress
  | 116 => .staleNetworkFileHandle
  | 122 => .quotaExceeded
  | _ => .uncategorized

/-- A transport failure: its kind, its error number if the system gave one, and its text. -/
structure IoError where
  kind : IoKind
  code : Option Int := none
  text : String := ""
  deriving Repr, DecidableEq

namespace IoError

def ofCode (code : Int) : IoError := ⟨.ofCode code, some code, s!"os error {code}"⟩

/-- Writing to a stream whose far end is gone, or after shutting one's own direction. -/
def brokenPipe : IoError := ⟨.brokenPipe, none, "broken pipe"⟩

/-- The stream ended in the middle of something. -/
def unexpectedEof : IoError := ⟨.unexpectedEof, none, "early eof"⟩

end IoError

/-! ### All causes -/

inductive Error where
  /-- The connection no longer accepts frames. -/
  | shutdown
  /-- The connection ended before the operation was complete. -/
  | closed
  | timeout (what : Timed)
  | framing (cause : FramingError)
  | crypto (cause : CryptoError)
  | io (cause : IoError)
  deriving Repr, DecidableEq

def Error.message : Error → String
  | .shutdown => "connection is shutting down"
  | .closed => "connection closed"
  | .timeout what => s!"{what.name} timed out"
  | .framing cause => s!"framing error: {cause.message}"
  | .crypto cause => s!"crypto error: {cause.message}"
  | .io cause => cause.text

end Parley
