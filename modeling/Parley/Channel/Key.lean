import Parley.Crypto.Hkdf
import Parley.Error

/-! The session key of a connection.

The key is derived from the shared secret of the handshake and bound to both public
keys, the client's first, under a label that names the protocol and its version. -/
namespace Parley.Channel

/-- A 32-byte key shared by both ends of a connection. -/
structure SessionKey where
  bytes : Bytes
  deriving DecidableEq

namespace SessionKey

def length : Nat := 32

/-- What the derivation is for. -/
def label : Bytes := "monte v1 session key".toUTF8.data.toList

def derive (shared clientPublic serverPublic : Bytes) : SessionKey :=
  ⟨Crypto.Hkdf.derive shared (label ++ clientPublic ++ serverPublic) length⟩

/-- What may be shown of a key: nothing. -/
def redacted : String := "SessionKey(..)"

theorem length_derive (shared clientPublic serverPublic : Bytes) :
    (derive shared clientPublic serverPublic).bytes.length = length := by
  simp [derive]

end SessionKey
end Parley.Channel
