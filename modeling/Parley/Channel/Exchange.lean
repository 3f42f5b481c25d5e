import Parley.Channel.Key
import Parley.Channel.Nonce
import Parley.Channel.Pipe
import Parley.Crypto.X25519

/-! The handshake.

Each side draws a 32-byte secret, sends its public key, and reads the peer's. The
shared secret must depend on both sides; the session key is derived from it and bound
to both public keys. Exactly 32 bytes are read, so whatever the peer sends after its
key is left for the secured stream. -/
namespace Parley.Channel

/-- Where a handshake stands. -/
inductive Exchange where
  /-- These bytes of the own public key are still to be sent. -/
  | sending (secret left : Bytes)
  /-- These bytes of the peer's public key have arrived. -/
  | receiving (secret arrived : Bytes)
  | agreed (key : SessionKey)
  deriving DecidableEq

namespace Exchange

/-- Bytes of a public key, and of a secret. -/
def keyLength : Nat := 32

def start (secret : Bytes) : Exchange := .sending secret (Crypto.X25519.publicKey secret)

/-- The session key of a secret and the peer's public key. -/
def agree (role : Role) (secret peer : Bytes) : Except CryptoError SessionKey :=
  let shared := Crypto.X25519.multiply secret peer
  let own := Crypto.X25519.publicKey secret
  if Crypto.X25519.contributory shared then
    .ok (match role with
      | .client => .derive shared own peer
      | .server => .derive shared peer own)
  else .error .nonContributory

/-- One step; waits for room to send, or for bytes to arrive. -/
def advance (role : Role) (x : Exchange) (d : Duplex) : Option (Except Error (Exchange × Duplex)) :=
  match x with
  | .sending secret left =>
    if left = [] then some (.ok (.receiving secret [], d))
    else (d.outgoing.push left).map fun
      | .error e => .error (.io e)
      | .ok (left, outgoing) => .ok (.sending secret left, { d with outgoing })
  | .receiving secret arrived =>
    if arrived.length ≥ keyLength then
      match agree role secret arrived with
      | .error e => some (.error (.crypto e))
      | .ok key => some (.ok (.agreed key, d))
    else
      match d.incoming.pull (keyLength - arrived.length) with
      | none => none
      | some ([], _) => some (.error (.io .unexpectedEof))
      | some (bs, incoming) => some (.ok (.receiving secret (arrived ++ bs), { d with incoming }))
  | .agreed _ => none

end Exchange
end Parley.Channel
