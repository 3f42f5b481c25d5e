import Parley.Bytes
import Parley.Error

/-! Nonces, one space per direction of a connection.

Both directions of a connection share one key, so the first byte of a nonce says
which direction it belongs to, and a 64-bit counter at its end tells the frames of
that direction apart. The counter stops at its last value; it never wraps. -/
namespace Parley.Channel

/-- Which side of the handshake an end played. -/
inductive Role where
  | client
  | server
  deriving Repr, DecidableEq

inductive Direction where
  | clientToServer
  | serverToClient
  deriving Repr, DecidableEq

def Direction.byte : Direction → UInt8
  | .clientToServer => 0
  | .serverToClient => 1

def Role.outbound : Role → Direction
  | .client => .clientToServer
  | .server => .serverToClient

def Role.inbound : Role → Direction
  | .client => .serverToClient
  | .server => .clientToServer

def Role.opposite : Role → Role
  | .client => .server
  | .server => .client

namespace Nonce

/-- The counter value that is never used. -/
def last : Nat := UInt64.size - 1

/-- The direction, three zero bytes, and the counter, most significant byte first. -/
def encode (direction : Direction) (counter : Nat) : Bytes :=
  direction.byte :: 0 :: 0 :: 0 :: Bytes.ofNatBE 8 counter

@[simp] theorem length_encode (direction : Direction) (counter : Nat) :
    (encode direction counter).length = 12 := by
  simp [encode]

end Nonce

/-- The nonces of one direction, by the counter of the next one. -/
structure Nonces where
  direction : Direction
  counter : Nat := 0
  deriving Repr, DecidableEq

namespace Nonces

/-- The next nonce, unless the counter has reached its last value. -/
def next (n : Nonces) : Except CryptoError (Bytes × Nonces) :=
  if n.counter ≥ Nonce.last then .error .nonceExhausted
  else .ok (Nonce.encode n.direction n.counter, { n with counter := n.counter + 1 })

/-- The outcomes of so many calls in a row. -/
def take (n : Nonces) : Nat → List (Except CryptoError Bytes)
  | 0 => []
  | count + 1 =>
    match n.next with
    | .ok (nonce, n) => .ok nonce :: n.take count
    | .error e => .error e :: n.take count

end Nonces

@[simp] theorem Role.opposite_opposite (r : Role) : r.opposite.opposite = r := by
  cases r <;> rfl

theorem Role.opposite_ne (r : Role) : r.opposite ≠ r := by
  cases r <;> decide

theorem Role.eq_or_eq_opposite (r r' : Role) : r' = r ∨ r = r'.opposite := by
  cases r <;> cases r' <;> decide

@[simp] theorem Role.inbound_opposite (r : Role) : r.opposite.inbound = r.outbound := by
  cases r <;> rfl

@[simp] theorem Role.outbound_opposite (r : Role) : r.opposite.outbound = r.inbound := by
  cases r <;> rfl

end Parley.Channel
