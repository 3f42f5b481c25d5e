import Parley.Bytes

/-! The Poly1305 one-time authenticator.

The message is read as 16-byte numbers, each with a one bit on top, and evaluated
as a polynomial at the clamped first half of the key modulo 2^130 - 5; the second
half of the key is added at the end. -/
namespace Parley.Crypto.Poly1305

def prime : Nat := (1 <<< 130) - 5

/-- The bits of the evaluation point that a key may set. -/
def clampMask : Nat := 0x0ffffffc0ffffffc0ffffffc0fffffff

/-- Takes the message into the accumulator, sixteen bytes at a time. -/
def absorb (r acc : Nat) (message : Bytes) : Nat :=
  if message = [] then acc
  else absorb r ((acc + Bytes.toNatLE (message.take 16 ++ [1])) * r % prime) (message.drop 16)
termination_by message.length
decreasing_by
  have : 0 < message.length := List.length_pos_iff.mpr ‹_›
  simp only [List.length_drop]
  omega

/-- The 16-byte tag of a message under a 32-byte one-time key. -/
def tag (key message : Bytes) : Bytes :=
  let r := Bytes.toNatLE (key.take 16) &&& clampMask
  let s := Bytes.toNatLE (key.drop 16)
  Bytes.ofNatLE 16 (absorb r 0 message + s)

@[simp] theorem length_tag (key message : Bytes) : (tag key message).length = 16 := by
  simp [tag]

end Parley.Crypto.Poly1305
