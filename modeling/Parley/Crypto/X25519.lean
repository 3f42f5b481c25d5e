import Parley.Bytes

/-! Diffie-Hellman on Curve25519, on the line of u-coordinates.

Numbers are taken modulo 2^255 - 19. The ladder keeps the u-coordinates of two
multiples that differ by the base point, as fractions, and consumes the scalar
from its highest bit. Secrets are clamped as part of the multiplication. -/
namespace Parley.Crypto.X25519

def prime : Nat := (1 <<< 255) - 19

def add (a b : Nat) : Nat := (a + b) % prime
def sub (a b : Nat) : Nat := (a + prime - b % prime) % prime
def mul (a b : Nat) : Nat := a * b % prime

/-- A power, by squaring; the fuel is the exponent's length in bits. -/
def pow (base exponent : Nat) : Nat → Nat
  | 0 => 1
  | bits + 1 =>
    let half := pow (mul base base) (exponent / 2) bits
    if exponent % 2 = 1 then mul half base else half

/-- The multiplicative inverse, and zero for zero. -/
def inverse (a : Nat) : Nat := pow a (prime - 2) 255

/-- Two multiples of the base point as fractions `x2 / z2` and `x3 / z3`. -/
structure Rungs where
  x2 : Nat
  z2 : Nat
  x3 : Nat
  z3 : Nat

/-- Doubles the first multiple and adds it to the second. -/
def Rungs.climb (u : Nat) (r : Rungs) : Rungs :=
  let a := add r.x2 r.z2
  let aa := mul a a
  let b := sub r.x2 r.z2
  let bb := mul b b
  let e := sub aa bb
  let da := mul (sub r.x3 r.z3) a
  let cb := mul (add r.x3 r.z3) b
  let sum := add da cb
  let diff := sub da cb
  { x2 := mul aa bb
    z2 := mul e (add aa (mul 121665 e))
    x3 := mul sum sum
    z3 := mul u (mul diff diff) }

def Rungs.swap (r : Rungs) : Rungs := ⟨r.x3, r.z3, r.x2, r.z2⟩

/-- Consumes the lowest so many bits of the scalar, highest first. -/
def ladder (scalar u : Nat) (r : Rungs) : Nat → Rungs
  | 0 => r
  | t + 1 =>
    let next := if scalar.testBit t then (r.swap.climb u).swap else r.climb u
    ladder scalar u next t

/-- Clears the three lowest bits and the highest and sets the one below it. -/
def clamp (scalar : Nat) : Nat := scalar % (1 <<< 254) / 8 * 8 + (1 <<< 254)

/-- The multiple of a 32-byte u-coordinate by a 32-byte secret. -/
def multiply (secret point : Bytes) : Bytes :=
  let u := point.toNatLE % (1 <<< 255) % prime
  let r := ladder (clamp secret.toNatLE) u ⟨1, 0, u, 1⟩ 255
  Bytes.ofNatLE 32 (mul r.x2 (inverse r.z2))

/-- The public key of a secret: its multiple of the base point, u = 9. -/
def publicKey (secret : Bytes) : Bytes := multiply secret (Bytes.ofNatLE 32 9)

/-- Whether a shared secret depends on both sides: it is not all zero. -/
def contributory (shared : Bytes) : Bool := shared.any (· != 0)

@[simp] theorem length_multiply (secret point : Bytes) : (multiply secret point).length = 32 := by
  simp [multiply]

@[simp] theorem length_publicKey (secret : Bytes) : (publicKey secret).length = 32 := by
  simp [publicKey]

end Parley.Crypto.X25519
