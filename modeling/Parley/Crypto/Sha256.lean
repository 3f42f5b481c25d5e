import Parley.Bytes

/-! The SHA-256 hash.

The message is padded to whole 64-byte blocks with a one bit, zeros and its length
in bits; each block is expanded to a 64-word schedule and compressed into an
eight-word state. -/
namespace Parley.Crypto.Sha256

def rotr (x : UInt32) (n : UInt32) : UInt32 := (x >>> n) ||| (x <<< (32 - n))

/-- First 32 bits of the fractional parts of the cube roots of the first 64 primes. -/
def constants : Array UInt32 := #[
  0x428a2f98, 0x71374491, 0xb5c0fbcf, 0xe9b5dba5, 0x3956c25b, 0x59f111f1, 0x923f82a4, 0xab1c5ed5,
  0xd807aa98, 0x12835b01, 0x243185be, 0x550c7dc3, 0x72be5d74, 0x80deb1fe, 0x9bdc06a7, 0xc19bf174,
  0xe49b69c1, 0xefbe4786, 0x0fc19dc6, 0x240ca1cc, 0x2de92c6f, 0x4a7484aa, 0x5cb0a9dc, 0x76f988da,
  0x983e5152, 0xa831c66d, 0xb00327c8, 0xbf597fc7, 0xc6e00bf3, 0xd5a79147, 0x06ca6351, 0x14292967,
  0x27b70a85, 0x2e1b2138, 0x4d2c6dfc, 0x53380d13, 0x650a7354, 0x766a0abb, 0x81c2c92e, 0x92722c85,
  0xa2bfe8a1, 0xa81a664b, 0xc24b8b70, 0xc76c51a3, 0xd192e819, 0xd6990624, 0xf40e3585, 0x106aa070,
  0x19a4c116, 0x1e376c08, 0x2748774c, 0x34b0bcb5, 0x391c0cb3, 0x4ed8aa4a, 0x5b9cca4f, 0x682e6ff3,
  0x748f82ee, 0x78a5636f, 0x84c87814, 0x8cc70208, 0x90befffa, 0xa4506ceb, 0xbef9a3f7, 0xc67178f2]

abbrev Words := Vector UInt32 8

/-- First 32 bits of the fractional parts of the square roots of the first eight primes. -/
def start : Words := #v[
  0x6a09e667, 0xbb67ae85, 0x3c6ef372, 0xa54ff53a, 0x510e527f, 0x9b05688c, 0x1f83d9ab, 0x5be0cd19]

/-- The message, a one bit, zeros, and the length in bits: a multiple of 64 bytes. -/
def pad (message : Bytes) : Bytes :=
  message ++ 0x80 :: List.replicate ((119 - message.length % 64) % 64) 0
    ++ Bytes.ofNatBE 8 (8 * message.length)

/-- The sixteen words of a block. -/
def inputWords (block : Bytes) : Array UInt32 :=
  (Array.range 16).map fun i => UInt32.ofNat (Bytes.toNatBE ((block.drop (4 * i)).take 4))

/-- Extends a schedule by so many words. -/
def extend (w : Array UInt32) : Nat → Array UInt32
  | 0 => w
  | n + 1 =>
    let t := w.size
    let at' := fun i => w.getD (t - i) 0
    let s0 := rotr (at' 15) 7 ^^^ rotr (at' 15) 18 ^^^ (at' 15 >>> 3)
    let s1 := rotr (at' 2) 17 ^^^ rotr (at' 2) 19 ^^^ (at' 2 >>> 10)
    extend (w.push (at' 16 + s0 + at' 7 + s1)) n

def round (s : Words) (k w : UInt32) : Words :=
  let a := s[0]; let b := s[1]; let c := s[2]; let d := s[3]
  let e := s[4]; let f := s[5]; let g := s[6]; let h := s[7]
  let t1 := h + (rotr e 6 ^^^ rotr e 11 ^^^ rotr e 25) + ((e &&& f) ^^^ ((~~~e) &&& g)) + k + w
  let t2 := (rotr a 2 ^^^ rotr a 13 ^^^ rotr a 22) + ((a &&& b) ^^^ (a &&& c) ^^^ (b &&& c))
  #v[t1 + t2, a, b, c, d + t1, e, f, g]

/-- Takes one 64-byte block into the state. -/
def compress (s : Words) (block : Bytes) : Words :=
  let schedule := extend (inputWords block) 48
  let mixed := (constants.zip schedule).foldl (fun s (k, w) => round s k w) s
  s.zipWith (· + ·) mixed

/-- Takes whole blocks into the state. -/
def absorb (s : Words) (message : Bytes) : Words :=
  if message = [] then s else absorb (compress s (message.take 64)) (message.drop 64)
termination_by message.length
decreasing_by
  have : 0 < message.length := List.length_pos_iff.mpr ‹_›
  simp only [List.length_drop]
  omega

/-- The 32-byte digest of a message. -/
def hash (message : Bytes) : Bytes :=
  (absorb start (pad message)).toList.flatMap fun w => Bytes.ofNatBE 4 w.toNat

@[simp] theorem length_hash (message : Bytes) : (hash message).length = 32 := by
  simp [hash, List.length_flatMap, List.map_const']

end Parley.Crypto.Sha256
