import Parley.Crypto.Sha256

/-! Key derivation: HMAC and HKDF over SHA-256.

`extract` condenses input key material under a salt into a pseudorandom key;
`expand` stretches that key over an info string. `derive` does both with no salt,
which stands for one block of zeros. -/
namespace Parley.Crypto.Hkdf

def blockLength : Nat := 64

/-- A key of at most one block, filled up with zeros. -/
def blockKey (key : Bytes) : Bytes :=
  let key := if key.length > blockLength then Sha256.hash key else key
  key ++ List.replicate (blockLength - key.length) 0

def hmac (key message : Bytes) : Bytes :=
  let key := blockKey key
  let inner := Sha256.hash (key.map (· ^^^ 0x36) ++ message)
  Sha256.hash (key.map (· ^^^ 0x5c) ++ inner)

def extract (salt material : Bytes) : Bytes := hmac salt material

/-- Output blocks from number `i` on, each keyed with the one before it. -/
def expandFrom (key info previous : Bytes) (i : Nat) : Nat → Bytes
  | 0 => []
  | n + 1 =>
    let block := hmac key (previous ++ info ++ [UInt8.ofNat i])
    block ++ expandFrom key info block (i + 1) n

def expand (key info : Bytes) (length : Nat) : Bytes :=
  (expandFrom key info [] 1 ((length + 31) / 32)).take length

def derive (material info : Bytes) (length : Nat) : Bytes :=
  expand (extract [] material) info length

/-! ### Lengths -/

@[simp] theorem length_hmac (key message : Bytes) : (hmac key message).length = 32 := by
  simp [hmac]

@[simp] theorem length_expandFrom (key info previous : Bytes) (i n : Nat) :
    (expandFrom key info previous i n).length = 32 * n := by
  induction n generalizing previous i with
  | zero => rfl
  | succ n ih => simp only [expandFrom, List.length_append, length_hmac, ih]; omega

@[simp] theorem length_expand (key info : Bytes) (length : Nat) :
    (expand key info length).length = length := by
  simp only [expand, List.length_take, length_expandFrom]
  omega

@[simp] theorem length_derive (material info : Bytes) (length : Nat) :
    (derive material info length).length = length := by
  simp [derive]

end Parley.Crypto.Hkdf
