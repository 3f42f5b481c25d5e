import Parley.Bytes

/-! The ChaCha20 stream cipher.

A 16-word state holds four constants, the 256-bit key, a block counter and the
96-bit nonce. Twenty rounds of quarter rounds, added to the starting state, make
one 64-byte block; consecutive counters make the keystream. Encryption is the
exclusive or with the keystream, so it is its own inverse (`crypt_crypt`). -/
namespace Parley.Crypto.ChaCha20

abbrev State := Vector UInt32 16

def rotl (x : UInt32) (n : UInt32) : UInt32 := (x <<< n) ||| (x >>> (32 - n))

/-- The quarter round on the words at four places. -/
def quarter (s : State) (a b c d : Fin 16) : State :=
  let s := s.set a (s[a] + s[b])
  let s := s.set d (rotl (s[d] ^^^ s[a]) 16)
  let s := s.set c (s[c] + s[d])
  let s := s.set b (rotl (s[b] ^^^ s[c]) 12)
  let s := s.set a (s[a] + s[b])
  let s := s.set d (rotl (s[d] ^^^ s[a]) 8)
  let s := s.set c (s[c] + s[d])
  s.set b (rotl (s[b] ^^^ s[c]) 7)

/-- A column round followed by a diagonal round. -/
def doubleRound (s : State) : State :=
  let s := quarter s 0 4 8 12
  let s := quarter s 1 5 9 13
  let s := quarter s 2 6 10 14
  let s := quarter s 3 7 11 15
  let s := quarter s 0 5 10 15
  let s := quarter s 1 6 11 12
  let s := quarter s 2 7 8 13
  quarter s 3 4 9 14

def rounds (s : State) : Nat → State
  | 0 => s
  | n + 1 => rounds (doubleRound s) n

/-- Word `i` of a byte string, least significant byte first. -/
def word (bs : Bytes) (i : Nat) : UInt32 := UInt32.ofNat (Bytes.toNatLE ((bs.drop (4 * i)).take 4))

def initial (key nonce : Bytes) (counter : Nat) : State :=
  #v[0x61707865, 0x3320646e, 0x79622d32, 0x6b206574,
    word key 0, word key 1, word key 2, word key 3,
    word key 4, word key 5, word key 6, word key 7,
    UInt32.ofNat counter, word nonce 0, word nonce 1, word nonce 2]

def serialize (s : State) : Bytes := s.toList.flatMap fun w => Bytes.ofNatLE 4 w.toNat

/-- One 64-byte block of keystream. -/
def block (key nonce : Bytes) (counter : Nat) : Bytes :=
  let s := initial key nonce counter
  serialize ((rounds s 10).zipWith (· + ·) s)

/-- So many blocks of keystream, from a block counter on. -/
def keystream (key nonce : Bytes) (counter : Nat) : Nat → Bytes
  | 0 => []
  | n + 1 => block key nonce counter ++ keystream key nonce (counter + 1) n

/-- Encrypts, and decrypts, starting at block 1: block 0 keys the authenticator. -/
def crypt (key nonce text : Bytes) : Bytes :=
  text.xor (keystream key nonce 1 ((text.length + 63) / 64))

/-! ### Lengths and the inverse law -/

@[simp] theorem length_serialize (s : State) : (serialize s).length = 64 := by
  simp [serialize, List.length_flatMap, List.map_const']

@[simp] theorem length_block (key nonce : Bytes) (counter : Nat) :
    (block key nonce counter).length = 64 := by
  simp [block]

@[simp] theorem length_keystream (key nonce : Bytes) (counter n : Nat) :
    (keystream key nonce counter n).length = 64 * n := by
  induction n generalizing counter with
  | zero => rfl
  | succ n ih => simp only [keystream, List.length_append, length_block, ih]; omega

@[simp] theorem length_crypt (key nonce text : Bytes) :
    (crypt key nonce text).length = text.length := by
  simp only [crypt, Bytes.length_xor, length_keystream]
  omega

theorem crypt_crypt (key nonce text : Bytes) : crypt key nonce (crypt key nonce text) = text := by
  have hlen := length_crypt key nonce text
  rw [crypt, hlen, crypt]
  exact Bytes.xor_xor _ _ (by simp only [length_keystream]; omega)

end Parley.Crypto.ChaCha20
