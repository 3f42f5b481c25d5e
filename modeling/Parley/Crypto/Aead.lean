import Parley.Crypto.ChaCha20
import Parley.Crypto.Poly1305

/-! Authenticated encryption with associated data: ChaCha20 with Poly1305.

`encrypt` appends a 16-byte tag over the associated data and the ciphertext; `decrypt?`
checks the tag before it decrypts. Decryption accepts exactly what encryption produces
under the same key, nonce and associated data (`decrypt?_encrypt`,
`eq_encrypt_of_decrypt?`). -/
namespace Parley.Crypto.Aead

/-- Bytes that encryption adds to a text. -/
def tagLength : Nat := 16

def zeros (n : Nat) : Bytes := List.replicate n 0

/-- Zero bytes up to the next multiple of sixteen. -/
def padded (bs : Bytes) : Bytes := bs ++ zeros ((16 - bs.length % 16) % 16)

/-- The tag over the associated data and the ciphertext, both padded, and their lengths. -/
def authenticate (key nonce aad body : Bytes) : Bytes :=
  Poly1305.tag ((ChaCha20.block key nonce 0).take 32)
    (padded aad ++ padded body ++ Bytes.ofNatLE 8 aad.length ++ Bytes.ofNatLE 8 body.length)

def encrypt (key nonce aad text : Bytes) : Bytes :=
  let body := ChaCha20.crypt key nonce text
  body ++ authenticate key nonce aad body

/-- The text, if the last sixteen bytes are the tag of the rest. -/
def decrypt? (key nonce aad sealed : Bytes) : Option Bytes :=
  if sealed.length < tagLength then none
  else
    let body := sealed.take (sealed.length - tagLength)
    let tag := sealed.drop (sealed.length - tagLength)
    if tag = authenticate key nonce aad body then some (ChaCha20.crypt key nonce body) else none

/-! ### Decryption accepts what encryption produces, and nothing else -/

@[simp] theorem length_authenticate (key nonce aad body : Bytes) :
    (authenticate key nonce aad body).length = tagLength := by
  simp [authenticate, tagLength]

@[simp] theorem length_encrypt (key nonce aad text : Bytes) :
    (encrypt key nonce aad text).length = text.length + tagLength := by
  simp [encrypt]

theorem decrypt?_encrypt (key nonce aad text : Bytes) :
    decrypt? key nonce aad (encrypt key nonce aad text) = some text := by
  have hle : ¬ (encrypt key nonce aad text).length < tagLength := by simp
  have hn : (encrypt key nonce aad text).length - tagLength
      = (ChaCha20.crypt key nonce text).length := by simp
  simp only [decrypt?, hle, if_false, hn]
  simp [encrypt, ChaCha20.crypt_crypt]

theorem eq_encrypt_of_decrypt? {key nonce aad sealed text : Bytes}
    (h : decrypt? key nonce aad sealed = some text) : sealed = encrypt key nonce aad text := by
  simp only [decrypt?] at h
  split at h
  · cases h
  · split at h
    · rename_i htag
      cases h
      rw [encrypt, ChaCha20.crypt_crypt, ← htag, List.take_append_drop]
    · cases h

end Parley.Crypto.Aead
