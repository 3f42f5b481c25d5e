import Parley.Bytes
import Parley.Error

/-! The layout of a frame, and the bounds on its length.

On the wire a frame is a 4-byte length and that many bytes of ciphertext, the
16-byte tag included. The plaintext is a 4-byte sequence number and the payload;
sequence number 0 marks a message that expects no response.

The two checks bound the same frames: a payload passes the sender's check exactly
if its sealed length passes the receiver's (`checkCiphertext_sealed`). -/
namespace Parley

/-- A decoded plaintext. -/
structure Frame where
  seq : UInt32
  payload : Bytes
  deriving Repr, DecidableEq

namespace Frame

/-- Bytes of the length that precedes a ciphertext. -/
def prefixLength : Nat := 4

/-- Bytes of the sequence number that starts a plaintext. -/
def seqLength : Nat := 4

/-- Bytes of the tag that ends a ciphertext. -/
def tagLength : Nat := 16

/-- The sequence number of a message that expects no response. -/
def noResponse : UInt32 := 0

def isMessage (f : Frame) : Bool := f.seq == noResponse

/-- The plaintext of a frame. -/
def encode (f : Frame) : Bytes := Bytes.ofNatBE seqLength f.seq.toNat ++ f.payload

def decode (plaintext : Bytes) : Except FramingError Frame :=
  if plaintext.length < seqLength then .error (.frameTooShort plaintext.length seqLength)
  else .ok ⟨UInt32.ofNat (Bytes.toNatBE (plaintext.take seqLength)), plaintext.drop seqLength⟩

/-- Bounds a declared ciphertext length by the largest plaintext the reader takes. -/
def checkCiphertext (length maxPlaintext : Nat) : Except FramingError Unit :=
  if length < tagLength + seqLength then .error (.frameTooShort length (tagLength + seqLength))
  else if length > maxPlaintext + tagLength then
    .error (.frameTooLarge length (maxPlaintext + tagLength))
  else .ok ()

/-- Bounds a payload by the largest plaintext the writer sends. -/
def checkPayload (length maxPlaintext : Nat) : Except FramingError Unit :=
  if length > maxPlaintext - seqLength then .error (.payloadTooLarge length (maxPlaintext - seqLength))
  else .ok ()

/-! ### Decoding inverts encoding -/

@[simp] theorem length_encode (f : Frame) : f.encode.length = seqLength + f.payload.length := by
  simp [encode]

theorem decode_encode (f : Frame) : decode f.encode = .ok f := by
  have hseq : Bytes.toNatBE (Bytes.ofNatBE seqLength f.seq.toNat) = f.seq.toNat := by
    rw [Bytes.toNatBE_ofNatBE]
    exact Nat.mod_eq_of_lt f.seq.toNat_lt
  simp [decode, encode, hseq]

theorem eq_encode_of_decode {plaintext : Bytes} {f : Frame} (h : decode plaintext = .ok f) :
    plaintext = f.encode := by
  simp only [decode] at h
  split at h
  · cases h
  · rename_i hlen
    cases h
    have htake : (plaintext.take seqLength).length = seqLength := by
      rw [List.length_take]; omega
    have hlt : Bytes.toNatBE (plaintext.take seqLength) < UInt32.size := by
      have := Bytes.toNatBE_lt (plaintext.take seqLength)
      rw [htake] at this
      exact this
    have hseq : Bytes.ofNatBE seqLength (Bytes.toNatBE (plaintext.take seqLength))
        = plaintext.take seqLength := by
      have := Bytes.ofNatBE_toNatBE (plaintext.take seqLength)
      rwa [htake] at this
    simp only [encode, UInt32.toNat_ofNat_of_lt' hlt, hseq, List.take_append_drop]

/-! ### The two bounds agree -/

theorem checkPayload_eq_ok_iff {length max : Nat} :
    checkPayload length max = .ok () ↔ length ≤ max - seqLength := by
  unfold checkPayload
  by_cases h : length > max - seqLength
  · simp [h]
  · simp [h, Nat.le_of_not_gt h]

theorem checkCiphertext_eq_ok_iff {length max : Nat} :
    checkCiphertext length max = .ok () ↔
      tagLength + seqLength ≤ length ∧ length ≤ max + tagLength := by
  unfold checkCiphertext
  by_cases h : length < tagLength + seqLength
  · simp [h, Nat.not_le_of_lt h]
  · by_cases h' : length > max + tagLength
    · simp [h, h', Nat.not_le_of_lt h']
    · simp [h, h', Nat.le_of_not_lt h, Nat.le_of_not_gt h']

theorem checkCiphertext_sealed {length max : Nat} (h : seqLength ≤ max) :
    checkCiphertext (seqLength + length + tagLength) max = .ok () ↔
      checkPayload length max = .ok () := by
  rw [checkPayload_eq_ok_iff, checkCiphertext_eq_ok_iff]
  omega

end Frame
end Parley
