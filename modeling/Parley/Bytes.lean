/-! Byte strings and the numbers they spell.

A byte string is a list of bytes. Two fixed-width spellings of a number are used
on the wire and inside the ciphers: least significant byte first (`ofNatLE`,
`toNatLE`) and most significant byte first (`ofNatBE`, `toNatBE`). Each pair is
inverse up to the width: `toNatLE_ofNatLE`, `ofNatLE_toNatLE`. -/
namespace Parley

abbrev Bytes := List UInt8

namespace Bytes

/-! ### Least significant byte first -/

def toNatLE : Bytes → Nat
  | [] => 0
  | b :: rest => b.toNat + 256 * toNatLE rest

def ofNatLE : Nat → Nat → Bytes
  | 0, _ => []
  | width + 1, n => UInt8.ofNat (n % 256) :: ofNatLE width (n / 256)

@[simp] theorem length_ofNatLE (width n : Nat) : (ofNatLE width n).length = width := by
  induction width generalizing n with
  | zero => rfl
  | succ width ih => simp [ofNatLE, ih]

theorem toNatLE_lt (bs : Bytes) : toNatLE bs < Nat.pow 256 bs.length := by
  induction bs with
  | nil => simp [toNatLE]
  | cons b rest ih =>
    have hb := b.toNat_lt
    have hpow : Nat.pow 256 (rest.length + 1) = Nat.pow 256 rest.length * 256 := rfl
    rw [List.length_cons, hpow, toNatLE]
    omega

theorem toNatLE_ofNatLE (width n : Nat) : toNatLE (ofNatLE width n) = n % Nat.pow 256 width := by
  induction width generalizing n with
  | zero => simp [ofNatLE, toNatLE, Nat.mod_one]
  | succ width ih =>
    have hb : (UInt8.ofNat (n % 256)).toNat = n % 256 := by simp
    have hpow : Nat.pow 256 (width + 1) = Nat.pow 256 width * 256 := rfl
    rw [ofNatLE, toNatLE, ih, hb, hpow, Nat.mul_comm (Nat.pow 256 width) 256, Nat.mod_mul]

theorem ofNatLE_toNatLE (bs : Bytes) : ofNatLE bs.length (toNatLE bs) = bs := by
  induction bs with
  | nil => rfl
  | cons b rest ih =>
    have hb := b.toNat_lt
    have hdiv : (b.toNat + 256 * toNatLE rest) / 256 = toNatLE rest := by omega
    have hmod : (b.toNat + 256 * toNatLE rest) % 256 = b.toNat := by omega
    simp only [List.length_cons, ofNatLE, toNatLE, hdiv, hmod, ih, UInt8.ofNat_toNat]

/-! ### Most significant byte first -/

def toNatBE (bs : Bytes) : Nat := toNatLE bs.reverse

def ofNatBE (width n : Nat) : Bytes := (ofNatLE width n).reverse

@[simp] theorem length_ofNatBE (width n : Nat) : (ofNatBE width n).length = width := by
  simp [ofNatBE]

theorem toNatBE_lt (bs : Bytes) : toNatBE bs < Nat.pow 256 bs.length := by
  simpa [toNatBE] using toNatLE_lt bs.reverse

theorem toNatBE_ofNatBE (width n : Nat) : toNatBE (ofNatBE width n) = n % Nat.pow 256 width := by
  simp [toNatBE, ofNatBE, toNatLE_ofNatLE]

theorem ofNatBE_toNatBE (bs : Bytes) : ofNatBE bs.length (toNatBE bs) = bs := by
  have h := ofNatLE_toNatLE bs.reverse
  rw [List.length_reverse] at h
  simp [ofNatBE, toNatBE, h]

/-! ### Bytewise combination -/

/-- The bytewise exclusive or, as long as the shorter of the two. -/
def xor (a b : Bytes) : Bytes := List.zipWith (· ^^^ ·) a b

@[simp] theorem length_xor (a b : Bytes) : (xor a b).length = min a.length b.length := by
  simp [xor]

/-- A mask at least as long as the text is taken off by putting it on again. -/
theorem xor_xor (a mask : Bytes) (h : a.length ≤ mask.length) : xor (xor a mask) mask = a := by
  induction a generalizing mask with
  | nil => rfl
  | cons x a ih =>
    cases mask with
    | nil => simp at h
    | cons y mask =>
      have := ih mask (by simpa using h)
      simp only [xor, List.zipWith_cons_cons] at this ⊢
      rw [this, UInt8.xor_assoc, UInt8.xor_self, UInt8.xor_zero]

end Bytes
end Parley
