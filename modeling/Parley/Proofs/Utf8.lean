import Parley.Utf8

/-! Text that is read back from its bytes.

Each character of a text is read from the bytes that spell it, whatever follows (`read_encode`),
so that reading the bytes of a text yields the text (`decodeLossy_encode`). -/
namespace Parley.Utf8

/-! ### One character -/

theorem byte_toNat {n : Nat} (h : n < 256) : (UInt8.ofNat n).toNat = n :=
  UInt8.toNat_ofNat_of_lt' h

/-- Bytes from 128 to 191 continue a character. -/
theorem isContinuation_ofNat {n : Nat} (h : n < 64) : isContinuation (UInt8.ofNat (n + 128)) := by
  simp only [isContinuation, between, byte_toNat (show n + 128 < 256 by omega)]
  simp
  omega

theorem bits_ofNat {n : Nat} (h : n < 64) : bits (UInt8.ofNat (n + 128)) = n := by
  rw [bits, byte_toNat (by omega)]
  omega

/-- Numbers that no character has are not spelled with three bytes. -/
theorem secondOfThree_ofNat {n : Nat} (hlow : 2048 ≤ n) (hhigh : n < 65536)
    (hvalid : n.isValidChar) :
    secondOfThree (UInt8.ofNat (n / 4096 % 16 + 224)) (UInt8.ofNat (n / 64 % 64 + 128)) := by
  have hfirst : (UInt8.ofNat (n / 4096 % 16 + 224)).toNat = n / 4096 % 16 + 224 :=
    byte_toNat (by omega)
  have hsecond : (UInt8.ofNat (n / 64 % 64 + 128)).toNat = n / 64 % 64 + 128 :=
    byte_toNat (by omega)
  unfold Nat.isValidChar at hvalid
  simp only [secondOfThree, isContinuation, between, ← UInt8.toNat_inj, hfirst, hsecond]
  simp
  split
  · omega
  · split <;> omega

theorem secondOfFour_ofNat {n : Nat} (hlow : 65536 ≤ n) (hhigh : n < 1114112) :
    secondOfFour (UInt8.ofNat (n / 262144 % 8 + 240)) (UInt8.ofNat (n / 4096 % 64 + 128)) := by
  have hfirst : (UInt8.ofNat (n / 262144 % 8 + 240)).toNat = n / 262144 % 8 + 240 :=
    byte_toNat (by omega)
  have hsecond : (UInt8.ofNat (n / 4096 % 64 + 128)).toNat = n / 4096 % 64 + 128 :=
    byte_toNat (by omega)
  simp only [secondOfFour, isContinuation, between, ← UInt8.toNat_inj, hfirst, hsecond]
  simp
  split
  · omega
  · split <;> omega

section
variable {b0 b1 b2 b3 : UInt8} {rest : Bytes}

theorem read_one (h : b0.toNat < 128) : read b0 rest = (some (Char.ofNat b0.toNat), 1) := by
  rw [read.eq_def, if_pos h]

theorem read_two (h : 194 ≤ b0.toNat ∧ b0.toNat ≤ 223) (h1 : isContinuation b1) :
    read b0 (b1 :: rest) = (some (Char.ofNat (b0.toNat % 32 * 64 + bits b1)), 2) := by
  have hsmall : ¬ b0.toNat < 128 := by omega
  simp [read, between, hsmall, h, h1]

theorem read_three (h : 224 ≤ b0.toNat ∧ b0.toNat ≤ 239) (h1 : secondOfThree b0 b1)
    (h2 : isContinuation b2) : read b0 (b1 :: b2 :: rest) =
      (some (Char.ofNat ((b0.toNat % 16 * 64 + bits b1) * 64 + bits b2)), 3) := by
  have hsmall : ¬ b0.toNat < 128 := by omega
  have htwo : ¬ b0.toNat ≤ 223 := by omega
  simp [read, between, hsmall, htwo, h, h1, h2]

theorem read_four (h : 240 ≤ b0.toNat ∧ b0.toNat ≤ 244) (h1 : secondOfFour b0 b1)
    (h2 : isContinuation b2) (h3 : isContinuation b3) : read b0 (b1 :: b2 :: b3 :: rest) =
      (some (Char.ofNat (((b0.toNat % 8 * 64 + bits b1) * 64 + bits b2) * 64 + bits b3)), 4) := by
  have hsmall : ¬ b0.toNat < 128 := by omega
  have htwo : ¬ b0.toNat ≤ 223 := by omega
  have hthree : ¬ b0.toNat ≤ 239 := by omega
  simp [read, between, hsmall, htwo, hthree, h, h1, h2, h3]

end

/-- **A character is read from the bytes that spell it**, whatever follows them. -/
theorem read_encode (c : Char) (rest : Bytes) : ∃ b bs, String.utf8EncodeChar c = b :: bs ∧
    read b (bs ++ rest) = (some c, bs.length + 1) := by
  have hvalid : c.toNat.isValidChar := c.valid
  have hread : Char.ofNat c.toNat = c := Char.ofNat_toNat c
  have hmax : c.toNat < 1114112 := by
    unfold Nat.isValidChar at hvalid
    omega
  unfold String.utf8EncodeChar
  simp only
  rw [show c.val.toNat = c.toNat from rfl]
  generalize c.toNat = n at hvalid hread hmax
  -- By the number of bytes; the number is put together from them again.
  split
  · have hfirst : (UInt8.ofNat n).toNat = n := byte_toNat (by omega)
    exact ⟨_, [], rfl, (read_one (by omega)).trans (by rw [hfirst, hread]; rfl)⟩
  · split
    · have hfirst : (UInt8.ofNat (n / 64 % 32 + 192)).toNat = n / 64 % 32 + 192 :=
        byte_toNat (by omega)
      have hsum : (n / 64 % 32 + 192) % 32 * 64 + n % 64 = n := by omega
      refine ⟨_, _, rfl, (read_two (by omega) (isContinuation_ofNat (by omega))).trans ?_⟩
      rw [hfirst, bits_ofNat (by omega), hsum, hread]
      rfl
    · split
      · have hfirst : (UInt8.ofNat (n / 4096 % 16 + 224)).toNat = n / 4096 % 16 + 224 :=
          byte_toNat (by omega)
        have hsum : ((n / 4096 % 16 + 224) % 16 * 64 + n / 64 % 64) * 64 + n % 64 = n := by omega
        refine ⟨_, _, rfl, (read_three (by omega)
          (secondOfThree_ofNat (by omega) (by omega) hvalid)
          (isContinuation_ofNat (by omega))).trans ?_⟩
        rw [hfirst, bits_ofNat (by omega), bits_ofNat (by omega), hsum, hread]
        rfl
      · have hfirst : (UInt8.ofNat (n / 262144 % 8 + 240)).toNat = n / 262144 % 8 + 240 :=
          byte_toNat (by omega)
        have hsum : (((n / 262144 % 8 + 240) % 8 * 64 + n / 4096 % 64) * 64 + n / 64 % 64) * 64 +
            n % 64 = n := by omega
        refine ⟨_, _, rfl, (read_four (by omega) (secondOfFour_ofNat (by omega) hmax)
          (isContinuation_ofNat (by omega)) (isContinuation_ofNat (by omega))).trans ?_⟩
        rw [hfirst, bits_ofNat (by omega), bits_ofNat (by omega), bits_ofNat (by omega), hsum,
          hread]
        rfl

/-! ### Texts -/

theorem pieces_encode (cs : List Char) :
    pieces (cs.flatMap String.utf8EncodeChar) = cs.map some := by
  induction cs with
  | nil => rw [List.flatMap_nil, pieces, List.map_nil]
  | cons c cs ih =>
    obtain ⟨b, bs, hbytes, hread⟩ := read_encode c (cs.flatMap String.utf8EncodeChar)
    rw [List.flatMap_cons, hbytes, List.cons_append, pieces, hread]
    simp only [Nat.add_sub_cancel, List.drop_left]
    rw [ih, List.map_cons]

/-- **A text is read back from its bytes.** -/
theorem decodeLossy_encode (s : String) : decodeLossy (encode s) = s := by
  rw [decodeLossy, encode, pieces_encode, List.map_map]
  have hid : (·.getD replacement) ∘ some = (id : Char → Char) := rfl
  rw [hid, List.map_id, String.ofList_toList]

end Parley.Utf8
