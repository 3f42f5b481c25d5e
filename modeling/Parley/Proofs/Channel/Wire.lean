import Parley.Channel.Opener
import Parley.Channel.Sealer

/-! Sealed frames as bytes.

`sealed` is one frame as it crosses a stream, under the nonce of a counter, and `wire` a
list of them under consecutive nonces. The length in front says where a frame ends and the
cipher what was sealed, so bytes that begin with a sealed frame begin with no other
(`sealed_append_inj`).

`framesIn` is what a string of bytes contains: the frames that are whole in it, opened one
after another. Of a string that begins a wire it finds a beginning of the wire's frames, and
all of them only if the string is the whole wire (`framesIn_first`). -/
namespace Parley

/-- The length of the sealed frame can be spelled in front of it. -/
def Frame.Spellable (f : Frame) : Prop := f.encode.length + tagLength < UInt32.size

/-- A sender with this limit takes the frame. -/
structure Frame.Fits (max : Nat) (f : Frame) : Prop where
  payload : checkPayload f.payload.length max = .ok ()
  spellable : f.Spellable

namespace Channel

theorem spellable_byte {n : UInt32} (b : UInt8) : (Frame.mk n [b]).Spellable := by
  rw [Frame.Spellable, Frame.length_encode]
  exact (by decide : Frame.seqLength + 1 + Frame.tagLength < UInt32.size)

/-- A frame under the nonce of a counter: its length, then its ciphertext. -/
def sealed (key : SessionKey) (d : Direction) (counter : Nat) (f : Frame) : Bytes :=
  (Sealer.pieces key (Nonce.encode d counter) f).1 ++
    (Sealer.pieces key (Nonce.encode d counter) f).2

/-- Frames one after another, under the nonces from a counter on. -/
def wire (key : SessionKey) (d : Direction) : Nat → List Frame → Bytes
  | _, [] => []
  | n, f :: fs => sealed key d n f ++ wire key d (n + 1) fs

variable (key : SessionKey) (d : Direction)

theorem wire_append (n : Nat) (fs gs : List Frame) :
    wire key d n (fs ++ gs) = wire key d n fs ++ wire key d (n + fs.length) gs := by
  induction fs generalizing n with
  | nil => rfl
  | cons f fs ih =>
    have hcounter : n + 1 + fs.length = n + (fs.length + 1) := by omega
    rw [List.cons_append, wire, wire, ih (n + 1), List.length_cons, hcounter, List.append_assoc]

theorem wire_singleton (n : Nat) (f : Frame) : wire key d n [f] = sealed key d n f := by
  simp [wire]

theorem length_sealed (n : Nat) (f : Frame) :
    (sealed key d n f).length = Frame.prefixLength + (f.encode.length + Frame.tagLength) := by
  have h := Sealer.length_pieces key (Nonce.encode d n) f
  rw [sealed, List.length_append, h.1, h.2, Frame.length_encode]

theorem sealed_ne_nil (n : Nat) (f : Frame) : sealed key d n f ≠ [] := by
  have h := length_sealed key d n f
  intro hnil
  rw [hnil, List.length_nil, Frame.prefixLength] at h
  omega

theorem wire_eq_nil_iff {n : Nat} {fs : List Frame} : wire key d n fs = [] ↔ fs = [] := by
  cases fs with
  | nil => simp [wire]
  | cons f fs => simp [wire, sealed_ne_nil]

/-! ### Where a frame ends -/

theorem take_sealed (n : Nat) (f : Frame) (rest : Bytes) :
    (sealed key d n f ++ rest).take Frame.prefixLength =
      (Sealer.pieces key (Nonce.encode d n) f).1 := by
  have h := (Sealer.length_pieces key (Nonce.encode d n) f).1
  rw [sealed, List.append_assoc, List.take_left' h]

theorem drop_sealed (n : Nat) (f : Frame) :
    (sealed key d n f).drop Frame.prefixLength =
      (Sealer.pieces key (Nonce.encode d n) f).2 := by
  have h := (Sealer.length_pieces key (Nonce.encode d n) f).1
  rw [sealed, List.drop_left' h]

theorem declared_sealed {n : Nat} {f : Frame} (h : f.Spellable) (rest : Bytes) :
    Opener.declared (sealed key d n f ++ rest) = f.encode.length + Frame.tagLength := by
  rw [Opener.declared, take_sealed]
  show Bytes.toNatBE (Bytes.ofNatBE Frame.prefixLength (f.encode.length + Frame.tagLength)) = _
  rw [Bytes.toNatBE_ofNatBE]
  exact Nat.mod_eq_of_lt h

theorem needed_sealed {n : Nat} {f : Frame} (h : f.Spellable) (rest : Bytes) :
    Opener.needed (sealed key d n f ++ rest) = (sealed key d n f).length := by
  have hlen := length_sealed key d n f
  have hge : ¬ (sealed key d n f ++ rest).length < Frame.prefixLength := by
    rw [List.length_append, hlen]
    omega
  rw [Opener.needed, if_neg hge, declared_sealed key d h, hlen]

/-- A wire that is a proper beginning of a frame is empty. -/
theorem eq_nil_of_wire {n : Nat} {fs : List Frame} (hfs : ∀ f ∈ fs, f.Spellable)
    (hshort : (wire key d n fs).length < Opener.needed (wire key d n fs)) : fs = [] := by
  cases fs with
  | nil => rfl
  | cons f fs =>
    rw [wire, needed_sealed key d (hfs f List.mem_cons_self), List.length_append] at hshort
    omega

theorem decrypt?_pieces (nonce : Bytes) (f : Frame) :
    Crypto.Aead.decrypt? key.bytes nonce (Sealer.pieces key nonce f).1
      (Sealer.pieces key nonce f).2 = some f.encode :=
  Crypto.Aead.decrypt?_encrypt ..

theorem sealed_inj {n : Nat} {f g : Frame} (h : sealed key d n f = sealed key d n g) : f = g := by
  have hhead : (Sealer.pieces key (Nonce.encode d n) f).1 =
      (Sealer.pieces key (Nonce.encode d n) g).1 := by
    rw [← take_sealed key d n f [], ← take_sealed key d n g [], h]
  have hbody : (Sealer.pieces key (Nonce.encode d n) f).2 =
      (Sealer.pieces key (Nonce.encode d n) g).2 := by
    rw [← drop_sealed key d n f, ← drop_sealed key d n g, h]
  have htext : some f.encode = some g.encode := by
    rw [← decrypt?_pieces key (Nonce.encode d n) f, hhead, hbody, decrypt?_pieces]
  have hdecode := Frame.decode_encode f
  rw [Option.some.inj htext, Frame.decode_encode g] at hdecode
  exact (Except.ok.inj hdecode).symm

/-- Bytes begin with one sealed frame at most. -/
theorem sealed_append_inj {n : Nat} {f g : Frame} {x y : Bytes} (hf : f.Spellable)
    (hg : g.Spellable) (h : sealed key d n f ++ x = sealed key d n g ++ y) : f = g ∧ x = y := by
  have hlen : (sealed key d n f).length = (sealed key d n g).length := by
    rw [← needed_sealed key d hf x, ← needed_sealed key d hg y, h]
  obtain ⟨hsealed, hrest⟩ := List.append_inj h hlen
  exact ⟨sealed_inj key d hsealed, hrest⟩

/-- A wire that begins another is the wire of its first frames. -/
theorem prefix_of_wire {n : Nat} {fs gs : List Frame} {x : Bytes} (hfs : ∀ f ∈ fs, f.Spellable)
    (hgs : ∀ g ∈ gs, g.Spellable) (h : wire key d n fs ++ x = wire key d n gs) : fs <+: gs := by
  induction fs generalizing n gs with
  | nil => exact List.nil_prefix
  | cons f fs ih =>
    rw [wire, List.append_assoc] at h
    cases gs with
    | nil => exact absurd (List.append_eq_nil_iff.mp h).1 (sealed_ne_nil key d n f)
    | cons g gs =>
      obtain ⟨rfl, hrest⟩ := sealed_append_inj key d (hfs f List.mem_cons_self)
        (hgs g List.mem_cons_self) h
      exact List.cons_prefix_cons.mpr ⟨rfl, ih (fun f' hf' => hfs f' (List.mem_cons_of_mem _ hf'))
        (fun g' hg' => hgs g' (List.mem_cons_of_mem _ hg')) hrest⟩

/-! ### What bytes contain -/

/-- The frame that is sealed in bytes that hold exactly one. -/
def opened (n : Nat) (bytes : Bytes) : Option Frame :=
  match Crypto.Aead.decrypt? key.bytes (Nonce.encode d n) (bytes.take Frame.prefixLength)
      (bytes.drop Frame.prefixLength) with
  | none => none
  | some plaintext => (Frame.decode plaintext).toOption

/-- The frames that are complete in a string of bytes, opened one after another. -/
def framesIn (n : Nat) (bytes : Bytes) : List Frame :=
  if bytes.length < Opener.needed bytes then []
  else
    match opened key d n (bytes.take (Opener.needed bytes)) with
    | none => []
    | some f => f :: framesIn (n + 1) (bytes.drop (Opener.needed bytes))
termination_by bytes.length
decreasing_by
  have hpos : 0 < Opener.needed bytes := by
    rw [Opener.needed]
    split <;> simp only [Frame.prefixLength] <;> omega
  simp only [List.length_drop]
  omega

theorem opened_sealed (n : Nat) (f : Frame) : opened key d n (sealed key d n f) = some f := by
  have htake := take_sealed key d n f []
  rw [List.append_nil] at htake
  rw [opened, htake, drop_sealed, decrypt?_pieces]
  show (Frame.decode f.encode).toOption = some f
  rw [Frame.decode_encode]
  rfl

theorem framesIn_sealed {n : Nat} {f : Frame} (h : f.Spellable) (rest : Bytes) :
    framesIn key d n (sealed key d n f ++ rest) = f :: framesIn key d (n + 1) rest := by
  have hneeded := needed_sealed key d (n := n) h rest
  have hlong : ¬ (sealed key d n f ++ rest).length < (sealed key d n f).length := by
    rw [List.length_append]
    omega
  rw [framesIn, hneeded, if_neg hlong, List.take_left, List.drop_left, opened_sealed]

theorem framesIn_of_short {n : Nat} {bytes : Bytes} (h : bytes.length < Opener.needed bytes) :
    framesIn key d n bytes = [] := by
  rw [framesIn, if_pos h]

/-- A proper beginning of a sealed frame lacks something. -/
theorem short_of_append_sealed {n : Nat} {f : Frame} {bytes x y : Bytes} (hf : f.Spellable)
    (h : bytes ++ x = sealed key d n f ++ y)
    (hlt : bytes.length < (sealed key d n f).length) : bytes.length < Opener.needed bytes := by
  by_cases h4 : bytes.length < Frame.prefixLength
  · rw [Opener.needed, if_pos h4]
    exact h4
  · have htake : bytes.take Frame.prefixLength = (bytes ++ x).take Frame.prefixLength := by
      rw [List.take_append_of_le_length (by omega)]
    have hdeclared : Opener.declared bytes = f.encode.length + Frame.tagLength := by
      rw [← declared_sealed key d (n := n) hf y, ← h, Opener.declared, Opener.declared, htake]
    rw [Opener.needed, if_neg h4, hdeclared, ← length_sealed key d n f]
    exact hlt

/-- Bytes that begin a wire contain a beginning of its frames, and all of them only if
nothing of the wire is missing. -/
theorem framesIn_first {n : Nat} {fs : List Frame} (hfs : ∀ f ∈ fs, f.Spellable) {bytes x : Bytes}
    (h : bytes ++ x = wire key d n fs) :
    framesIn key d n bytes <+: fs ∧ (framesIn key d n bytes = fs → x = []) := by
  induction fs generalizing n bytes with
  | nil =>
    obtain ⟨rfl, rfl⟩ := List.append_eq_nil_iff.mp h
    have hshort : ([] : Bytes).length < Opener.needed [] := by decide
    rw [framesIn_of_short key d hshort]
    exact ⟨List.nil_prefix, fun _ => rfl⟩
  | cons f fs ih =>
    have hf := hfs f List.mem_cons_self
    rw [wire] at h
    by_cases hlt : bytes.length < (sealed key d n f).length
    · rw [framesIn_of_short key d (short_of_append_sealed key d hf h hlt)]
      exact ⟨List.nil_prefix, fun hnil => nomatch hnil⟩
    · obtain ⟨rest, hbytes⟩ : ∃ rest, bytes = sealed key d n f ++ rest :=
        (List.prefix_of_prefix_length_le ⟨_, rfl⟩ ⟨x, h⟩ (by omega)).imp fun _ ht => ht.symm
      subst hbytes
      rw [List.append_assoc] at h
      have hrest := ih (fun g hg => hfs g (List.mem_cons_of_mem f hg)) (List.append_cancel_left h)
      rw [framesIn_sealed key d hf]
      exact ⟨List.cons_prefix_cons.mpr ⟨rfl, hrest.1⟩, fun heq => hrest.2 (List.cons.inj heq).2⟩

theorem framesIn_wire {n : Nat} {fs : List Frame} (hfs : ∀ f ∈ fs, f.Spellable) :
    framesIn key d n (wire key d n fs) = fs := by
  induction fs generalizing n with
  | nil =>
    have hshort : ([] : Bytes).length < Opener.needed [] := by decide
    exact framesIn_of_short key d hshort
  | cons f fs ih =>
    rw [wire, framesIn_sealed key d (hfs f List.mem_cons_self),
      ih fun g hg => hfs g (List.mem_cons_of_mem f hg)]

end Channel
end Parley
