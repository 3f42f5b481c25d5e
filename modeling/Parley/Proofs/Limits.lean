import Parley.Config.Validation
import Parley.Proofs.Channel.RoundTrip
import Parley.Proofs.Channel.Writing

/-! The limits on frames that a configuration sets.

Every limit of a configuration without problems leaves room for a byte, and every length that is
computed from it has 32 bits (`bounds_of_problems`). So a frame whose payload passes the sender's
check is sealed behind a length that is right, and the receiver's check passes the same frames
(`Safe`). What a sender has put on the stream is then read without complaint about lengths, wherever
the stream is cut, by every receiver whose limit is no smaller (`limits_are_safe`). -/
namespace Parley

/-! ### Streams that are cut -/

namespace Channel.Opener

/-- A step of a read call finds that the stream has ended, or does what it does on an open one. -/
theorem advance_open {o o' : Opener} {c : Bytes} {p p' : Pipe} {reading : Reading}
    (h : o.advance c p = some (reading, o', p')) :
    (reading = if c = [] then .ended else .failed (.io .unexpectedEof)) ∨
      o.advance c { p with closed := false } = some (reading, o', { p' with closed := false }) := by
  cases stepped_of_advance h with
  | fills hahead hheld =>
    right
    rw [advance, if_pos hahead, Pipe.pull, if_neg hheld]
    cases htake : p.held.take o.capacity with
    | nil => exact absurd htake (o.take_capacity_ne_nil hheld)
    | cons => rfl
  | ends _ _ _ hc => exact .inl (if_pos hc).symm
  | breaks _ _ _ hc => exact .inl (if_neg hc).symm
  | inspects hahead hinspect =>
    right
    rw [advance, if_neg hahead]
    exact congrArg (fun r => some (r.1, r.2, { p with closed := false })) hinspect

/-- **A wire that is cut anywhere yields its first frames**, and then an end: a clean one, or one
inside a frame. -/
theorem reads_cut {o : Opener} {c coming : Bytes} {p : Pipe} {gs : List Frame} {r : Reading}
    (h : Reads o c p coming gs r) {rest : Bytes} {fs : List Frame}
    (hw : Ahead o c { p with closed := false } (coming ++ rest) fs) :
    gs <+: fs ∧ (r = .ended ∨ r = .failed (.io .unexpectedEof)) := by
  induction h generalizing fs with
  | @arrives o c p bs left p' coming gs r h _ ih =>
    have hsame : ∀ p : Pipe, p.closed = false → { p with closed := false } = p := by
      rintro ⟨_, _, _⟩ rfl
      rfl
    obtain ⟨hopen, -, -, hp'⟩ := Pipe.push_ok h
    have hopen' : p'.closed = false := by
      rw [hp']
      exact hopen
    rw [hsame p hopen, List.append_assoc] at hw
    refine ih ?_
    rw [hsame p' hopen', List.append_assoc]
    exact hw.arrives h
  | ends _ ih => exact ih hw
  | partly h _ ih =>
    rcases advance_open h with hend | hadvance
    · split at hend <;> cases hend
    · exact ih (hw.advance_partly hadvance)
  | frame h _ ih =>
    rcases advance_open h with hend | hadvance
    · split at hend <;> cases hend
    · obtain ⟨fs', rfl, hw'⟩ := hw.advance_frame hadvance
      obtain ⟨hfirst, hr⟩ := ih hw'
      exact ⟨List.cons_prefix_cons.mpr ⟨rfl, hfirst⟩, hr⟩
  | ended => exact ⟨List.nil_prefix, .inl rfl⟩
  | failed h =>
    refine ⟨List.nil_prefix, .inr ?_⟩
    rcases advance_open h with hend | hadvance
    · split at hend <;> cases hend
      rfl
    · exact absurd hadvance hw.not_failed

end Channel.Opener

/-! ### Limits -/

namespace Config
open Channel

/-- The largest plaintexts that are taken and sent. -/
def Connection.limits (c : Connection) : List Nat := [c.maxRead, c.maxWrite]

/-- A limit of a configuration without problems has room for a sequence number and a byte, and a
sealed frame with its length behind it has 32 bits. -/
theorem bounds_of_problems {c : Config} (h : c.problems = []) {max : Nat}
    (hmax : max ∈ c.connection.limits) : Frame.seqLength < max ∧ max + 20 < UInt32.size := by
  obtain ⟨hread, hwrite⟩ := checkBuffer_of_problems h
  have hbounds : Frame.seqLength < max ∧ max ≤ maxBufferSize := by
    simp only [Connection.limits, List.mem_cons, List.not_mem_nil, or_false] at hmax
    rcases hmax with rfl | rfl
    · exact bounds_of_checkBuffer hread
    · exact bounds_of_checkBuffer hwrite
  simp only [maxBufferSize, Frame.tagLength, Frame.prefixLength, UInt32.size] at hbounds ⊢
  omega

/-- Lengths under a limit are computed within 32 bits, and the two checks agree. -/
structure Safe (max : Nat) : Prop where
  /-- What the largest ciphertext may come to. -/
  ciphertext : max + Frame.tagLength < UInt32.size
  /-- The buffers of a secured stream, one for each direction. -/
  buffers : ∀ key role n, (Sealer.create key role max n).outlet.capacity < UInt32.size ∧
    (Opener.create key role max n).capacity < UInt32.size
  byte : ∀ length ≤ 1, Frame.checkPayload length max = .ok ()
  agree : ∀ length, Frame.checkPayload length max = .ok () ↔
    Frame.checkCiphertext (Frame.seqLength + length + Frame.tagLength) max = .ok ()
  /-- What a frame that may be sent is sealed as, with its length. -/
  sealed : ∀ f : Frame, Frame.checkPayload f.payload.length max = .ok () → ∀ key d n,
    (Channel.sealed key d n f).length < UInt32.size
  /-- The length that is written is that of the ciphertext, and no frame that may be sent is
  rejected but for want of a nonce. -/
  writes : ∀ f : Frame, Frame.checkPayload f.payload.length max = .ok () → ∀ s : Sealer,
    s.maxPlaintext = max →
    (s.nonces.counter < Nonce.last → ∃ header body,
      s.write f = .ok (.placing [header, body],
        { s with nonces.counter := s.nonces.counter + 1 }) ∧
      header.length = Frame.prefixLength ∧ Bytes.toNatBE header = body.length) ∧
    ∀ e, s.write f = .error e → e = .crypto .nonceExhausted

theorem safe_of_bounds {max : Nat} (hmin : Frame.seqLength < max) (hmax : max + 20 < UInt32.size) :
    Safe max where
  ciphertext := Nat.lt_of_le_of_lt (Nat.add_le_add_left (by decide) _) hmax
  buffers _ _ _ := ⟨hmax, hmax⟩
  byte length hlength := by
    rw [Frame.checkPayload_eq_ok_iff]
    omega
  agree _ := (Frame.checkCiphertext_sealed (Nat.le_of_lt hmin)).symm
  sealed f hf key d n := by
    have hpayload := Frame.checkPayload_eq_ok_iff.mp hf
    rw [length_sealed, Frame.length_encode]
    simp only [Frame.prefixLength, Frame.seqLength, Frame.tagLength] at hmin hpayload ⊢
    omega
  writes f hf s hs := by
    have hfits : f.Fits s.maxPlaintext := by
      rw [hs, fits_iff hmax]
      exact Frame.checkPayload_eq_ok_iff.mp hf
    refine ⟨fun hlast => ?_, fun e he => ?_⟩
    · refine ⟨_, _, Sealer.write_eq_ok_iff.mpr ⟨hfits, hlast, rfl, rfl⟩,
        (Sealer.length_pieces ..).1, ?_⟩
      rw [(Sealer.length_pieces ..).2, Sealer.pieces, Bytes.toNatBE_ofNatBE, ← Frame.length_encode]
      exact Nat.mod_eq_of_lt hfits.spellable
    · rcases Sealer.error_of_write he with ⟨-, hlong⟩ | ⟨hnonce, -⟩
      · exact absurd hfits hlong
      · exact hnonce

/-- **The limits of a configuration without problems are safe**: no length that is computed from
one of them has more than 32 bits, a byte may always be sent, and what may be sent under a limit is
what is taken under it. So whatever a sender has put on its stream is no reason for a receiver to
complain about a length if its limit is not below the sender's: wherever the stream is cut, the
receiver gets the sender's first frames and then finds the end. -/
theorem limits_are_safe {c : Config} (h : c.problems = []) :
    (∀ max ∈ c.connection.limits, Safe max) ∧
    ∀ limit ≥ c.connection.maxWrite, ∀ key role n x,
      Writer.Reachable key role c.connection.maxWrite n x →
      ∀ bytes, bytes <+: x.entered → ∀ capacity fs r,
        Opener.Reads (Opener.create key role.opposite limit n) [] { capacity } bytes fs r →
        fs <+: x.frames ∧ (r = .ended ∨ r = .failed (.io .unexpectedEof)) := by
  constructor
  · intro max hmax
    obtain ⟨hmin, hfits⟩ := bounds_of_problems h hmax
    exact safe_of_bounds hmin hfits
  · intro limit hlimit key role n x hx bytes hbytes capacity fs r hreads
    have hsound := Writer.sound_of_reachable hx
    have hmin := (bounds_of_problems h (List.mem_cons_of_mem _ List.mem_cons_self)).1
    have hadmits : ∀ f ∈ x.frames, Admits limit f := by
      intro f hf
      have hfits := hsound.fits f hf
      rw [Writer.maxPlaintext_of_reachable hx] at hfits
      -- The frame fits the larger limit as well, and there the two checks agree.
      have hfits' : f.Fits limit := by
        refine ⟨Frame.checkPayload_eq_ok_iff.mpr ?_, hfits.spellable⟩
        exact Nat.le_trans (Frame.checkPayload_eq_ok_iff.mp hfits.payload)
          (Nat.sub_le_sub_right hlimit _)
      exact ((fits_iff_admits (Nat.le_of_lt (Nat.lt_of_lt_of_le hmin hlimit))).mp hfits').2
    have hahead := hsound.ahead hadmits capacity
    obtain ⟨rest, hrest⟩ := hbytes.trans hsound.placed.entered
    rw [← hrest] at hahead
    exact Opener.reads_cut hreads hahead

/-- As large as may be for what is read, and as small as may be for what is sent. -/
def extreme : Config where
  connection := { readBufferSize := 4294967275, writeBufferSize := 5 }

/-- Both limits are safe, and so is the smallest there is at the far end. -/
theorem extreme_limits_are_safe :
    extreme.problems = [] ∧ Safe 4294967275 ∧ Safe 5 ∧
      ∀ x, Writer.Reachable ⟨[7]⟩ .client 5 0 x → ∀ fs r,
        Opener.Reads (Opener.create ⟨[7]⟩ .server 5) [] { capacity := 1 } x.entered fs r →
        fs <+: x.frames ∧ (r = .ended ∨ r = .failed (.io .unexpectedEof)) := by
  have hvalid : extreme.problems = [] := by decide +kernel
  obtain ⟨hsafe, hreads⟩ := limits_are_safe hvalid
  refine ⟨hvalid, hsafe _ (by decide), hsafe _ (by decide), fun x hx fs r h => ?_⟩
  exact hreads 5 (Nat.le_refl 5) ⟨[7]⟩ .client 0 x hx _ List.prefix_rfl 1 fs r h

end Config
end Parley
