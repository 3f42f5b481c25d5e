import Parley.Proofs.Channel.Opening
import Parley.Proofs.Channel.Sealing

/-! The two halves of a secured stream are inverse to each other.

For frames within the limit, what a writing half puts on the stream is one string of bytes,
their wire, and a reading half with the same key, nonces and limit yields the same frames
from it and then a clean end. No other bytes are read to a clean end: whatever a reading half
takes, the writing half would have written. -/
namespace Parley.Channel

/-- The sender's bound on a payload, with room for the sequence number in the limit. -/
theorem fits_iff {max : Nat} (hmax : max + 20 < UInt32.size) {f : Frame} :
    f.Fits max ↔ f.payload.length ≤ max - Frame.seqLength := by
  constructor
  · intro h
    exact Frame.checkPayload_eq_ok_iff.mp h.payload
  · intro h
    refine ⟨Frame.checkPayload_eq_ok_iff.mpr h, ?_⟩
    show f.encode.length + Frame.tagLength < UInt32.size
    simp only [Frame.length_encode, Frame.seqLength, Frame.tagLength] at h ⊢
    omega

/-- Both halves bound the same frames. -/
theorem fits_iff_admits {max : Nat} (hmin : Frame.seqLength ≤ max) {f : Frame} :
    f.Fits max ↔ f.Spellable ∧ Admits max f := by
  have hbounds : Frame.checkCiphertext (Frame.seqLength + f.payload.length + Frame.tagLength) max =
      .ok () ↔ Frame.checkPayload f.payload.length max = .ok () := Frame.checkCiphertext_sealed hmin
  rw [← Frame.length_encode] at hbounds
  constructor
  · intro h
    exact ⟨h.spellable, hbounds.mpr h.payload⟩
  · rintro ⟨hspell, hadmits⟩
    exact ⟨hbounds.mp hadmits, hspell⟩

variable (key : SessionKey) (role : Role) (max n : Nat)

/-- A fresh reader before the bytes of a wire. -/
theorem ahead_create {fs : List Frame} (hfs : ∀ f ∈ fs, f.Spellable ∧ Admits max f)
    (hn : n + fs.length ≤ Nonce.last) (capacity : Nat) :
    Opener.Ahead (Opener.create key role.opposite max n) [] { capacity }
      (wire key role.outbound n fs) fs := by
  refine ⟨?_, Opener.short_nil, (fun hclosed => nomatch hclosed), hfs, fun _ => hn⟩
  rw [Opener.create, Role.inbound_opposite]
  rfl

/-- A fresh writer's output, for frames it takes. -/
theorem outputs_create_iff (hn : n ≤ Nonce.last) {fs : List Frame} {out : Bytes} :
    Sealer.Outputs (Sealer.create key role max n) fs out ↔
      out = wire key role.outbound n fs ∧ (∀ f ∈ fs, f.Fits max) ∧ n + fs.length ≤ Nonce.last :=
  Sealer.outputs_iff (s := Sealer.create key role max n) rfl hn

/-- **A reader accepts exactly what a writer produces.** Frames within the limit cross the
stream whole, through a pipe of any capacity and in whatever pieces they arrive; and bytes
that a reader takes to a clean end are what the writer produces for the frames it yields. -/
theorem reads_iff_outputs (hmin : 4 ≤ max) (hmax : max + 20 < UInt32.size)
    (hn : n < UInt64.size) :
    (∀ fs : List Frame, (∀ f ∈ fs, f.payload.length + 4 ≤ max) →
      n + fs.length ≤ UInt64.size - 1 →
      ∃ bytes, Sealer.Outputs (Sealer.create key role max n) fs bytes ∧
        (∀ other, Sealer.Outputs (Sealer.create key role max n) fs other → other = bytes) ∧
        ∀ capacity > 0,
          Opener.Reads (Opener.create key role.opposite max n) [] { capacity } bytes fs .ended ∧
          ∀ gs r, Opener.Reads (Opener.create key role.opposite max n) [] { capacity } bytes gs r →
            gs = fs ∧ r = .ended) ∧
    (∀ (bytes : Bytes) (capacity : Nat) (fs : List Frame),
      Opener.Reads (Opener.create key role.opposite max n) [] { capacity } bytes fs .ended →
      ∀ other, Sealer.Outputs (Sealer.create key role max n) fs other ↔ other = bytes) := by
  have hlast : n ≤ Nonce.last := by
    rw [Nonce.last]
    omega
  constructor
  · intro fs hlimit hcount
    have hfits : ∀ f ∈ fs, f.Fits max := by
      intro f hf
      have := hlimit f hf
      rw [fits_iff hmax, Frame.seqLength]
      omega
    refine ⟨wire key role.outbound n fs, ?_, ?_, ?_⟩
    · exact (outputs_create_iff key role max n hlast).mpr ⟨rfl, hfits, hcount⟩
    · intro other hother
      exact ((outputs_create_iff key role max n hlast).mp hother).1
    · intro capacity hcap
      have hw := ahead_create key role max n
        (fun f hf => (fits_iff_admits hmin).mp (hfits f hf)) hcount capacity
      exact ⟨Opener.exists_reads hw hcap, fun gs r hr => Opener.reads_wire hw hr⟩
  · intro bytes capacity fs hreads other
    obtain ⟨hwire, hframes, hnonces⟩ :=
      Opener.wire_of_reads hreads Opener.short_nil (by rintro ⟨⟩)
    have hbytes : bytes = wire key role.outbound n fs := by
      rw [← Role.inbound_opposite]
      exact hwire
    rw [outputs_create_iff key role max n hlast, hbytes]
    constructor
    · exact fun h => h.1
    · rintro rfl
      refine ⟨rfl, fun f hf => (fits_iff_admits hmin).mpr (hframes f hf), ?_⟩
      cases fs with
      | nil => exact hlast
      | cons f fs => exact hnonces (List.cons_ne_nil f fs)

/-- Two frames, the second empty, across a stream with limit 64. -/
theorem two_frames_cross :
    4 ≤ 64 ∧ 64 + 20 < UInt32.size ∧ 7 < UInt64.size ∧
    ∃ bytes, Sealer.Outputs (Sealer.create ⟨[1]⟩ .client 64 7) [⟨1, [5, 6]⟩, ⟨0, []⟩] bytes ∧
      Opener.Reads (Opener.create ⟨[1]⟩ .server 64 7) [] { capacity := 1 } bytes
        [⟨1, [5, 6]⟩, ⟨0, []⟩] .ended := by
  refine ⟨by decide, by decide, by decide, ?_⟩
  have hboth := reads_iff_outputs ⟨[1]⟩ .client 64 7 (by decide) (by decide) (by decide)
  obtain ⟨bytes, hout, -, hreads⟩ := hboth.1 [⟨1, [5, 6]⟩, ⟨0, []⟩] (by decide) (by decide)
  exact ⟨bytes, hout, (hreads 1 (by decide)).1⟩

end Parley.Channel
