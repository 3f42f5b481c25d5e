import Mathlib.Logic.Relation
import Parley.Proofs.Channel.Nonces
import Parley.Proofs.Channel.RoundTrip

/-! What a writing half puts into a pipe.

A `Writer` is a writing half in use: calls are made one after another, each goes on until it
returns, and meanwhile the far end reads as it likes. A frame is handed over in two pieces, which
go into the buffer in front of the pipe, or past it if they are too large; the buffer may be
emptied in between, and the pipe may take only some of it.

All the same, what has entered the pipe, what is in the buffer and what is left of the call are the
wire of the frames taken, in this order. Only a call that fails breaks this, and it fails only
where the pipe is closed: then something is left in the buffer, nothing enters the pipe any more,
and no flush succeeds (`Sound`). So what has entered is a beginning of the wire, and all of it once
a flush or a close has succeeded (`stream_law`). -/
namespace Parley.Channel

namespace Sealer
variable {s s' : Sealer} {p p' : Pipe} {job : Job} {job' : Option Job} {pieces : List Bytes}
  {e : IoError}

/-! ### Rejected calls -/

/-- A call is rejected because its payload is too large, or because there is no nonce left. -/
theorem error_of_write {f : Frame} {e : Error} (h : s.write f = .error e) :
    (∃ length max, e = .framing (.payloadTooLarge length max)) ∧ ¬ f.Fits s.maxPlaintext ∨
      e = .crypto .nonceExhausted ∧ Nonce.last ≤ s.nonces.counter := by
  unfold write at h
  cases hcheck : Frame.checkPayload f.payload.length s.maxPlaintext with
  | error cause =>
    rw [hcheck] at h
    cases h
    refine .inl ⟨?_, fun hfits => ?_⟩
    · unfold Frame.checkPayload at hcheck
      split at hcheck <;> cases hcheck
      exact ⟨_, _, rfl⟩
    · rw [hfits.payload] at hcheck
      cases hcheck
  | ok u =>
    simp only [hcheck] at h
    split at h
    · rename_i hspell
      cases h
      exact .inl ⟨⟨_, _, rfl⟩, fun hfits => absurd hfits.spellable (Nat.not_lt_of_ge hspell)⟩
    · unfold Nonces.next at h
      by_cases hlast : s.nonces.counter ≥ Nonce.last
      · rw [if_pos hlast] at h
        cases h
        exact .inr ⟨rfl, hlast⟩
      · rw [if_neg hlast] at h
        cases h

/-! ### Steps of a call -/

/-- Pieces stay pieces, none of them longer than before; and where the pipe is closed after a step
something is in the buffer. -/
theorem advance_pieces (hne : ∀ piece ∈ pieces, piece ≠ [])
    (h : s.advance (.placing pieces) p = some (.ok (some job, s', p'))) :
    ∃ pieces', job = .placing pieces' ∧ (∀ piece ∈ pieces', piece ≠ []) ∧
      (∀ k, (∀ piece ∈ pieces, piece.length < k) → ∀ piece ∈ pieces', piece.length < k) ∧
      (p'.closed = true → s'.outlet.held ≠ []) := by
  cases stepped_of_advance h with
  | drains _ hopen =>
    refine ⟨pieces, rfl, hne, fun _ hk => hk, fun hclosed => ?_⟩
    rw [hopen] at hclosed
    cases hclosed
  | @passes piece rest _ _ hopen =>
    refine ⟨_, rfl, fun q hq => ?_, fun k hk q hq => ?_, fun hclosed => ?_⟩
    · split at hq
      · exact hne q (List.mem_cons_of_mem piece hq)
      · rename_i hsome
        rcases List.mem_cons.mp hq with rfl | hq
        · exact hsome
        · exact hne q (List.mem_cons_of_mem piece hq)
    · split at hq
      · exact hk q (List.mem_cons_of_mem piece hq)
      · rcases List.mem_cons.mp hq with rfl | hq
        · have := hk piece List.mem_cons_self
          rw [List.length_drop]
          omega
        · exact hk q (List.mem_cons_of_mem piece hq)
    · rw [hopen] at hclosed
      cases hclosed
  | @buffers piece rest =>
    refine ⟨rest, rfl, fun q hq => hne q (List.mem_cons_of_mem piece hq),
      fun k hk q hq => hk q (List.mem_cons_of_mem piece hq), fun _ hnil => ?_⟩
    exact hne piece List.mem_cons_self (List.append_eq_nil_iff.mp hnil).2

/-- A flush or a close is the same call until it is done. -/
theorem advance_flush (hjob : job = .flushing ∨ job = .closing)
    (h : s.advance job p = some (.ok (job', s', p'))) : job' = none ∨ job' = some job := by
  rcases hjob with rfl | rfl <;> cases stepped_of_advance h with
  | drains => exact .inr rfl
  | _ => exact .inl rfl

/-- Where the pipe is closed and something is in the buffer, only a frame can be written, and it
stays in the buffer. -/
theorem advance_closed (hclosed : p.closed = true) (hheld : s.outlet.held ≠ [])
    (h : s.advance job p = some (.ok (job', s', p'))) :
    p' = p ∧ s'.outlet.held ≠ [] ∧ ∃ pieces, job = .placing pieces := by
  cases stepped_of_advance h with
  | placed => exact ⟨rfl, hheld, _, rfl⟩
  | drains _ hopen =>
    rw [hclosed] at hopen
    cases hopen
  | passes hempty
  | flushed hempty
  | closed hempty => exact absurd hempty hheld
  | buffers => exact ⟨rfl, fun hnil => hheld (List.append_eq_nil_iff.mp hnil).1, _, rfl⟩

end Sealer

/-! ### A writing half in use -/

/-- A writing half and its pipe, with the call under way and what was done so far. -/
structure Writer where
  sealer : Sealer
  pipe : Pipe
  /-- What is left of the call. -/
  call : Option Sealer.Job := none
  /-- The frames of the calls that were not rejected, in order. -/
  frames : List Frame := []
  /-- The bytes that have entered the pipe. -/
  entered : Bytes := []

namespace Writer

/-- Nothing is written yet, into a pipe of some capacity. -/
def fresh (key : SessionKey) (role : Role) (max n capacity : Nat) : Writer where
  sealer := .create key role max n
  pipe := { capacity }

/-- A call is made when the one before has returned; it goes on, succeeds or fails; and the far end
reads, or is gone. (Under a limit of nothing a ciphertext fills the buffer, and passes it by; then
the far end stays.) -/
inductive Step (x : Writer) : Writer → Prop where
  | writes {f job s} (hidle : x.call = none) (h : x.sealer.write f = .ok (job, s)) :
      Step x { x with sealer := s, call := some job, frames := x.frames ++ [f] }
  | rejected {f e} (hidle : x.call = none) (h : x.sealer.write f = .error e) : Step x x
  | flushes (hidle : x.call = none) : Step x { x with call := some .flushing }
  | closes (hidle : x.call = none) : Step x { x with call := some .closing }
  | advances {job job' s p} (hcall : x.call = some job)
      (h : x.sealer.advance job x.pipe = some (.ok (job', s, p))) :
      Step x { x with
        sealer := s, pipe := p, call := job'
        entered := x.entered ++ p.held.drop x.pipe.held.length }
  | fails {job e} (hcall : x.call = some job)
      (h : x.sealer.advance job x.pipe = some (.error e)) :
      Step x { x with sealer := x.sealer.failed, call := none }
  | reads {max bs p} (h : x.pipe.pull max = some (bs, p)) : Step x { x with pipe := p }
  | leaves (hlimit : 0 < x.sealer.maxPlaintext) : Step x { x with pipe := x.pipe.close }

/-- One thing after another. -/
abbrev Leads : Writer → Writer → Prop := Relation.ReflTransGen Step

/-- What comes of a fresh writer. -/
def Reachable (key : SessionKey) (role : Role) (max n : Nat) (x : Writer) : Prop :=
  ∃ capacity, Leads (fresh key role max n capacity) x

/-- The call under way returns successfully. -/
inductive Succeeds (x : Writer) (job : Sealer.Job) : Writer → Prop where
  | done {s p} (hcall : x.call = some job)
      (h : x.sealer.advance job x.pipe = some (.ok (none, s, p))) :
      Succeeds x job { x with
        sealer := s, pipe := p, call := none
        entered := x.entered ++ p.held.drop x.pipe.held.length }

/-- The pieces of a call are something, and not too large for the buffer where they must not pass
it by. -/
structure Pieces (x : Writer) (pieces : List Bytes) : Prop where
  some : ∀ piece ∈ pieces, piece ≠ []
  short : 0 < x.sealer.maxPlaintext → ∀ piece ∈ pieces, piece.length < x.sealer.outlet.capacity
  closed : x.pipe.closed = true → x.sealer.outlet.held = [] →
    ∀ piece ∈ pieces.head?, piece.length < x.sealer.outlet.capacity

/-- Every byte of the frames taken is where it should be; or the pipe is closed for good, and
something is left behind. -/
inductive Placed (x : Writer) (bytes : Bytes) : Prop where
  | whole (h : x.entered ++ x.sealer.outlet.held ++ Sealer.leftOf x.call = bytes) : Placed x bytes
  | broken (hclosed : x.pipe.closed = true) (hheld : x.sealer.outlet.held ≠ [])
      (hentered : x.entered <+: bytes) : Placed x bytes

/-- A writer, at any moment. -/
structure Sound (key : SessionKey) (d : Direction) (n : Nat) (x : Writer) : Prop where
  sealing : x.sealer.key = key
  nonces : x.sealer.nonces = ⟨d, n + x.frames.length⟩
  capacity : x.sealer.outlet.capacity =
    x.sealer.maxPlaintext + Frame.prefixLength + Frame.tagLength
  fits : ∀ f ∈ x.frames, f.Fits x.sealer.maxPlaintext
  bound : x.frames ≠ [] → n + x.frames.length ≤ Nonce.last
  pieces : ∀ pieces, x.call = some (.placing pieces) → x.Pieces pieces
  placed : x.Placed (wire key d n x.frames)

variable {key : SessionKey} {d : Direction} {role : Role} {max n : Nat} {x y : Writer}

theorem Succeeds.step {job : Sealer.Job} (h : x.Succeeds job y) : Step x y := by
  cases h with
  | done hcall hdone => exact .advances hcall hdone

theorem sound_fresh (key : SessionKey) (role : Role) (max n capacity : Nat) :
    (fresh key role max n capacity).Sound key role.outbound n where
  sealing := rfl
  nonces := rfl
  capacity := rfl
  fits := fun f hf => absurd hf List.not_mem_nil
  bound := fun hne => absurd rfl hne
  pieces := by rintro _ ⟨⟩
  placed := .whole rfl

theorem Sound.writes {f : Frame} {job : Sealer.Job} {s : Sealer} (h : x.Sound key d n)
    (hidle : x.call = none) (hwrite : x.sealer.write f = .ok (job, s)) :
    Sound key d n { x with sealer := s, call := some job, frames := x.frames ++ [f] } := by
  have hcounter : x.sealer.nonces.counter = n + x.frames.length := by rw [h.nonces]
  have hdirection : x.sealer.nonces.direction = d := by rw [h.nonces]
  have hleft : job.left = sealed key d (n + x.frames.length) f := by
    rw [Sealer.left_of_write hwrite, h.sealing, hdirection, hcounter]
  obtain ⟨hfits, hlast, rfl, rfl⟩ := Sealer.write_eq_ok_iff.mp hwrite
  have hlength := Sealer.length_pieces x.sealer.key
    (Nonce.encode x.sealer.nonces.direction x.sealer.nonces.counter) f
  have hwire : wire key d n (x.frames ++ [f]) = wire key d n x.frames ++
      sealed key d (n + x.frames.length) f := by
    rw [wire_append, wire_singleton]
  refine ⟨h.sealing, ?_, h.capacity, fun g hg => ?_, fun _ => ?_, ?_, ?_⟩
  · show Nonces.mk _ _ = _
    rw [List.length_append, hdirection, hcounter]
    rfl
  · rcases List.mem_append.mp hg with hg | hg
    · exact h.fits g hg
    · rw [List.mem_singleton.mp hg]
      exact hfits
  · show n + (x.frames ++ [f]).length ≤ _
    rw [List.length_append, List.length_singleton]
    omega
  · rintro pieces ⟨⟩
    refine ⟨Sealer.pieces_ne_nil _ _ f, fun hmax piece hpiece => ?_, fun _ _ piece hpiece => ?_⟩
    · have hb := (@Sealer.buffered_of_fits _ f [] hmax hfits x.sealer.key
        (Nonce.encode x.sealer.nonces.direction x.sealer.nonces.counter)).short piece hpiece
      show piece.length < x.sealer.outlet.capacity
      rw [h.capacity]
      exact hb.2
    · obtain rfl := Option.some.inj hpiece
      show _ < x.sealer.outlet.capacity
      rw [hlength.1, h.capacity, Frame.tagLength]
      omega
  · cases h.placed with
    | whole hbytes =>
      refine .whole ?_
      rw [hidle, Sealer.leftOf, List.append_nil] at hbytes
      exact (congrArg₂ (· ++ ·) hbytes hleft).trans hwire.symm
    | broken hclosed hheld hentered =>
      refine .broken hclosed hheld (hentered.trans ?_)
      show _ <+: wire key d n (x.frames ++ [f])
      rw [hwire]
      exact List.prefix_append _ _

theorem Sound.advances {job : Sealer.Job} {job' : Option Sealer.Job} {s : Sealer} {p : Pipe}
    (h : x.Sound key d n) (hcall : x.call = some job)
    (hadvance : x.sealer.advance job x.pipe = some (.ok (job', s, p))) :
    Sound key d n { x with
      sealer := s, pipe := p, call := job'
      entered := x.entered ++ p.held.drop x.pipe.held.length } := by
  have hadvanced := Sealer.advance_advanced hadvance
  have hsealer := hadvanced.sealer
  refine ⟨?_, ?_, ?_, ?_, h.bound, ?_, ?_⟩
  · rw [hsealer]
    exact h.sealing
  · rw [hsealer]
    exact h.nonces
  · show s.outlet.capacity = s.maxPlaintext + _ + _
    rw [hadvanced.buffer, hsealer]
    exact h.capacity
  · rw [hsealer]
    exact h.fits
  · intro pieces hpieces
    obtain rfl : job' = some (.placing pieces) := hpieces
    cases job with
    | placing before =>
      have hb := h.pieces before hcall
      obtain ⟨_, hjob, hsome, hshort, hclosed⟩ := Sealer.advance_pieces hb.some hadvance
      obtain rfl := Sealer.Job.placing.inj hjob
      refine ⟨hsome, fun hmax => ?_, fun hdone hempty => absurd hempty (hclosed hdone)⟩
      show ∀ piece ∈ pieces, piece.length < s.outlet.capacity
      rw [hsealer] at hmax
      rw [hadvanced.buffer]
      exact hshort _ (hb.short hmax)
    | flushing => rcases Sealer.advance_flush (.inl rfl) hadvance with hjob | hjob <;> cases hjob
    | closing => rcases Sealer.advance_flush (.inr rfl) hadvance with hjob | hjob <;> cases hjob
  · cases h.placed with
    | whole hbytes =>
      obtain ⟨moved, hleft, hmoved⟩ := Sealer.advance_moves hadvance
      refine .whole ?_
      rw [hcall, Sealer.leftOf, hleft] at hbytes
      show x.entered ++ p.held.drop x.pipe.held.length ++ s.outlet.held ++ _ = _
      rw [List.append_assoc x.entered, hmoved, ← hbytes]
      simp only [List.append_assoc]
    | broken hclosed hheld hentered =>
      obtain ⟨rfl, hheld', -⟩ := Sealer.advance_closed hclosed hheld hadvance
      refine .broken hclosed hheld' ?_
      show x.entered ++ x.pipe.held.drop x.pipe.held.length <+: _
      rw [List.drop_length, List.append_nil]
      exact hentered

/-- A call that fails leaves something behind in the buffer of a pipe that is closed. -/
theorem Sound.fails {job : Sealer.Job} {e : IoError} (h : x.Sound key d n)
    (hcall : x.call = some job) (hfails : x.sealer.advance job x.pipe = some (.error e)) :
    Sound key d n { x with sealer := x.sealer.failed, call := none } := by
  obtain ⟨hclosed, hlarge⟩ := Sealer.advance_error hfails
  refine { h with pieces := by rintro _ ⟨⟩, placed := ?_ }
  have hheld : x.sealer.outlet.held ≠ [] := by
    intro hempty
    obtain ⟨piece, rest, rfl, hle⟩ := hlarge hempty
    exact absurd hle (Nat.not_le_of_lt ((h.pieces _ hcall).closed hclosed hempty piece rfl))
  refine .broken hclosed hheld ?_
  cases h.placed with
  | whole hbytes =>
    rw [← hbytes, List.append_assoc]
    exact List.prefix_append _ _
  | broken _ _ hentered => exact hentered

theorem Sound.step (h : x.Sound key d n) (hstep : Step x y) : y.Sound key d n := by
  cases hstep with
  | writes hidle hwrite => exact h.writes hidle hwrite
  | rejected => exact h
  | flushes hidle
  | closes hidle =>
    refine { h with pieces := by rintro _ ⟨⟩, placed := ?_ }
    cases h.placed with
    | whole hbytes =>
      rw [hidle] at hbytes
      exact .whole hbytes
    | broken hclosed hheld hentered => exact .broken hclosed hheld hentered
  | advances hcall hadvance => exact h.advances hcall hadvance
  | fails hcall hfails => exact h.fails hcall hfails
  | reads hpull =>
    obtain ⟨-, rfl, -⟩ := Pipe.pull_eq_some hpull
    refine { h with pieces := fun pieces hcall => ?_, placed := ?_ }
    · have hb := h.pieces pieces hcall
      exact ⟨hb.some, hb.short, hb.closed⟩
    · cases h.placed with
      | whole hbytes => exact .whole hbytes
      | broken hclosed hheld hentered => exact .broken hclosed hheld hentered
  | leaves hlimit =>
    refine { h with pieces := fun pieces hcall => ?_, placed := ?_ }
    · have hb := h.pieces pieces hcall
      refine ⟨hb.some, hb.short, fun _ _ piece hpiece => ?_⟩
      exact hb.short hlimit piece (List.mem_of_mem_head? hpiece)
    · cases h.placed with
      | whole hbytes => exact .whole hbytes
      | broken _ hheld hentered => exact .broken rfl hheld hentered

theorem sound_of_reachable (h : Reachable key role max n x) : x.Sound key role.outbound n := by
  obtain ⟨capacity, hleads⟩ := h
  induction hleads with
  | refl => exact sound_fresh key role max n capacity
  | tail _ hstep ih => exact ih.step hstep

/-- The limit stays what it was. -/
theorem maxPlaintext_of_reachable (h : Reachable key role max n x) :
    x.sealer.maxPlaintext = max := by
  obtain ⟨capacity, hleads⟩ := h
  induction hleads with
  | refl => rfl
  | tail _ hstep ih =>
    cases hstep with
    | writes _ hwrite =>
      obtain ⟨-, -, -, rfl⟩ := Sealer.write_eq_ok_iff.mp hwrite
      exact ih
    | advances _ hadvance =>
      rw [← ih, (Sealer.advance_advanced hadvance).sealer]
    | rejected
    | flushes
    | closes
    | fails
    | reads
    | leaves => exact ih

/-! ### The law -/

theorem Placed.entered {bytes : Bytes} (h : x.Placed bytes) : x.entered <+: bytes := by
  cases h with
  | whole hbytes =>
    rw [← hbytes, List.append_assoc]
    exact List.prefix_append _ _
  | broken _ _ hentered => exact hentered

/-- Where a flush or a close succeeds, all bytes have entered the pipe. -/
theorem Sound.flushed {job : Sealer.Job} (h : x.Sound key d n) (hdone : x.Succeeds job y)
    (hjob : job = .flushing ∨ job = .closing) : y.entered = wire key d n y.frames := by
  have hnot : ∀ pieces, job ≠ .placing pieces := by
    rintro pieces rfl
    rcases hjob with hjob | hjob <;> cases hjob
  obtain ⟨hcall, hdone⟩ := hdone
  cases h.placed with
  | broken hclosed hheld _ =>
    obtain ⟨-, -, pieces, hpieces⟩ := Sealer.advance_closed hclosed hheld hdone
    exact absurd hpieces (hnot pieces)
  | whole hbytes =>
    obtain ⟨hleft, hempty⟩ := (Sealer.advance_advanced hdone).emptied rfl
    obtain ⟨moved, hmoved, hparts⟩ := Sealer.advance_moves hdone
    obtain rfl : moved = [] := (List.append_eq_nil_iff.mp (hmoved.symm.trans hleft)).1
    rw [hempty (hnot []), List.append_nil, List.append_nil] at hparts
    rw [hcall, Sealer.leftOf, hleft, List.append_nil] at hbytes
    rw [hparts, hbytes]

/-- The frames taken are ahead of a reader with the same key and counter, if its limit admits
them. -/
theorem Sound.ahead (h : x.Sound key role.outbound n) {limit : Nat}
    (hadmits : ∀ f ∈ x.frames, Admits limit f) (capacity : Nat) :
    Opener.Ahead (Opener.create key role.opposite limit n) [] { capacity }
      (wire key role.outbound n x.frames) x.frames := by
  refine ⟨?_, Opener.short_nil, by rintro ⟨⟩, fun f hf => ⟨(h.fits f hf).spellable, hadmits f hf⟩,
    h.bound⟩
  rw [Opener.create, Role.inbound_opposite]
  rfl

/-- **What a writer puts into a pipe is the wire of the frames it takes.** At any moment the bytes
that have entered are the first of it, and all of it when a flush or a close has succeeded; a call
is rejected only for its length or for want of a nonce, and just the calls that are not count; and
whatever was rejected in between, a reader with the same key and counter gets these frames from it,
and nothing else. -/
theorem stream_law (h : Reachable key role max n x) :
    x.entered <+: wire key role.outbound n x.frames ∧
    (∀ job y, x.Succeeds job y → job = .flushing ∨ job = .closing →
      y.entered = wire key role.outbound n y.frames) ∧
    (∀ f e, x.sealer.write f = .error e →
      (∃ length limit, e = .framing (.payloadTooLarge length limit)) ∨
        e = .crypto .nonceExhausted) ∧
    x.sealer.nonces = ⟨role.outbound, n + x.frames.length⟩ ∧
    ∀ limit capacity, (∀ f ∈ x.frames, Admits limit f) → 0 < capacity → ∀ fs r,
      Opener.Reads (Opener.create key role.opposite limit n) [] { capacity }
        (wire key role.outbound n x.frames) fs r ↔ fs = x.frames ∧ r = .ended := by
  have hsound := sound_of_reachable h
  refine ⟨hsound.placed.entered, fun job y => hsound.flushed, fun f e herror => ?_, hsound.nonces,
    fun limit capacity hadmits hcapacity fs r => ?_⟩
  · exact (Sealer.error_of_write herror).imp And.left And.left
  · have hahead := hsound.ahead hadmits capacity
    constructor
    · exact Opener.reads_wire hahead
    · rintro ⟨rfl, rfl⟩
      exact Opener.exists_reads hahead hcapacity

/-- A call that runs to its end while the far end reads does so here. -/
theorem exists_succeeds {job : Sealer.Job} {s s' : Sealer} {p p' : Pipe} {bs : Bytes}
    (hrun : Sealer.Runs job s p bs s' p') (frames : List Frame) (entered : Bytes) :
    ∃ y job' z, Leads ⟨s, p, some job, frames, entered⟩ y ∧ y.Succeeds job' z ∧
      (job = .closing → job' = .closing) ∧
      z = ⟨s', p', none, frames, z.entered⟩ := by
  induction hrun generalizing entered with
  | done h => exact ⟨_, _, _, .refl, .done rfl h, id, rfl⟩
  | step h _ ih =>
    obtain ⟨y, job', z, hleads, hdone, hjob, hz⟩ := ih _
    refine ⟨y, job', z, .head (.advances rfl h) hleads, hdone, ?_, hz⟩
    rintro rfl
    rcases Sealer.advance_flush (.inr rfl) h with hnone | hsame
    · cases hnone
    · exact hjob (Option.some.inj hsame)
  | taken _ h _ ih =>
    obtain ⟨y, job', z, hleads, hdone, hz⟩ := ih entered
    exact ⟨y, job', z, .head (.reads h) hleads, hdone, hz⟩

/-- **A call returns when the far end reads**, on a stream that is open. -/
theorem exists_returns {job : Sealer.Job} (hcall : x.call = some job)
    (hopen : x.pipe.closed = false) (hcap : 0 < x.pipe.capacity) :
    ∃ y job' z, Leads x y ∧ y.Succeeds job' z ∧ (job = .closing → job' = .closing) ∧
      z.call = none ∧ z.frames = x.frames ∧ (job ≠ .closing → z.pipe.closed = false) ∧
      z.pipe.capacity = x.pipe.capacity := by
  obtain ⟨bs, s', p', hrun, hopen', hcap'⟩ := @Sealer.exists_runs job _ _ hopen hcap
  obtain ⟨y, job', z, hleads, hdone, hjob, hz⟩ := exists_succeeds hrun x.frames x.entered
  rw [← hcall] at hleads
  refine ⟨y, job', z, hleads, hdone, hjob, ?_, ?_, ?_, ?_⟩ <;> rw [hz]
  · exact hopen'
  · exact hcap'

theorem exists_leads {fs : List Frame} {s s' : Sealer} {p p' : Pipe} {bs : Bytes}
    (h : Sealer.Writes fs s p bs s' p') (frames : List Frame) (entered : Bytes) :
    ∃ entered', Leads ⟨s, p, none, frames, entered⟩ ⟨s', p', none, frames ++ fs, entered'⟩ := by
  induction h generalizing frames entered with
  | nil =>
    rw [List.append_nil]
    exact ⟨entered, .refl⟩
  | @cons f fs job s s₁ s₂ _ p p₁ _ _ _ hwrite hrun _ ih =>
    obtain ⟨y, job', z, hleads, hdone, -, hz⟩ := exists_succeeds hrun (frames ++ [f]) entered
    obtain ⟨entered', hrest⟩ := ih (frames ++ [f]) z.entered
    rw [← hz, List.append_assoc, List.singleton_append] at hrest
    exact ⟨entered', .head (.writes rfl hwrite) (hleads.trans (.head hdone.step hrest))⟩

/-- Three frames of one byte are in the buffer, and a fourth is to be written while nobody reads.
Its ciphertext waits for the buffer; the pipe takes some of that, and the ciphertext waits on,
although it and what is left of the buffer would fit. -/
theorem exists_waiting : ∃ x piece, Reachable ⟨[7]⟩ .client 64 0 x ∧
    x.call = some (.placing [piece]) ∧ x.frames = List.replicate 4 ⟨1, [1]⟩ ∧
    x.sealer.outlet.held.length + piece.length ≤ x.sealer.outlet.capacity ∧
    x.sealer.advance (.placing [piece]) x.pipe = none ∧
    x.pipe.closed = false ∧ x.pipe.capacity = 20 := by
  let f : Frame := ⟨1, [1]⟩
  let s₀ : Sealer := .create ⟨[7]⟩ .client 64
  let p : Pipe := { capacity := 20 }
  have hfits : f.Fits 64 := ⟨rfl, spellable_byte 1⟩
  let bytes : Bytes := wire ⟨[7]⟩ .clientToServer 0 (List.replicate 3 f)
  have hbytes : bytes.length = 75 := by
    simp only [bytes, List.replicate, wire, List.length_append, length_sealed, Frame.length_encode]
    rfl
  let s₁ : Sealer := { s₀ with nonces.counter := 3, outlet := s₀.outlet.put bytes }
  have hthree : Sealer.Writes (List.replicate 3 f) s₀ p [] s₁ p := by
    refine Sealer.writes_put (fun g hg => ?_) (by decide : 0 + 3 ≤ Nonce.last) ?_ p
    · rw [(List.mem_replicate.mp hg).2]
      exact hfits
    · show 0 + bytes.length < 84
      omega
  obtain ⟨entered, hleads⟩ := exists_leads hthree [] []
  let header : Bytes := (Sealer.pieces ⟨[7]⟩ (Nonce.encode .clientToServer 3) f).1
  let body : Bytes := (Sealer.pieces ⟨[7]⟩ (Nonce.encode .clientToServer 3) f).2
  obtain ⟨hheader, hbody⟩ : header.length = 4 ∧ body.length = 21 := Sealer.length_pieces _ _ f
  have hwrite : s₁.write f = .ok (.placing [header, body], { s₁ with nonces.counter := 4 }) :=
    Sealer.write_eq_ok_iff.mpr ⟨hfits, (by decide : 3 < Nonce.last), rfl, rfl⟩
  have hput := Sealer.advance_put (s := { s₁ with nonces.counter := 4 }) [body]
    (by show 0 + bytes.length + header.length < 84; omega) p
  have hheld : (bytes ++ header).length = 79 := by
    rw [List.length_append]
    omega
  obtain ⟨s₂, p₂, hdrain, hnone, hlen, hopen⟩ := Sealer.waits_for_buffer body []
    (s := { s₁ with nonces.counter := 4, outlet := s₁.outlet.put header }) (p := p)
    (by show 84 < 0 + (bytes ++ header).length + body.length; omega) rfl (by decide)
    (by show 20 < (bytes ++ header).length; omega)
  have hadvanced := Sealer.advance_advanced hdrain
  refine ⟨_, body, ⟨20, ((hleads.tail (.writes rfl hwrite)).tail (.advances rfl hput)).tail
    (.advances rfl hdrain)⟩, rfl, rfl, ?_, hnone, hopen, hadvanced.capacity⟩
  have hleft : s₂.outlet.held.length + 20 = (bytes ++ header).length := hlen
  have hcap : s₂.outlet.capacity = 84 := hadvanced.buffer
  show s₂.outlet.held.length + body.length ≤ s₂.outlet.capacity
  omega

/-- When the far end has read, the call that waited returns, a frame that is too large is
rejected, and the writer is closed: then all frames have entered the pipe, and a reader gets
them. -/
theorem frames_enter : ∃ x piece y, Reachable ⟨[7]⟩ .client 64 0 x ∧
    x.call = some (.placing [piece]) ∧
    x.sealer.outlet.held.length + piece.length ≤ x.sealer.outlet.capacity ∧
    x.sealer.advance (.placing [piece]) x.pipe = none ∧
    (∃ z, Leads x z ∧ z.Succeeds .closing y) ∧
    y.entered = wire ⟨[7]⟩ .clientToServer 0 (List.replicate 4 ⟨1, [1]⟩) ∧
    Opener.Reads (Opener.create ⟨[7]⟩ .server 64) [] { capacity := 1 } y.entered
      (List.replicate 4 ⟨1, [1]⟩) .ended := by
  obtain ⟨x, piece, hx, hcall, hframes, hfits, hnone, hopen, hcap⟩ := exists_waiting
  obtain ⟨z₁, _, x₁, hleads₁, hdone₁, -, hidle, hframes₁, hopen₁, hcap₁⟩ :=
    exists_returns hcall hopen (by omega)
  have hx₁ : Reachable ⟨[7]⟩ .client 64 0 x₁ :=
    hx.imp fun _ h => (h.trans hleads₁).tail hdone₁.step
  have hrejected : Step x₁ x₁ := by
    refine .rejected (f := ⟨0, List.replicate 61 0⟩) (e := .framing (.payloadTooLarge 61 60))
      hidle ?_
    rw [Sealer.write, maxPlaintext_of_reachable hx₁]
    rfl
  let x₂ : Writer := { x₁ with call := some .closing }
  obtain ⟨z, job, y, hleads₂, hdone₂, hjob, -, hframes₂, -⟩ :=
    exists_returns (x := x₂) rfl (hopen₁ (by rintro ⟨⟩)) (by show 0 < x₁.pipe.capacity; omega)
  obtain rfl := hjob rfl
  have hleads : Leads x z := (hleads₁.tail hdone₁.step).trans
    (.head hrejected (.head (.closes hidle) hleads₂))
  have hz : Reachable ⟨[7]⟩ .client 64 0 z := hx.imp fun _ h => h.trans hleads
  have hy : y.frames = List.replicate 4 ⟨1, [1]⟩ := (hframes₂.trans hframes₁).trans hframes
  have hentered := (stream_law hz).2.1 _ _ hdone₂ (.inr rfl)
  have hreads := (stream_law (hz.imp fun _ h => h.tail hdone₂.step)).2.2.2.2 64 1
    (fun g hg => by
      rw [hy] at hg
      rw [(List.mem_replicate.mp hg).2]
      rfl) (by decide) y.frames .ended
  rw [← hentered, hy] at hreads
  rw [hy] at hentered
  exact ⟨x, piece, y, hx, hcall, hfits, hnone, ⟨z, hleads, hdone₂⟩, hentered, hreads.mpr ⟨rfl, rfl⟩⟩

end Writer
end Parley.Channel
