import Mathlib.Logic.Relation
import Parley.Proofs.Channel.Nonces

/-! What a read call comes to.

A read call is given the bytes in its buffer, those in the pipe and those that are still to
arrive, in whatever pieces they do, and perhaps the end of the stream after them. `outcome` says
what it comes to from the bytes alone. While the bytes that are collected are an `Unfinished`
frame nothing is decided, so the outcome of a call stays the same as its bytes move onward
(`outcome_of_step`), and a call that returns, returns it (`outcome_of_advance`). A call that can
neither return nor go on waits for bytes that it needs (`outcome_of_stuck`); and no call goes on
for ever. So what a call comes to depends on the bytes that are not consumed yet, and not on how
they arrive (`read_outcome`). -/
namespace Parley.Channel

namespace Opener

/-! ### From the bytes alone -/

/-- The beginning of a frame, as far as one can tell, and not all of it. -/
def Unfinished (max : Nat) (bytes : Bytes) : Prop :=
  bytes.length < Frame.prefixLength ∨
    Frame.checkCiphertext (declared bytes) max = .ok () ∧ bytes.length < needed bytes

/-- What a whole frame comes to under the next nonce, and the nonces that are left. -/
def opening (key : SessionKey) (nonces : Nonces) (frame : Bytes) : Reading × Nonces :=
  match nonces.next with
  | .error e => (.failed (.crypto e), nonces)
  | .ok (nonce, nonces) =>
    (openedUnder key nonce (frame.take Frame.prefixLength) (frame.drop Frame.prefixLength), nonces)

/-- What a read call comes to on the bytes that are not consumed yet, and perhaps the end of the
stream: what it returns, and the nonces and bytes that are left then. Without an outcome it
waits. -/
def outcome (key : SessionKey) (max : Nat) (nonces : Nonces) (bytes : Bytes) (ending : Bool) :
    Option (Reading × Nonces × Bytes) :=
  let more := if ending then
      some (if bytes = [] then .ended else .failed (.io .unexpectedEof), nonces, [])
    else none
  if bytes.length < Frame.prefixLength then more
  else
    match Frame.checkCiphertext (declared bytes) max with
    | .error e => some (.failed (.framing e), nonces, bytes.drop Frame.prefixLength)
    | .ok _ =>
      if bytes.length < needed bytes then more
      else
        let (reading, nonces) := opening key nonces (bytes.take (needed bytes))
        some (reading, nonces, bytes.drop (needed bytes))

theorem declared_append {c : Bytes} (h : ¬ c.length < Frame.prefixLength) (bs : Bytes) :
    declared (c ++ bs) = declared c := by
  rw [declared, List.take_append_of_le_length (Nat.le_of_not_lt h), declared]

theorem needed_of_long {c : Bytes} (h : ¬ c.length < Frame.prefixLength) :
    needed c = Frame.prefixLength + declared c := if_neg h

theorem needed_append {c : Bytes} (h : ¬ c.length < Frame.prefixLength) (bs : Bytes) :
    needed (c ++ bs) = needed c := by
  have hlong : ¬ (c ++ bs).length < Frame.prefixLength := by
    rw [List.length_append]
    omega
  rw [needed_of_long hlong, needed_of_long h, declared_append h]

theorem Unfinished.lt_needed {max : Nat} {c : Bytes} (h : Unfinished max c) :
    c.length < needed c := by
  rcases h with hshort | ⟨-, hlt⟩
  · rw [needed, if_pos hshort]
    exact hshort
  · exact hlt

theorem unfinished_nil (max : Nat) : Unfinished max [] := .inl (by decide)

variable {o o' : Opener} {c c' bs rest coming : Bytes} {p p' : Pipe} {reading : Reading}
  {ending : Bool} {key : SessionKey} {max : Nat} {nonces nonces' : Nonces} {bytes : Bytes}

/-- A call that has not collected a frame asks for more. -/
theorem inspect_unfinished (h : Unfinished o.maxPlaintext c) : o.inspect c = (.partly c, o) := by
  by_cases hshort : c.length < Frame.prefixLength
  · rw [inspect, if_pos hshort]
  · obtain ⟨hcheck, hlt⟩ := h.resolve_left hshort
    simp only [inspect, if_neg hshort, hcheck, if_pos hlt]

theorem unfinished_of_inspect (h : o.inspect c = (.partly c', o')) :
    Unfinished o.maxPlaintext c := by
  unfold inspect at h
  split at h
  · rename_i hshort
    exact .inl hshort
  · split at h
    · cases h
    · rename_i hcheck
      split at h
      · rename_i hlt
        exact .inr ⟨hcheck, hlt⟩
      · split at h <;> cases h

/-- An unfinished frame has an outcome only if the stream ends. -/
theorem outcome_unfinished (h : Unfinished max bytes) :
    outcome key max nonces bytes ending = if ending then
      some (if bytes = [] then .ended else .failed (.io .unexpectedEof), nonces, [])
    else none := by
  by_cases hshort : bytes.length < Frame.prefixLength
  · simp only [outcome, if_pos hshort]
  · obtain ⟨hcheck, hlt⟩ := h.resolve_left hshort
    simp only [outcome, if_neg hshort, hcheck, if_pos hlt]

/-- A call that has collected a frame opens it. -/
theorem inspect_opening (hlong : ¬ c.length < Frame.prefixLength)
    (hcheck : Frame.checkCiphertext (declared c) o.maxPlaintext = .ok ())
    (hfull : ¬ c.length < needed c) :
    o.inspect c = ((opening o.key o.nonces c).1,
      { o with nonces := (opening o.key o.nonces c).2 }) := by
  simp only [inspect, if_neg hlong, hcheck, if_neg hfull, decrypt, opening]
  cases o.nonces.next with
  | error e => rfl
  | ok x =>
    simp only [openedUnder]
    cases Crypto.Aead.decrypt? o.key.bytes x.1 (c.take Frame.prefixLength)
        (c.drop Frame.prefixLength) with
    | none => rfl
    | some plaintext =>
      simp only
      cases Frame.decode plaintext <;> rfl

/-- What a call makes of what it has collected, unless it needs more, is the outcome, whatever
follows. -/
theorem outcome_of_inspect (hc : Unfinished o.maxPlaintext c)
    (hfits : (c ++ bs).length ≤ needed c) (h : o.inspect (c ++ bs) = (reading, o'))
    (hreturns : ∀ c', reading ≠ .partly c') :
    outcome o.key o.maxPlaintext o.nonces (c ++ bs ++ rest) ending =
      some (reading, o'.nonces, rest) := by
  have hall : ¬ Unfinished o.maxPlaintext (c ++ bs) := fun hunfinished => by
    rw [inspect_unfinished hunfinished] at h
    cases h
    exact hreturns _ rfl
  have hprefix : ¬ (c ++ bs).length < Frame.prefixLength := fun hshort => hall (.inl hshort)
  have hlong : ¬ (c ++ bs ++ rest).length < Frame.prefixLength := by
    rw [List.length_append]
    omega
  simp only [outcome, if_neg hlong, declared_append hprefix, needed_append hprefix]
  cases hcheck : Frame.checkCiphertext (declared (c ++ bs)) o.maxPlaintext with
  | error e =>
    simp only [inspect, if_neg hprefix, hcheck] at h
    cases h
    -- The length was not known before, so nothing but the length is collected.
    have hbefore : c.length < Frame.prefixLength := by
      by_contra hknown
      have hfine := (hc.resolve_left hknown).1
      rw [← declared_append hknown bs, hcheck] at hfine
      cases hfine
    rw [needed, if_pos hbefore] at hfits
    simp only [List.drop_left' (Nat.le_antisymm hfits (Nat.le_of_not_lt hprefix))]
  | ok u =>
    have hfull : ¬ (c ++ bs).length < needed (c ++ bs) := fun hlt => hall (.inr ⟨hcheck, hlt⟩)
    have hmore : ¬ (c ++ bs ++ rest).length < needed (c ++ bs) := by
      rw [List.length_append]
      omega
    have hexact : (c ++ bs).length = needed (c ++ bs) := by
      by_cases hbefore : c.length < Frame.prefixLength
      · have hle := prefixLength_le_needed (c ++ bs)
        rw [needed, if_pos hbefore] at hfits
        omega
      · rw [needed_append hbefore] at hfull ⊢
        omega
    rw [inspect_opening hprefix hcheck hfull] at h
    cases h
    simp only [if_neg hmore, List.take_left' hexact, List.drop_left' hexact]

/-! ### When it is what -/

/-- A whole frame of a length within the limit is at the front. -/
structure Whole (max : Nat) (bytes : Bytes) : Prop where
  known : Frame.prefixLength ≤ bytes.length
  least : Frame.tagLength + Frame.seqLength ≤ declared bytes
  most : declared bytes ≤ max + Frame.tagLength
  all : Frame.prefixLength + declared bytes ≤ bytes.length

/-- The prefix of the frame at the front. -/
def header (bytes : Bytes) : Bytes := bytes.take Frame.prefixLength

/-- The ciphertext that the prefix declares. -/
def body (bytes : Bytes) : Bytes := (bytes.drop Frame.prefixLength).take (declared bytes)

/-- What a read call comes to, case by case. -/
inductive Verdict (key : SessionKey) (max : Nat) (nonces : Nonces) (bytes : Bytes) (ending : Bool) :
    Option (Reading × Nonces × Bytes) → Prop where
  /-- The stream ends before any further byte. -/
  | ended (hbytes : bytes = []) (hending : ending = true) :
      Verdict key max nonces bytes ending (some (.ended, nonces, []))
  /-- The stream ends inside the prefix, or inside a body of a length within the limit. -/
  | cut (hbytes : bytes ≠ []) (hunfinished : Unfinished max bytes) (hending : ending = true) :
      Verdict key max nonces bytes ending (some (.failed (.io .unexpectedEof), nonces, []))
  | tooShort (hknown : Frame.prefixLength ≤ bytes.length)
      (hshort : declared bytes < Frame.tagLength + Frame.seqLength) :
      Verdict key max nonces bytes ending (some (.failed (.framing
        (.frameTooShort (declared bytes) (Frame.tagLength + Frame.seqLength))), nonces,
        bytes.drop Frame.prefixLength))
  /-- Under a limit of less than a sequence number a length may be too small as well as too large;
  then it counts as too small. -/
  | tooLarge (hknown : Frame.prefixLength ≤ bytes.length)
      (hlong : Frame.tagLength + Frame.seqLength ≤ declared bytes)
      (hlarge : max + Frame.tagLength < declared bytes) :
      Verdict key max nonces bytes ending (some (.failed (.framing
        (.frameTooLarge (declared bytes) (max + Frame.tagLength))), nonces,
        bytes.drop Frame.prefixLength))
  | exhausted (hwhole : Whole max bytes) (hlast : Nonce.last ≤ nonces.counter) :
      Verdict key max nonces bytes ending (some (.failed (.crypto .nonceExhausted), nonces,
        bytes.drop (Frame.prefixLength + declared bytes)))
  /-- The tag is wrong for the next nonce and the prefix. -/
  | forged (hwhole : Whole max bytes) (hlast : nonces.counter < Nonce.last)
      (htag : Crypto.Aead.decrypt? key.bytes (Nonce.encode nonces.direction nonces.counter)
        (header bytes) (body bytes) = none) :
      Verdict key max nonces bytes ending (some (.failed (.crypto .authentication),
        { nonces with counter := nonces.counter + 1 },
        bytes.drop (Frame.prefixLength + declared bytes)))
  | frame {f : Frame} (hwhole : Whole max bytes) (hlast : nonces.counter < Nonce.last)
      (htag : Crypto.Aead.decrypt? key.bytes (Nonce.encode nonces.direction nonces.counter)
        (header bytes) (body bytes) = some f.encode) :
      Verdict key max nonces bytes ending (some (.frame f,
        { nonces with counter := nonces.counter + 1 },
        bytes.drop (Frame.prefixLength + declared bytes)))
  /-- In all other cases. -/
  | waits (hunfinished : Unfinished max bytes) (hending : ending = false) :
      Verdict key max nonces bytes ending none

theorem Whole.needed_eq (h : Whole max bytes) :
    needed bytes = Frame.prefixLength + declared bytes :=
  needed_of_long (Nat.not_lt_of_le h.known)

theorem outcome_whole (h : Whole max bytes) :
    outcome key max nonces bytes ending =
      some ((opening key nonces (bytes.take (Frame.prefixLength + declared bytes))).1,
        (opening key nonces (bytes.take (Frame.prefixLength + declared bytes))).2,
        bytes.drop (Frame.prefixLength + declared bytes)) := by
  have hcheck := Frame.checkCiphertext_eq_ok_iff.mpr ⟨h.least, h.most⟩
  simp only [outcome, if_neg (Nat.not_lt_of_le h.known), hcheck, h.needed_eq,
    if_neg (Nat.not_lt_of_le h.all)]

/-- A frame at the front is its prefix and its ciphertext. -/
theorem opening_of_lt (key : SessionKey) (bytes : Bytes) (hlast : nonces.counter < Nonce.last) :
    opening key nonces (bytes.take (Frame.prefixLength + declared bytes)) =
      (openedUnder key (Nonce.encode nonces.direction nonces.counter) (header bytes) (body bytes),
        { nonces with counter := nonces.counter + 1 }) := by
  have hhead : (bytes.take (Frame.prefixLength + declared bytes)).take Frame.prefixLength =
      header bytes := by
    rw [List.take_take, Nat.min_eq_left (Nat.le_add_right ..), header]
  have hbody : (bytes.take (Frame.prefixLength + declared bytes)).drop Frame.prefixLength =
      body bytes := by
    rw [List.drop_take, Nat.add_sub_cancel_left, body]
  rw [opening, Nonces.next_of_lt hlast, hhead, hbody]

/-- What opens is long enough for a sequence number, so it is a frame. -/
theorem exists_frame (h : Whole max bytes) {nonce plaintext : Bytes}
    (hopen : Crypto.Aead.decrypt? key.bytes nonce (header bytes) (body bytes) = some plaintext) :
    ∃ f : Frame, plaintext = f.encode := by
  have hlength := congrArg List.length (Crypto.Aead.eq_encrypt_of_decrypt? hopen)
  rw [Crypto.Aead.length_encrypt, body, List.length_take, List.length_drop] at hlength
  have htag : Crypto.Aead.tagLength = Frame.tagLength := rfl
  have hleast := h.least
  have hall := h.all
  cases hdecode : Frame.decode plaintext with
  | ok f => exact ⟨f, Frame.eq_encode_of_decode hdecode⟩
  | error e =>
    rw [Frame.decode, if_neg (by omega)] at hdecode
    cases hdecode

/-- Bytes are unfinished, of a length that is out of bounds, or a whole frame and more. -/
theorem bytes_cases (max : Nat) (bytes : Bytes) :
    Unfinished max bytes ∨ Whole max bytes ∨ Frame.prefixLength ≤ bytes.length ∧
      (declared bytes < Frame.tagLength + Frame.seqLength ∨
        Frame.tagLength + Frame.seqLength ≤ declared bytes ∧
          max + Frame.tagLength < declared bytes) := by
  by_cases hprefix : bytes.length < Frame.prefixLength
  · exact .inl (.inl hprefix)
  · have hknown := Nat.le_of_not_lt hprefix
    by_cases hshort : declared bytes < Frame.tagLength + Frame.seqLength
    · exact .inr (.inr ⟨hknown, .inl hshort⟩)
    · have hlong := Nat.le_of_not_lt hshort
      by_cases hlarge : max + Frame.tagLength < declared bytes
      · exact .inr (.inr ⟨hknown, .inr ⟨hlong, hlarge⟩⟩)
      · have hmost := Nat.le_of_not_lt hlarge
        by_cases hall : bytes.length < Frame.prefixLength + declared bytes
        · refine .inl (.inr ⟨Frame.checkCiphertext_eq_ok_iff.mpr ⟨hlong, hmost⟩, ?_⟩)
          rw [needed_of_long hprefix]
          exact hall
        · exact .inr (.inl ⟨hknown, hlong, hmost, Nat.le_of_not_lt hall⟩)

/-- A verdict is the outcome. -/
theorem outcome_of_verdict {v : Option (Reading × Nonces × Bytes)}
    (h : Verdict key max nonces bytes ending v) : outcome key max nonces bytes ending = v := by
  cases h with
  | ended hbytes hending =>
    rw [outcome_unfinished (hbytes ▸ unfinished_nil max), if_pos hending, if_pos hbytes]
  | cut hbytes hunfinished hending =>
    rw [outcome_unfinished hunfinished, if_pos hending, if_neg hbytes]
  | waits hunfinished hending =>
    rw [outcome_unfinished hunfinished, hending]
    rfl
  | tooShort hknown hshort =>
    have hcheck : Frame.checkCiphertext (declared bytes) max = .error _ := if_pos hshort
    simp only [outcome, if_neg (Nat.not_lt_of_le hknown), hcheck]
  | tooLarge hknown hlong hlarge =>
    have hcheck : Frame.checkCiphertext (declared bytes) max = .error _ :=
      (if_neg (Nat.not_lt_of_le hlong)).trans (if_pos hlarge)
    simp only [outcome, if_neg (Nat.not_lt_of_le hknown), hcheck]
  | exhausted hwhole hlast =>
    have hnext : nonces.next = .error .nonceExhausted := if_pos hlast
    rw [outcome_whole hwhole, opening, hnext]
  | forged hwhole hlast htag =>
    rw [outcome_whole hwhole, opening_of_lt key bytes hlast, openedUnder, htag]
  | frame hwhole hlast htag =>
    rw [outcome_whole hwhole, opening_of_lt key bytes hlast, openedUnder, htag]
    simp only [Frame.decode_encode]

/-- There is a verdict on any bytes. -/
theorem exists_verdict (key : SessionKey) (max : Nat) (nonces : Nonces) (bytes : Bytes)
    (ending : Bool) : ∃ v, Verdict key max nonces bytes ending v := by
  rcases bytes_cases max bytes with hunfinished | hwhole | ⟨hknown, hshort | ⟨hlong, hlarge⟩⟩
  · cases hending : ending with
    | false => exact ⟨_, .waits hunfinished rfl⟩
    | true =>
      by_cases hbytes : bytes = []
      · exact ⟨_, .ended hbytes rfl⟩
      · exact ⟨_, .cut hbytes hunfinished rfl⟩
  · by_cases hlast : nonces.counter < Nonce.last
    · cases hopen : Crypto.Aead.decrypt? key.bytes
          (Nonce.encode nonces.direction nonces.counter) (header bytes) (body bytes) with
      | none => exact ⟨_, .forged hwhole hlast hopen⟩
      | some plaintext =>
        obtain ⟨f, rfl⟩ := exists_frame hwhole hopen
        exact ⟨_, .frame hwhole hlast hopen⟩
    · exact ⟨_, .exhausted hwhole (Nat.le_of_not_lt hlast)⟩
  · exact ⟨_, .tooShort hknown hshort⟩
  · exact ⟨_, .tooLarge hknown hlong hlarge⟩

/-- The outcome is the one verdict there is. -/
theorem verdict_iff {v : Option (Reading × Nonces × Bytes)} :
    Verdict key max nonces bytes ending v ↔ outcome key max nonces bytes ending = v := by
  refine ⟨outcome_of_verdict, fun h => ?_⟩
  obtain ⟨v', hv'⟩ := exists_verdict key max nonces bytes ending
  rw [← h, outcome_of_verdict hv']
  exact hv'

/-! ### One step of a call -/

/-- A call that goes on has an unfinished frame, as before. -/
theorem unfinished_of_advance (hc : Unfinished o.maxPlaintext c)
    (h : o.advance c p = some (.partly c', o', p')) : Unfinished o'.maxPlaintext c' := by
  have ho := (advance_partly hc.lt_needed h).2.2.1
  have hmax : o'.maxPlaintext = o.maxPlaintext := by rw [ho]
  rw [hmax]
  cases stepped_of_advance h with
  | fills => exact hc
  | inspects _ hinspect =>
    obtain ⟨rfl, -, -⟩ := inspect_partly hinspect
    have hunfinished := unfinished_of_inspect hinspect
    exact hunfinished

/-- What a call returns is the outcome. -/
theorem outcome_of_advance (hc : Unfinished o.maxPlaintext c)
    (hclosed : p.closed = true → coming = [] ∧ ending = true)
    (h : o.advance c p = some (reading, o', p')) (hreturns : ∀ c', reading ≠ .partly c') :
    outcome o.key o.maxPlaintext o.nonces (c ++ o.ahead ++ p.held ++ coming) ending =
      some (reading, o'.nonces, o'.ahead ++ p'.held ++ coming) := by
  cases stepped_of_advance h with
  | fills => exact absurd rfl (hreturns c)
  | ends hahead hheld hdone hnil =>
    obtain ⟨rfl, rfl⟩ := hclosed hdone
    simp only [hahead, hheld, List.append_nil]
    rw [outcome_unfinished hc, if_pos rfl, if_pos hnil]
  | breaks hahead hheld hdone hnil =>
    obtain ⟨rfl, rfl⟩ := hclosed hdone
    simp only [hahead, hheld, List.append_nil]
    rw [outcome_unfinished hc, if_pos rfl, if_neg hnil]
  | inspects hahead hinspect =>
    have hleft : o'.ahead = o.ahead.drop (needed c - c.length) := by rw [inspect_eq hinspect]
    have hsplit : c ++ o.ahead ++ p.held ++ coming =
        c ++ o.ahead.take (needed c - c.length) ++ (o'.ahead ++ p.held ++ coming) := by
      rw [hleft]
      simp only [List.append_assoc]
      rw [← List.append_assoc (List.take _ _), List.take_append_drop]
    rw [hsplit]
    refine outcome_of_inspect (o := { o with ahead := o.ahead.drop (needed c - c.length) }) hc ?_
      hinspect hreturns
    have hlt := hc.lt_needed
    rw [List.length_append, List.length_take]
    omega

/-- A step of a call that goes on takes bytes onward. -/
theorem effort_partly (hc : Unfinished o.maxPlaintext c)
    (h : o.advance c p = some (.partly c', o', p')) (coming : Bytes) :
    effort o' p' coming < effort o p coming := by
  cases stepped_of_advance h with
  | fills hahead hheld =>
    have hpos := List.length_pos_iff.mpr hheld
    have hroom := Nat.pos_of_ne_zero o.capacity_ne_zero
    simp only [effort, hahead, List.length_nil, List.length_drop, List.length_take]
    omega
  | inspects hahead hinspect =>
    have hpos := List.length_pos_iff.mpr hahead
    have hlt := hc.lt_needed
    obtain ⟨-, rfl, -⟩ := inspect_partly hinspect
    simp only [effort, List.length_drop]
    omega

end Opener

/-! ### Calls -/

/-- A read call under way, with the bytes that are still to arrive. -/
structure Intake where
  opener : Opener
  collected : Bytes := []
  pipe : Pipe
  coming : Bytes
  /-- Whether the stream ends after them. -/
  ending : Bool

namespace Intake
open Opener

/-- The bytes that are not consumed yet, or collected by this call. -/
def bytes (x : Intake) : Bytes := x.collected ++ x.opener.ahead ++ x.pipe.held ++ x.coming

/-- What the call comes to on them. -/
def outcome (x : Intake) : Option (Reading × Nonces × Bytes) :=
  Opener.outcome x.opener.key x.opener.maxPlaintext x.opener.nonces x.bytes x.ending

/-- Some more bytes arrive, the stream ends after the last, or the call goes on. -/
inductive Step (x : Intake) : Intake → Prop where
  | arrives {bs left coming p} (hsome : bs ≠ []) (hcoming : x.coming = bs ++ coming)
      (h : x.pipe.push bs = some (.ok (left, p))) :
      Step x { x with pipe := p, coming := left ++ coming }
  | ends (hcoming : x.coming = []) (hending : x.ending = true) (hopen : x.pipe.closed = false) :
      Step x { x with pipe := x.pipe.close }
  | reads {c o p} (h : x.opener.advance x.collected x.pipe = some (.partly c, o, p)) :
      Step x { x with collected := c, opener := o, pipe := p }

/-- All that may happen before the call returns. -/
abbrev Leads : Intake → Intake → Prop := Relation.ReflTransGen Step

/-- The call returns this, and leaves the reader and the pipe so. -/
def Returns (x : Intake) (reading : Reading) (o : Opener) (p : Pipe) : Prop :=
  x.opener.advance x.collected x.pipe = some (reading, o, p) ∧ ∀ c, reading ≠ .partly c

/-- A call can be like this: its frame is unfinished, and a stream that has ended has ended after
the last byte. -/
structure Underway (x : Intake) : Prop where
  unfinished : Unfinished x.opener.maxPlaintext x.collected
  closed : x.pipe.closed = true → x.coming = [] ∧ x.ending = true
  room : 0 < x.pipe.capacity

/-- What is still to be done for it. -/
def effort (x : Intake) : Nat :=
  Opener.effort x.opener x.pipe x.coming + if x.pipe.closed then 0 else 1

variable {x y : Intake} {reading : Reading} {o : Opener} {p : Pipe}

theorem Underway.step (h : x.Underway) (hstep : Step x y) : y.Underway := by
  cases hstep with
  | arrives _ _ hpush =>
    obtain ⟨hopen, -, -, rfl⟩ := Pipe.push_ok hpush
    refine ⟨h.unfinished, fun hclosed => ?_, h.room⟩
    rw [hopen] at hclosed
    cases hclosed
  | ends hcoming hending => exact ⟨h.unfinished, fun _ => ⟨hcoming, hending⟩, h.room⟩
  | reads hadvance =>
    have hp := advance_pipe hadvance
    refine ⟨unfinished_of_advance h.unfinished hadvance, ?_, ?_⟩
    · rw [hp]
      exact h.closed
    · rw [hp]
      exact h.room

/-- Where the bytes are makes no difference to what the call comes to. -/
theorem outcome_of_step (h : x.Underway) (hstep : Step x y) : y.outcome = x.outcome := by
  cases hstep with
  | @arrives bs left coming p _ hcoming hpush =>
    have hbytes : Intake.bytes { x with pipe := p, coming := left ++ coming } = x.bytes := by
      have hconserves := Pipe.push_conserves hpush
      simp only [bytes, hcoming, ← List.append_assoc]
      simp only [List.append_assoc _ p.held, List.append_assoc _ x.pipe.held, hconserves]
    rw [outcome, hbytes, outcome]
  | ends => rfl
  | reads hadvance =>
    obtain ⟨-, hbytes, ho, -⟩ := advance_partly h.unfinished.lt_needed hadvance
    simp only [outcome, bytes, hbytes]
    rw [ho]

/-- Every step brings the call closer to its end. -/
theorem effort_of_step (h : x.Underway) (hstep : Step x y) : y.effort < x.effort := by
  cases hstep with
  | arrives hsome hcoming hpush =>
    obtain ⟨hopen, hroom, rfl, rfl⟩ := Pipe.push_ok hpush
    have hpos := List.length_pos_iff.mpr hsome
    simp only [effort, Opener.effort, hcoming, List.length_append, List.length_drop,
      List.length_take]
    omega
  | ends _ _ hopen =>
    simp only [effort, Opener.effort, Pipe.close, hopen, if_true, Bool.false_eq_true, if_false]
    omega
  | reads hadvance =>
    have hless := effort_partly h.unfinished hadvance x.coming
    rw [effort, effort, advance_pipe hadvance]
    rw [advance_pipe hadvance] at hless
    exact Nat.add_lt_add_right hless _

/-- A call that can neither go on nor return needs bytes that do not arrive. -/
theorem outcome_of_stuck (h : x.Underway) (hstep : ∀ y, ¬Step x y)
    (hreturns : ∀ reading o p, ¬x.Returns reading o p) : x.outcome = none := by
  have hwaits : x.opener.advance x.collected x.pipe = none := by
    cases hadvance : x.opener.advance x.collected x.pipe with
    | none => rfl
    | some z =>
      obtain ⟨reading, o, p⟩ := z
      refine absurd ⟨hadvance, fun c hc => ?_⟩ (hreturns reading o p)
      rw [hc] at hadvance
      exact hstep _ (.reads hadvance)
  obtain ⟨hahead, hheld⟩ := empty_of_advance hwaits
  have hopen : x.pipe.closed = false := by
    rw [advance_empty _ hahead hheld] at hwaits
    cases hclosed : x.pipe.closed with
    | false => rfl
    | true =>
      rw [hclosed] at hwaits
      cases hwaits
  have hcoming : x.coming = [] := by
    by_contra hne
    have hroom : x.pipe.room ≠ 0 := by
      rw [Pipe.room, hheld]
      exact Nat.ne_of_gt h.room
    cases hpush : x.pipe.push x.coming with
    | none => exact hroom (Pipe.room_of_push hpush)
    | some res =>
      obtain ⟨left, p, rfl, -⟩ := Pipe.push_open hopen hpush
      exact hstep _ (.arrives hne (List.append_nil _).symm hpush)
  have hending : x.ending = false := by
    cases hending : x.ending with
    | false => rfl
    | true => exact absurd (.ends hcoming hending hopen) (hstep _)
  have hbytes : x.bytes = x.collected := by
    simp only [bytes, hahead, hheld, hcoming, List.append_nil]
  rw [outcome, hbytes, outcome_unfinished h.unfinished, hending]
  rfl

theorem underway_of_leads (h : x.Underway) (hleads : Leads x y) : y.Underway := by
  induction hleads with
  | refl => exact h
  | tail _ hstep ih => exact ih.step hstep

theorem outcome_of_leads (h : x.Underway) (hleads : Leads x y) : y.outcome = x.outcome := by
  induction hleads with
  | refl => rfl
  | tail hleads hstep ih => exact (outcome_of_step (underway_of_leads h hleads) hstep).trans ih

/-- **What a read call comes to depends on the bytes that are not consumed yet, and not on how they
arrive.** Whatever it returns is the verdict on these bytes, with the nonces that are left and all
bytes behind those that it consumed; it is stuck only where the verdict is to wait; it takes no
more than so many steps; and there is just one verdict, which is never that a plaintext is too
short for its sequence number. -/
theorem read_outcome (o : Opener) (p : Pipe) (coming : Bytes) (ending : Bool)
    (hclosed : p.closed = true → coming = [] ∧ ending = true) (hroom : 0 < p.capacity) :
    let start : Intake := { opener := o, pipe := p, coming, ending }
    let Comes := Verdict o.key o.maxPlaintext o.nonces (o.ahead ++ p.held ++ coming) ending
    (∀ x reading o' p', Leads start x → x.Returns reading o' p' →
      Comes (some (reading, o'.nonces, o'.ahead ++ p'.held ++ x.coming))) ∧
    (∀ x, Leads start x → (∀ y, ¬Step x y) → (∀ reading o' p', ¬x.Returns reading o' p') →
      Comes none) ∧
    (∀ x, Leads start x → ∀ y, Step x y → y.effort < x.effort) ∧
    (∃! v, Comes v) ∧
    ∀ length nonces rest, ¬Comes (some (.failed (.framing
      (.frameTooShort length Frame.seqLength)), nonces, rest)) := by
  intro start Comes
  have hstart : start.Underway := ⟨unfinished_nil _, hclosed, hroom⟩
  refine ⟨fun x reading o' p' hleads hreturns => ?_, fun x hleads hstep hreturns => ?_,
    fun x hleads y => effort_of_step (underway_of_leads hstart hleads), ?_, ?_⟩
  · have hx := underway_of_leads hstart hleads
    refine verdict_iff.mpr ((outcome_of_leads hstart hleads).symm.trans ?_)
    exact outcome_of_advance hx.unfinished hx.closed hreturns.1 hreturns.2
  · refine verdict_iff.mpr ((outcome_of_leads hstart hleads).symm.trans ?_)
    exact outcome_of_stuck (underway_of_leads hstart hleads) hstep hreturns
  · exact ⟨_, verdict_iff.mpr rfl, fun v hv => (verdict_iff.mp hv).symm⟩
  · intro length nonces rest hcomes
    cases hcomes

/-- A length of five bytes is found to be too short before the two bytes behind it arrive. -/
theorem five_bytes_too_short : ∃ x reading o' p',
    Leads { opener := .create ⟨[7]⟩ .client 100, pipe := { capacity := 4, held := [0, 0, 0, 5] },
            coming := [8, 9], ending := true } x ∧
    x.Returns reading o' p' ∧ reading = .failed (.framing (.frameTooShort 5 20)) ∧
    o'.nonces.counter = 0 ∧ o'.ahead ++ p'.held ++ x.coming = [8, 9] := by
  let o : Opener := .create ⟨[7]⟩ .client 100
  let start : Intake := { opener := o, pipe := { capacity := 4, held := [0, 0, 0, 5] },
                          coming := [8, 9], ending := true }
  let ahead : Intake := { start with
    opener := { o with ahead := [0, 0, 0, 5] }, pipe := { capacity := 4 } }
  have hread : Step start ahead := .reads rfl
  have hfails : ahead.Returns _ _ _ := ⟨rfl, by rintro _ ⟨⟩⟩
  obtain ⟨hreturn, -, -, hone, -⟩ := read_outcome o start.pipe start.coming true
    (by rintro ⟨⟩) (by decide)
  have hshort : Verdict o.key o.maxPlaintext o.nonces [0, 0, 0, 5, 8, 9] true _ :=
    .tooShort (by decide) (by decide)
  have hsame := Option.some.inj (hone.unique (hreturn _ _ _ _ (.single hread) hfails) hshort)
  simp only [Prod.mk.injEq] at hsame
  exact ⟨_, _, _, _, .single hread, hfails, hsame.1, by rw [hsame.2.1]; rfl, hsame.2.2⟩

end Intake
end Parley.Channel
