import Mathlib.Data.List.Forall2
import Mathlib.Data.List.Nodup
import Mathlib.Logic.Relation
import Parley.Proofs.Channel.Opening
import Parley.Proofs.Channel.Sealing

/-! Which nonces are used under one key.

Each half of a stream spends the nonces of its own direction one after another, from where
its counter started (`Nonces.Spent`). A `Terminal` is one end of a stream in use: calls are
begun, move bytes over whatever pipe they find, fail, and are dropped half-way
(`Terminal.Step`). However the calls at two ends of opposite roles interleave, no nonce is
used twice for sealing, whatever an end opens it opens under the next nonce of the other
direction, and every byte handed over is of a frame that was sealed
(`nonces_never_repeat`). -/
namespace Parley.Channel

/-! ### Nonces in order -/

theorem Direction.byte_inj {d d' : Direction} (h : d.byte = d'.byte) : d = d' := by
  cases d <;> cases d' <;> first | rfl | exact absurd h (by decide)

theorem Nonce.encode_inj {d d' : Direction} {n n' : Nat} (hn : n < UInt64.size)
    (hn' : n' < UInt64.size) (h : encode d n = encode d' n') : d = d' ∧ n = n' := by
  simp only [encode, List.cons.injEq, true_and] at h
  obtain ⟨hbyte, hcounter⟩ := h
  have hvalue := congrArg Bytes.toNatBE hcounter
  rw [Bytes.toNatBE_ofNatBE, Bytes.toNatBE_ofNatBE, Nat.mod_eq_of_lt hn,
    Nat.mod_eq_of_lt hn'] at hvalue
  exact ⟨Direction.byte_inj hbyte, hvalue⟩

namespace Nonces
variable {n m m' : Nonces} {used : List Bytes} {nonce : Bytes}

/-- The first nonces, so many of them. -/
def first (n : Nonces) (count : Nat) : List Bytes :=
  (List.range count).map fun k => Nonce.encode n.direction (n.counter + k)

theorem first_succ (n : Nonces) (count : Nat) :
    n.first (count + 1) = n.first count ++ [Nonce.encode n.direction (n.counter + count)] := by
  rw [first, List.range_succ, List.map_append]
  rfl

theorem mem_first {count : Nat} :
    nonce ∈ n.first count ↔ ∃ k, k < count ∧ Nonce.encode n.direction (n.counter + k) = nonce := by
  simp only [first, List.mem_map, List.mem_range]

theorem nodup_first {count : Nat} (h : n.counter + count ≤ Nonce.last) : (n.first count).Nodup := by
  refine List.Nodup.map_on (fun i hi j hj hij => ?_) List.nodup_range
  rw [List.mem_range] at hi hj
  have hlast : Nonce.last + 1 = UInt64.size := rfl
  have hsum := (Nonce.encode_inj (by omega) (by omega) hij).2
  omega

theorem next_eq_ok (h : m.next = .ok (nonce, m')) :
    m.counter < Nonce.last ∧ nonce = Nonce.encode m.direction m.counter ∧
      m' = { m with counter := m.counter + 1 } := by
  unfold next at h
  split at h
  · cases h
  · rename_i hlast
    cases h
    exact ⟨Nat.lt_of_not_ge hlast, rfl, rfl⟩

theorem next_of_lt (h : m.counter < Nonce.last) :
    m.next = .ok (Nonce.encode m.direction m.counter, { m with counter := m.counter + 1 }) := by
  rw [next, if_neg (Nat.not_le_of_lt h)]

theorem next_of_last (h : m.counter = Nonce.last) : m.next = .error .nonceExhausted := by
  rw [next, if_pos (Nat.le_of_eq h.symm)]

/-- These nonces were spent, first to last, and these are left. -/
structure Spent (n : Nonces) (used : List Bytes) (m : Nonces) : Prop where
  order : used = n.first used.length
  left : m = { n with counter := n.counter + used.length }
  bound : n.counter + used.length ≤ Nonce.last

theorem Spent.none (h : n.counter ≤ Nonce.last) : n.Spent [] n := ⟨rfl, rfl, h⟩

theorem Spent.next (h : n.Spent used m) (hnext : m.next = .ok (nonce, m')) :
    n.Spent (used ++ [nonce]) m' := by
  obtain ⟨hlast, rfl, rfl⟩ := next_eq_ok hnext
  have hcounter : m.counter = n.counter + used.length := by rw [h.left]
  have hdirection : m.direction = n.direction := by rw [h.left]
  refine ⟨?_, ?_, ?_⟩
  · rw [List.length_append, List.length_singleton, first_succ, ← h.order, hcounter, hdirection]
  · rw [List.length_append, List.length_singleton, hcounter, h.left, Nat.add_assoc]
  · rw [List.length_append, List.length_singleton]
    omega

theorem Spent.nodup (h : n.Spent used m) : used.Nodup := by
  rw [h.order]
  exact nodup_first h.bound

/-- Nonces of different directions are different. -/
theorem Spent.disjoint {n' : Nonces} {used' : List Bytes} {m' : Nonces} (h : n.Spent used m)
    (h' : n'.Spent used' m') (hne : n.direction ≠ n'.direction) :
    ∀ nonce ∈ used, ∀ nonce' ∈ used', nonce ≠ nonce' := by
  intro nonce hmem nonce' hmem' hsame
  rw [h.order, mem_first] at hmem
  rw [h'.order, mem_first] at hmem'
  obtain ⟨i, hi, rfl⟩ := hmem
  obtain ⟨j, hj, rfl⟩ := hmem'
  have hlast : Nonce.last + 1 = UInt64.size := rfl
  have hbound := h.bound
  have hbound' := h'.bound
  exact hne (Nonce.encode_inj (by omega) (by omega) hsame).1

/-- Once the last nonce is spent there is no other. -/
theorem Spent.over {used' : List Bytes} {m' : Nonces} (h : n.Spent used m)
    (hlast : m.counter = Nonce.last) (h' : n.Spent used' m') (hmore : used <+: used') :
    used' = used ∧ m' = m := by
  have hcounter : m.counter = n.counter + used.length := by rw [h.left]
  have hbound := h'.bound
  have hlength := hmore.length_le
  obtain rfl := hmore.eq_of_length (by omega)
  exact ⟨rfl, by rw [h'.left, h.left]⟩

end Nonces

/-! ### What a nonce is used for -/

/-- A writing half that has no nonce left seals nothing. -/
theorem Sealer.write_of_last {s : Sealer} (h : s.nonces.counter = Nonce.last) {f : Frame}
    (hf : f.Fits s.maxPlaintext) : s.write f = .error (.crypto .nonceExhausted) := by
  have hspell : ¬f.encode.length + Frame.tagLength ≥ UInt32.size :=
    Nat.not_le_of_lt hf.spellable
  simp only [write, hf.payload, if_neg hspell, Nonces.next_of_last h]

theorem Sealer.write_ne_ok_of_last {s : Sealer} (h : s.nonces.counter = Nonce.last) (f : Frame) :
    ∃ e, s.write f = .error e := by
  cases hwrite : s.write f with
  | error e => exact ⟨e, rfl⟩
  | ok x =>
    have hlt := (write_eq_ok_iff.mp hwrite).2.1
    omega

/-- A call that is begun spends the next nonce on its frame. -/
theorem Sealer.write_spends {s s' : Sealer} {f : Frame} {job : Job}
    (h : s.write f = .ok (job, s')) : ∃ nonce, s.nonces.next = .ok (nonce, s'.nonces) ∧
      job = .placing [(pieces s.key nonce f).1, (pieces s.key nonce f).2] ∧ s'.key = s.key ∧
      s'.outlet = s.outlet := by
  obtain ⟨-, hlast, hjob, rfl⟩ := write_eq_ok_iff.mp h
  exact ⟨_, Nonces.next_of_lt hlast, hjob, rfl, rfl⟩

/-! ### Where bytes go -/

namespace Sealer
variable {s s' : Sealer} {p p' : Pipe} {job : Job} {job' : Option Job}

/-- A step of a call moves the first of what is left to the buffer, and the first of what is in
the buffer to the pipe. -/
theorem advance_moves (h : s.advance job p = some (.ok (job', s', p'))) :
    ∃ moved, job.left = moved ++ leftOf job' ∧
      p'.held.drop p.held.length ++ s'.outlet.held = s.outlet.held ++ moved := by
  have hnone : p.held.drop p.held.length ++ s.outlet.held = s.outlet.held ++ [] := by
    rw [List.drop_length, List.nil_append, List.append_nil]
  cases stepped_of_advance h with
  | placed
  | flushed
  | closed => exact ⟨[], rfl, hnone⟩
  | drains =>
    refine ⟨[], rfl, ?_⟩
    rw [List.drop_left, List.append_nil]
    exact List.take_append_drop ..
  | @passes piece rest hempty =>
    refine ⟨piece.take p.room, ?_, ?_⟩
    · show (piece :: rest).flatten = piece.take p.room ++
        (if piece.drop p.room = [] then rest else piece.drop p.room :: rest).flatten
      have hsplit := List.take_append_drop p.room piece
      rw [List.flatten_cons]
      split
      · rename_i hnil
        rw [hnil, List.append_nil] at hsplit
        rw [hsplit]
      · rw [List.flatten_cons, ← List.append_assoc, hsplit]
    · rw [List.drop_left, hempty, List.append_nil, List.nil_append]
  | @buffers piece rest =>
    refine ⟨piece, List.flatten_cons, ?_⟩
    rw [List.drop_length, List.nil_append, Outlet.held_put]

end Sealer

namespace Opener

/-- What a ciphertext comes to under a nonce. -/
def openedUnder (key : SessionKey) (nonce header body : Bytes) : Reading :=
  match Crypto.Aead.decrypt? key.bytes nonce header body with
  | none => .failed (.crypto .authentication)
  | some plaintext =>
    match Frame.decode plaintext with
    | .error e => .failed (.framing e)
    | .ok f => .frame f

/-- A reading half that has no nonce left opens nothing. -/
theorem decrypt_of_last {o : Opener} (h : o.nonces.counter = Nonce.last) (header body : Bytes) :
    o.decrypt header body = (.error (.crypto .nonceExhausted), o) := by
  rw [decrypt, Nonces.next_of_last h]

/-- What a read call has of a frame that it looks at: what it had collected, and what it takes of
the bytes read ahead. -/
def collects (o : Opener) (c : Bytes) : Bytes := c ++ o.ahead.take (needed c - c.length)

/-- A step of a read call that opens nothing: bytes are missing, the stream has ended, the length
that these bytes declare is refused, or there is no nonce left. -/
inductive Unopened (o : Opener) (c : Bytes) : Reading → Prop where
  | partly {c'} : Unopened o c (.partly c')
  | ended : Unopened o c .ended
  | cut : Unopened o c (.failed (.io .unexpectedEof))
  | refused {e} (h : Frame.checkCiphertext (declared c) o.maxPlaintext = .error e) :
      Unopened o c (.failed (.framing e))
  | exhausted (h : Nonce.last ≤ o.nonces.counter) :
      Unopened o c (.failed (.crypto .nonceExhausted))

/-- A ciphertext is opened under the next nonce, unless there is none. -/
theorem decrypt_spends (o : Opener) (header body : Bytes) :
    (Nonce.last ≤ o.nonces.counter ∧
      o.decrypt header body = (.error (.crypto .nonceExhausted), o)) ∨
    ∃ nonce nonces, o.nonces.next = .ok (nonce, nonces) ∧
      ((∃ f, o.decrypt header body = (.ok f, { o with nonces }) ∧
          openedUnder o.key nonce header body = .frame f) ∨
        ∃ e, o.decrypt header body = (.error e, { o with nonces }) ∧
          openedUnder o.key nonce header body = .failed e) := by
  by_cases hlast : Nonce.last ≤ o.nonces.counter
  · refine .inl ⟨hlast, ?_⟩
    rw [decrypt, Nonces.next, if_pos hlast]
  · have hnext := Nonces.next_of_lt (Nat.lt_of_not_le hlast)
    refine .inr ⟨_, _, hnext, ?_⟩
    rw [decrypt, hnext, openedUnder]
    dsimp only
    cases Crypto.Aead.decrypt? o.key.bytes _ header body with
    | none => exact .inr ⟨_, rfl, rfl⟩
    | some plaintext =>
      dsimp only
      cases Frame.decode plaintext with
      | error e => exact .inr ⟨_, rfl, rfl⟩
      | ok f => exact .inl ⟨_, rfl, rfl⟩

theorem inspect_spends {o o' : Opener} {c : Bytes} {reading : Reading}
    (h : o.inspect c = (reading, o')) :
    (o'.nonces = o.nonces ∧ Unopened o c reading) ∨
      ∃ nonce, o.nonces.next = .ok (nonce, o'.nonces) ∧
        reading =
          openedUnder o.key nonce (c.take Frame.prefixLength) (c.drop Frame.prefixLength) := by
  unfold inspect at h
  split at h
  · cases h
    exact .inl ⟨rfl, .partly⟩
  · split at h
    · rename_i hcheck
      cases h
      exact .inl ⟨rfl, .refused hcheck⟩
    · split at h
      · cases h
        exact .inl ⟨rfl, .partly⟩
      · obtain ⟨hlast, hdecrypt⟩ | ⟨nonce, nonces, hnext, hopened⟩ :=
          decrypt_spends o (c.take Frame.prefixLength) (c.drop Frame.prefixLength)
        · rw [hdecrypt] at h
          cases h
          exact .inl ⟨rfl, .exhausted hlast⟩
        · obtain ⟨f, hdecrypt, hreading⟩ | ⟨e, hdecrypt, hreading⟩ := hopened <;>
            rw [hdecrypt] at h <;> cases h <;> exact .inr ⟨nonce, hnext, hreading.symm⟩

/-- A step of a read call opens what it has collected under the next nonce, and spends it, or
opens nothing and spends none. -/
theorem advance_spends {o o' : Opener} {c : Bytes} {p p' : Pipe} {reading : Reading}
    (h : o.advance c p = some (reading, o', p')) :
    (o'.nonces = o.nonces ∧ Unopened o (o.collects c) reading) ∨
      ∃ nonce, o.nonces.next = .ok (nonce, o'.nonces) ∧
        reading = openedUnder o.key nonce ((o.collects c).take Frame.prefixLength)
          ((o.collects c).drop Frame.prefixLength) := by
  cases stepped_of_advance h with
  | fills => exact .inl ⟨rfl, .partly⟩
  | ends => exact .inl ⟨rfl, .ended⟩
  | breaks => exact .inl ⟨rfl, .cut⟩
  | inspects _ hinspect =>
    obtain ⟨hsame, hnone⟩ | hopens := inspect_spends hinspect
    · refine .inl ⟨hsame, ?_⟩
      cases hnone with
      | partly => exact .partly
      | ended => exact .ended
      | cut => exact .cut
      | refused hcheck => exact .refused hcheck
      | exhausted hlast => exact .exhausted hlast
    · exact .inr hopens

/-- What is still to be collected of a frame whose reading has not ended. -/
def Reading.collected : Reading → Option Bytes
  | .partly c => some c
  | _ => none

end Opener

/-! ### Calls -/

/-- A frame, and the nonce that was spent on it. -/
structure Sealing where
  nonce : Bytes
  frame : Frame

/-- The frame as it is to be handed over. -/
def Sealing.bytes (key : SessionKey) (x : Sealing) : Bytes :=
  (Sealer.pieces key x.nonce x.frame).1 ++ (Sealer.pieces key x.nonce x.frame).2

/-- One end of a stream in use, with the calls that are under way and what was done so far. -/
structure Terminal where
  sealer : Sealer
  opener : Opener
  /-- What is left of the call that writes, flushes or closes. -/
  writing : Option Sealer.Job := none
  /-- What the call that reads has collected. -/
  reading : Option Bytes := none
  /-- The bytes handed to the stream. -/
  out : Bytes := []
  /-- The frames sealed, in order. -/
  sealings : List Sealing := []
  /-- The nonces spent on opening, in order. -/
  openings : List Bytes := []

namespace Terminal

/-- Where an end begins: its limits and its counters. -/
structure Outset where
  maxWrite : Nat
  maxRead : Nat
  sealing : UInt64
  opening : UInt64

def start (key : SessionKey) (role : Role) (o : Outset) : Terminal where
  sealer := Sealer.create key role o.maxWrite o.sealing.toNat
  opener := Opener.create key role o.maxRead o.opening.toNat

/-- One thing that happens at an end. Whatever pipe a call finds, it may have been filled,
emptied and closed by others. -/
inductive Step (t : Terminal) : Terminal → Prop where
  | write {f job s nonce} (hidle : t.writing = none) (h : t.sealer.write f = .ok (job, s))
      (hnonce : t.sealer.nonces.next = .ok (nonce, s.nonces)) :
      Step t { t with sealer := s, writing := some job, sealings := t.sealings ++ [⟨nonce, f⟩] }
  /-- A call is refused, and is over. -/
  | refused {f e} (hidle : t.writing = none) (h : t.sealer.write f = .error e) : Step t t
  | flush (hidle : t.writing = none) : Step t { t with writing := some .flushing }
  | close (hidle : t.writing = none) : Step t { t with writing := some .closing }
  | moved {job p job' s p'} (hjob : t.writing = some job)
      (h : t.sealer.advance job p = some (.ok (job', s, p'))) :
      Step t { t with
        sealer := s, writing := job', out := t.out ++ p'.held.drop p.held.length }
  | failed {job p e} (hjob : t.writing = some job)
      (h : t.sealer.advance job p = some (.error e)) :
      Step t { t with sealer := t.sealer.failed, writing := none }
  | dropWrite : Step t { t with writing := none }
  | read (hidle : t.reading = none) : Step t { t with reading := some [] }
  | collected {c p reading o p'} (hread : t.reading = some c)
      (h : t.opener.advance c p = some (reading, o, p'))
      (hnone : t.opener.Unopened (t.opener.collects c) reading)
      (hsame : o.nonces = t.opener.nonces) :
      Step t { t with opener := o, reading := reading.collected }
  | opened {c p reading o p' nonce} (hread : t.reading = some c)
      (h : t.opener.advance c p = some (reading, o, p'))
      (hnonce : t.opener.nonces.next = .ok (nonce, o.nonces))
      (hopened : reading = Opener.openedUnder t.opener.key nonce
        ((t.opener.collects c).take Frame.prefixLength)
        ((t.opener.collects c).drop Frame.prefixLength)) :
      Step t { t with
        opener := o, reading := reading.collected, openings := t.openings ++ [nonce] }
  | dropRead : Step t { t with reading := none }

/-! ### What every step keeps -/

variable {key : SessionKey} {role : Role} {b : Outset} {t t' : Terminal}

/-- The nonces that were spent on sealing. -/
def sealed (t : Terminal) : List Bytes := t.sealings.map (·.nonce)

/-- An end that began so has spent its nonces in order. -/
structure Orderly (key : SessionKey) (role : Role) (b : Outset) (t : Terminal) : Prop where
  sealing : t.sealer.key = key
  opening : t.opener.key = key
  sealed : Nonces.Spent ⟨role.outbound, b.sealing.toNat⟩ t.sealed t.sealer.nonces
  opened : Nonces.Spent ⟨role.inbound, b.opening.toNat⟩ t.openings t.opener.nonces

theorem orderly_start (key : SessionKey) (role : Role) (b : Outset) :
    Orderly key role b (start key role b) where
  sealing := rfl
  opening := rfl
  sealed := .none (Nat.le_pred_of_lt b.sealing.toNat_lt)
  opened := .none (Nat.le_pred_of_lt b.opening.toNat_lt)

theorem Step.orderly (hstep : Step t t') (h : Orderly key role b t) : Orderly key role b t' := by
  cases hstep with
  | @write f job s nonce _ hwrite hnonce =>
    obtain ⟨-, -, -, hkey, -⟩ := Sealer.write_spends hwrite
    refine { h with sealing := hkey.trans h.sealing, sealed := ?_ }
    have hnext := h.sealed.next hnonce
    rwa [sealed, ← List.map_singleton (f := Sealing.nonce) (a := ⟨nonce, f⟩),
      ← List.map_append] at hnext
  | moved _ hadv =>
    have hs := (Sealer.advance_advanced hadv).sealer
    refine { h with sealing := ?_, sealed := ?_ }
    · rw [hs]
      exact h.sealing
    · rw [hs]
      exact h.sealed
  | collected _ hadv _ hsame =>
    exact { h with
      opening := (Opener.key_advance hadv).trans h.opening
      opened := hsame ▸ h.opened }
  | opened _ hadv hnonce =>
    exact { h with
      opening := (Opener.key_advance hadv).trans h.opening
      opened := h.opened.next hnonce }
  | _ => exact { h with }

/-- These are beginnings of the sealed frames, one of each. -/
def Begin (key : SessionKey) (parts : List Bytes) (xs : List Sealing) : Prop :=
  List.Forall₂ (fun part x => part <+: x.bytes key) parts xs

theorem Begin.snoc {parts : List Bytes} {xs : List Sealing} (h : Begin key parts xs) {part : Bytes}
    {x : Sealing} (hpart : part <+: x.bytes key) : Begin key (parts ++ [part]) (xs ++ [x]) :=
  List.rel_append h (.cons hpart .nil)

/-- The bytes handed over and those in the buffer are beginnings of the frames sealed; the rest
of the last one is what the call under way has left. -/
structure Accounted (key : SessionKey) (t : Terminal) (parts : List Bytes) : Prop where
  bytes : t.out ++ t.sealer.outlet.held = parts.flatten
  begins : Begin key parts t.sealings
  rest : ∀ job, t.writing = some job → job.left ≠ [] → ∃ before part earlier x,
    parts = before ++ [part] ∧ t.sealings = earlier ++ [x] ∧ Begin key before earlier ∧
      part ++ job.left = x.bytes key

/-- A call that has nothing left to hand over is about to do so. -/
theorem Accounted.rests {parts : List Bytes} (h : Accounted key t parts) {t' : Terminal}
    (hout : t'.out = t.out) (hheld : t'.sealer.outlet.held = t.sealer.outlet.held)
    (hsealings : t'.sealings = t.sealings)
    (hrest : ∀ job, t'.writing = some job → t.writing = some job ∨ job.left = []) :
    Accounted key t' parts where
  bytes := by rw [hout, hheld, h.bytes]
  begins := by rw [hsealings]; exact h.begins
  rest job hjob hleft := by
    rw [hsealings]
    exact h.rest job ((hrest job hjob).resolve_right hleft) hleft

theorem Accounted.write {parts : List Bytes} (h : Accounted key t parts)
    (hsealing : t.sealer.key = key) {f : Frame} {job : Sealer.Job} {s : Sealer} {nonce : Bytes}
    (hwrite : t.sealer.write f = .ok (job, s))
    (hnonce : t.sealer.nonces.next = .ok (nonce, s.nonces)) :
    Accounted key
      { t with sealer := s, writing := some job, sealings := t.sealings ++ [⟨nonce, f⟩] }
      (parts ++ [[]]) := by
  obtain ⟨nonce', hnonce', hjob, -, houtlet⟩ := Sealer.write_spends hwrite
  rw [hnonce, Except.ok.injEq, Prod.mk.injEq] at hnonce'
  obtain ⟨rfl, -⟩ := hnonce'
  refine ⟨?_, h.begins.snoc List.nil_prefix, ?_⟩
  · show t.out ++ s.outlet.held = _
    rw [houtlet, h.bytes, List.flatten_append]
    simp
  · rintro _ ⟨⟩ -
    refine ⟨parts, [], t.sealings, ⟨nonce, f⟩, rfl, rfl, h.begins, ?_⟩
    rw [hjob, hsealing]
    simp [Sealing.bytes, Sealer.Job.left]

theorem Accounted.move {parts : List Bytes} (h : Accounted key t parts) {job : Sealer.Job}
    (hjob : t.writing = some job) {p p' : Pipe} {s : Sealer} {job' : Option Sealer.Job}
    (hadv : t.sealer.advance job p = some (.ok (job', s, p'))) : ∃ parts', Accounted key
      { t with sealer := s, writing := job', out := t.out ++ p'.held.drop p.held.length }
      parts' := by
  obtain ⟨moved, hleft, hbytes⟩ := Sealer.advance_moves hadv
  have hall : t.out ++ p'.held.drop p.held.length ++ s.outlet.held = parts.flatten ++ moved := by
    rw [List.append_assoc, hbytes, ← List.append_assoc, h.bytes]
  by_cases hnone : job.left = []
  · rw [hnone] at hleft
    obtain ⟨rfl, hnone'⟩ := List.append_eq_nil_iff.mp hleft.symm
    refine ⟨parts, by rw [hall, List.append_nil], h.begins, ?_⟩
    rintro job'' rfl hne
    exact absurd hnone' hne
  · obtain ⟨before, part, earlier, x, rfl, hsealings, hbefore, hx⟩ := h.rest job hjob hnone
    have hpart : part ++ moved ++ Sealer.leftOf job' = x.bytes key := by
      rw [List.append_assoc, ← hleft, hx]
    refine ⟨before ++ [part ++ moved], ?_, ?_, ?_⟩
    · rw [hall]
      simp
    · show Begin key _ t.sealings
      rw [hsealings]
      exact hbefore.snoc ⟨_, hpart⟩
    · rintro job'' rfl -
      exact ⟨before, part ++ moved, earlier, x, rfl, hsealings, hbefore, hpart⟩

theorem Step.accounted (hstep : Step t t') (ho : Orderly key role b t) {parts : List Bytes}
    (h : Accounted key t parts) : ∃ parts', Accounted key t' parts' := by
  cases hstep with
  | write _ hwrite hnonce => exact ⟨_, h.write ho.sealing hwrite hnonce⟩
  | moved hjob hadv => exact h.move hjob hadv
  | flush | close =>
    refine ⟨parts, h.rests rfl rfl rfl ?_⟩
    rintro _ ⟨⟩
    exact .inr rfl
  | failed | dropWrite =>
    refine ⟨parts, h.rests rfl rfl rfl ?_⟩
    rintro _ ⟨⟩
  | _ => exact ⟨parts, h.rests rfl rfl rfl fun _ hjob => .inl hjob⟩

/-- Nothing that was done is undone. -/
theorem Step.grows (hstep : Step t t') :
    t.sealings <+: t'.sealings ∧ t.openings <+: t'.openings := by
  cases hstep <;> constructor <;> first | exact List.prefix_rfl | exact List.prefix_append _ _

theorem accounted_start (key : SessionKey) (role : Role) (b : Outset) :
    Accounted key (start key role b) [] := ⟨rfl, .nil, fun _ hjob => nomatch hjob⟩

/-! ### Whole runs -/

/-- Calls are made at an end one after another. -/
abbrev Leads : Terminal → Terminal → Prop := Relation.ReflTransGen Step

theorem grows_leads (h : Leads t t') : t.sealings <+: t'.sealings ∧ t.openings <+: t'.openings := by
  induction h with
  | refl => exact ⟨List.prefix_rfl, List.prefix_rfl⟩
  | tail _ hstep ih => exact ⟨ih.1.trans hstep.grows.1, ih.2.trans hstep.grows.2⟩

theorem orderly_of_leads (h : Leads (start key role b) t) : Orderly key role b t := by
  induction h with
  | refl => exact orderly_start key role b
  | tail _ hstep ih => exact hstep.orderly ih

theorem accounted_of_leads (h : Leads (start key role b) t) : ∃ parts, Accounted key t parts := by
  induction h with
  | refl => exact ⟨[], accounted_start key role b⟩
  | tail hleads hstep ih =>
    obtain ⟨parts, haccounted⟩ := ih
    exact hstep.accounted (orderly_of_leads hleads) haccounted

/-- What an end does with nonces that began so. -/
structure Disciplined (key : SessionKey) (role : Role) (b : Outset) (t : Terminal) : Prop where
  /-- The nonces spent on sealing are those of the outbound direction, in order. -/
  sealed : t.sealed = Nonces.first ⟨role.outbound, b.sealing.toNat⟩ t.sealed.length
  /-- The nonces spent on opening are those that the other end seals with, in order. -/
  opened : t.openings = Nonces.first ⟨role.opposite.outbound, b.opening.toNat⟩ t.openings.length
  sealing : t.sealer.nonces = ⟨role.outbound, b.sealing.toNat + t.sealed.length⟩ ∧
    t.sealer.nonces.counter ≤ Nonce.last
  opening : t.opener.nonces = ⟨role.opposite.outbound, b.opening.toNat + t.openings.length⟩ ∧
    t.opener.nonces.counter ≤ Nonce.last
  /-- A call that writes a frame seals it under the next nonce. -/
  seals : ∀ f job s, t.sealer.write f = .ok (job, s) →
    ∃ nonce, t.sealer.nonces.next = .ok (nonce, s.nonces) ∧
      job = .placing [(Sealer.pieces key nonce f).1, (Sealer.pieces key nonce f).2]
  /-- A call that reads opens what it has collected under the next nonce, and spends it, or opens
  nothing and spends none. -/
  opens : ∀ c p reading o p', t.opener.advance c p = some (reading, o, p') →
    (o.nonces = t.opener.nonces ∧ t.opener.Unopened (t.opener.collects c) reading) ∨
      ∃ nonce, t.opener.nonces.next = .ok (nonce, o.nonces) ∧
        reading = Opener.openedUnder key nonce ((t.opener.collects c).take Frame.prefixLength)
          ((t.opener.collects c).drop Frame.prefixLength)
  /-- No byte is handed over but of frames that were sealed. -/
  bytes : ∃ parts, t.out ++ t.sealer.outlet.held = parts.flatten ∧ Begin key parts t.sealings
  /-- Without a nonce no frame is sealed. -/
  sealsNone : t.sealer.nonces.counter = Nonce.last → ∀ f, (∃ e, t.sealer.write f = .error e) ∧
    (f.Fits t.sealer.maxPlaintext → t.sealer.write f = .error (.crypto .nonceExhausted))
  /-- Without a nonce nothing is opened. -/
  opensNone : t.opener.nonces.counter = Nonce.last → ∀ header body,
    t.opener.decrypt header body = (.error (.crypto .nonceExhausted), t.opener)

theorem disciplined_of_leads (h : Leads (start key role b) t) : Disciplined key role b t := by
  have ho := orderly_of_leads h
  obtain ⟨parts, haccounted⟩ := accounted_of_leads h
  have hsealed := ho.sealed
  have hopened := ho.opened
  rw [← Role.outbound_opposite] at hopened
  refine ⟨hsealed.order, hopened.order, ⟨hsealed.left, ?_⟩, ⟨hopened.left, ?_⟩,
    fun f job s hwrite => ?_, fun c p reading o p' hadv => ?_,
    ⟨parts, haccounted.bytes, haccounted.begins⟩,
    fun hlast f => ⟨Sealer.write_ne_ok_of_last hlast f, Sealer.write_of_last hlast⟩,
    Opener.decrypt_of_last⟩
  · rw [hsealed.left]
    exact hsealed.bound
  · rw [hopened.left]
    exact hopened.bound
  · obtain ⟨nonce, hnonce, hjob, -⟩ := Sealer.write_spends hwrite
    rw [ho.sealing] at hjob
    exact ⟨nonce, hnonce, hjob⟩
  · rw [← ho.opening]
    exact Opener.advance_spends hadv

/-- The first call that writes a frame spends the nonce at which the end began. -/
theorem start_seals (key : SessionKey) (role : Role) {f : Frame} (hf : f.Fits b.maxWrite)
    (hlast : b.sealing.toNat < Nonce.last) : ∃ t, Step (start key role b) t ∧
      t.sealed = [Nonce.encode role.outbound b.sealing.toNat] ∧
      t.sealer.nonces.counter = b.sealing.toNat + 1 ∧ t.sealer.maxPlaintext = b.maxWrite ∧
      t.opener = (start key role b).opener ∧ t.reading = none ∧ t.openings = [] := by
  have hwrite := (Sealer.write_eq_ok_iff (s := (start key role b).sealer)).mpr
    ⟨hf, hlast, rfl, rfl⟩
  exact ⟨_, .write rfl hwrite (Nonces.next_of_lt hlast), rfl, rfl, rfl, rfl, rfl, rfl⟩

/-- A call that reads, where the wire of a frame is there to be read, opens it under the next
nonce. -/
theorem opens_ahead {c : Bytes} {p : Pipe} {f : Frame} {fs : List Frame}
    (hread : t.reading = some c) (hahead : Opener.Ahead t.opener c p [] (f :: fs)) :
    ∃ o, Leads t { t with
      opener := o
      reading := none
      openings := t.openings ++
        [Nonce.encode t.opener.nonces.direction t.opener.nonces.counter] } := by
  induction hm : Opener.effort t.opener p [] using Nat.strongRecOn generalizing t c p with
  | ind m ih =>
    subst hm
    obtain ⟨reading, o, p', hadv, hless, -⟩ := hahead.exists_advance hahead.there
    cases reading with
    | partly c' =>
      obtain ⟨-, -, ho, -⟩ := Opener.advance_partly hahead.short hadv
      have hnonces : o.nonces = t.opener.nonces := by rw [ho]
      obtain ⟨o', hleads⟩ := ih (t := { t with opener := o, reading := some c' }) _ hless rfl
        (hahead.advance_partly hadv) rfl
      rw [hnonces] at hleads
      exact ⟨o', .head (.collected hread hadv .partly hnonces) hleads⟩
    | frame g =>
      obtain ⟨-, hnone⟩ | ⟨nonce, hnext, hopened⟩ := Opener.advance_spends hadv
      · cases hnone
      · obtain ⟨-, rfl, -⟩ := Nonces.next_eq_ok hnext
        exact ⟨o, .single (.opened hread hadv hnext hopened)⟩
    | ended => exact absurd (hahead.advance_ended hadv) (List.cons_ne_nil f fs)
    | failed e => exact absurd hadv hahead.not_failed

end Terminal

/-! ### Two ends -/

/-- Two ends of opposite roles that have the same key. -/
abbrev Terminals := Role → Terminal

namespace Terminals

/-- Nothing has happened at either end. -/
def start (key : SessionKey) (b : Role → Terminal.Outset) : Terminals := fun r =>
  .start key r (b r)

/-- Something happens at one end. -/
inductive Step (t : Terminals) : Terminals → Prop where
  | one (r : Role) {u : Terminal} (h : (t r).Step u) : Step t (Function.update t r u)

/-- Calls are made at the two ends in whatever order. -/
abbrev Leads : Terminals → Terminals → Prop := Relation.ReflTransGen Step

variable {key : SessionKey} {b : Role → Terminal.Outset} {t t' : Terminals}

/-- What happens at the two ends happens at each of them. -/
theorem leads_at (h : Leads t t') (r : Role) : Terminal.Leads (t r) (t' r) := by
  induction h with
  | refl => exact .refl
  | @tail u u' _ hstep ih =>
    obtain ⟨m, hm⟩ := hstep
    by_cases hr : r = m
    · subst hr
      rw [Function.update_self]
      exact ih.tail hm
    · rw [Function.update_of_ne hr]
      exact ih

/-- What happens at one end leaves the other as it is. -/
theorem leads_one (r : Role) {u : Terminal} (h : Terminal.Leads (t r) u) :
    Leads t (Function.update t r u) := by
  induction h with
  | refl => rw [Function.update_eq_self]
  | @tail u u' _ hstep ih =>
    have hone : Step (Function.update t r u) (Function.update (Function.update t r u) r u') :=
      .one r (by rwa [Function.update_self])
    rw [Function.update_idem] at hone
    exact ih.tail hone

/-- **No nonce seals twice**, over both ends and whatever becomes of the calls made there. Each
end spends the nonces of its own direction in order and opens with those of the other's. Once
the last is spent, nothing more is sealed or opened at that end, and no byte of a frame that
was not sealed is ever handed over. -/
theorem nonces_never_repeat (h : Leads (start key b) t) :
    ((t .client).sealed ++ (t .server).sealed).Nodup ∧
    (∀ r, ∀ nonce ∈ (t r).sealed ++ (t r).openings, nonce.length = 12) ∧
    (∀ r, (t r).Disciplined key r (b r)) ∧
    (∀ t', Leads t t' → ∀ r, (t' r).Disciplined key r (b r) ∧
      ((t r).sealer.nonces.counter = Nonce.last →
        (t' r).sealer.nonces.counter = Nonce.last ∧ (t' r).sealings = (t r).sealings) ∧
      ((t r).opener.nonces.counter = Nonce.last →
        (t' r).opener.nonces.counter = Nonce.last ∧ (t' r).openings = (t r).openings)) := by
  have ho : ∀ r, (t r).Orderly key r (b r) := fun r => Terminal.orderly_of_leads (leads_at h r)
  refine ⟨?_, fun r nonce hnonce => ?_, fun r => Terminal.disciplined_of_leads (leads_at h r),
    fun t' hlater r => ?_⟩
  · rw [List.nodup_append]
    exact ⟨(ho .client).sealed.nodup, (ho .server).sealed.nodup,
      (ho .client).sealed.disjoint (ho .server).sealed (by rintro ⟨⟩)⟩
  · rw [List.mem_append, (ho r).sealed.order, (ho r).opened.order, Nonces.mem_first,
      Nonces.mem_first] at hnonce
    rcases hnonce with ⟨k, -, rfl⟩ | ⟨k, -, rfl⟩ <;> exact Nonce.length_encode ..
  · have hall := leads_at (h.trans hlater) r
    have ho' := Terminal.orderly_of_leads hall
    obtain ⟨hsealings, hopenings⟩ := Terminal.grows_leads (leads_at hlater r)
    refine ⟨Terminal.disciplined_of_leads hall, fun hlast => ?_, fun hlast => ?_⟩
    · obtain ⟨hsame, hnonces⟩ := (ho r).sealed.over hlast ho'.sealed (hsealings.map _)
      have hlength := congrArg List.length hsame
      rw [Terminal.sealed, Terminal.sealed, List.length_map, List.length_map] at hlength
      exact ⟨by rw [hnonces, hlast], (hsealings.eq_of_length hlength.symm).symm⟩
    · obtain ⟨hsame, hnonces⟩ := (ho r).opened.over hlast ho'.opened hopenings
      exact ⟨by rw [hnonces, hlast], hsame⟩

/-- The client seals under its last nonce and drops the call, the server seals under its first, and
the client opens what the server has sealed under the same nonce. There is none left for another
frame of the client's. -/
theorem last_nonce_is_spent : ∃ b t, Leads (start ⟨[7]⟩ b) t ∧
    (t .client).sealed = [Nonce.encode .clientToServer (Nonce.last - 1)] ∧
    (t .server).sealed = [Nonce.encode .serverToClient 0] ∧
    (t .client).openings = (t .server).sealed ∧
    ((t .client).sealed ++ (t .server).sealed).Nodup ∧
    (t .client).sealer.write ⟨1, [5]⟩ = .error (.crypto .nonceExhausted) ∧
    (t .client).opener.nonces = ⟨.serverToClient, 1⟩ := by
  let b : Role → Terminal.Outset := fun r =>
    if r = .client then ⟨100, 100, 18446744073709551614, 0⟩
    else ⟨100, 100, 0, 18446744073709551614⟩
  let f : Frame := ⟨1, [5]⟩
  have hfits : f.Fits 100 := ⟨rfl, by
    rw [Frame.Spellable, Frame.length_encode]
    exact (by decide : Frame.seqLength + 1 + Frame.tagLength < UInt32.size)⟩
  obtain ⟨u, hu, husealed, hucounter, hulimit, huopener, hureading, huopenings⟩ :=
    Terminal.start_seals (b := b .client) ⟨[7]⟩ .client hfits (by decide)
  obtain ⟨v, hv, hvsealed, -⟩ := Terminal.start_seals (b := b .server) ⟨[7]⟩ .server hfits
    (by decide)
  -- The client's call is dropped before any of it is handed over.
  let u₁ : Terminal := { u with writing := none, reading := some [] }
  have hahead : Opener.Ahead u₁.opener []
      { capacity := 100, held := wire ⟨[7]⟩ .serverToClient 0 [f] } [] [f] := by
    refine ⟨?_, Opener.short_nil, fun _ => rfl, fun g hg => ?_, fun _ => ?_⟩
    · show [] ++ u.opener.ahead ++ _ ++ [] = wire u.opener.key u.opener.nonces.direction
        u.opener.nonces.counter [f]
      rw [huopener, List.append_nil]
      rfl
    · obtain rfl := List.mem_singleton.mp hg
      show _ ∧ Admits u.opener.maxPlaintext f
      rw [huopener]
      exact ⟨hfits.spellable, rfl⟩
    · show u.opener.nonces.counter + 1 ≤ _
      rw [huopener]
      exact (by decide : 0 + 1 ≤ Nonce.last)
  obtain ⟨o, hopens⟩ := Terminal.opens_ahead rfl hahead
  have hclient : Terminal.Leads (start ⟨[7]⟩ b .client) _ :=
    .head hu (.head .dropWrite (.head (.read hureading) hopens))
  have hleads : Leads (start ⟨[7]⟩ b) _ :=
    (leads_one .client hclient).trans (leads_one .server (.single hv))
  obtain ⟨hnodup, -, hdisciplined, -⟩ := nonces_never_repeat hleads
  refine ⟨b, _, hleads, husealed, hvsealed, ?_, hnodup, ?_, ?_⟩
  · show u.openings ++ [Nonce.encode u.opener.nonces.direction u.opener.nonces.counter] = v.sealed
    rw [huopener, huopenings, hvsealed]
    rfl
  · exact ((hdisciplined .client).sealsNone hucounter f).2 (hulimit ▸ hfits)
  · refine (hdisciplined .client).opening.1.trans ?_
    show Nonces.mk _ (0 + (u.openings ++ [_]).length) = _
    rw [huopenings]
    rfl

end Terminals
end Parley.Channel
