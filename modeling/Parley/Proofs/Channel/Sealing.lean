import Parley.Proofs.Channel.Wire

/-! What a writing half puts on its pipe.

A step of a call only moves bytes onward: from what is left of the call into the buffer, and
from the buffer into the pipe (`advance_advanced`). A call spends a nonce and adds one sealed
frame or fails without a trace (`write_eq_ok_iff`). So whatever the pipe's capacity and
however its far end reads, the bytes that cross it are the wire of the frames written
(`outputs_iff`). -/
namespace Parley.Channel

namespace Pipe

theorem push_ok {p p' : Pipe} {bs rest : Bytes} (h : p.push bs = some (.ok (rest, p'))) :
    p.closed = false ∧ p.room ≠ 0 ∧ rest = bs.drop p.room ∧
      p' = { p with held := p.held ++ bs.take p.room } := by
  unfold push at h
  split at h
  · cases h
  · rename_i hopen
    split at h
    · cases h
    · rename_i hroom
      cases h
      exact ⟨by simpa using hopen, hroom, rfl, rfl⟩

theorem push_of_room {p : Pipe} (bs : Bytes) (hopen : p.closed = false) (hroom : p.room ≠ 0) :
    p.push bs = some (.ok (bs.drop p.room, { p with held := p.held ++ bs.take p.room })) := by
  rw [push, hopen, if_neg (by decide), if_neg hroom]

theorem push_of_full {p : Pipe} (bs : Bytes) (hopen : p.closed = false) (hfull : p.room = 0) :
    p.push bs = none := by
  rw [push, hopen, if_neg (by decide), if_pos hfull]

theorem push_of_fits {p : Pipe} {bs : Bytes} (hopen : p.closed = false) (hne : bs ≠ [])
    (hfits : bs.length ≤ p.room) :
    p.push bs = some (.ok ([], { p with held := p.held ++ bs })) := by
  have hpos : 0 < bs.length := List.length_pos_iff.mpr hne
  rw [push_of_room bs hopen (by omega), List.drop_eq_nil_of_le hfits,
    List.take_of_length_le hfits]

/-- A transfer waits only where the pipe is full. -/
theorem room_of_push {p : Pipe} {bs : Bytes} (h : p.push bs = none) : p.room = 0 := by
  unfold push at h
  split at h
  · cases h
  · split at h
    · assumption
    · cases h

/-- On an open pipe no transfer fails, and what is there stays in front. -/
theorem push_open {p : Pipe} {bs : Bytes} {res : Except IoError (Bytes × Pipe)}
    (hopen : p.closed = false) (h : p.push bs = some res) :
    ∃ rest p', res = .ok (rest, p') ∧ p'.closed = false ∧ p.held <+: p'.held := by
  rw [push, hopen, if_neg (by decide)] at h
  split at h
  · cases h
  · cases h
    exact ⟨_, _, rfl, rfl, List.prefix_append ..⟩

/-- Only a transfer into a pipe that is closed fails. -/
theorem closed_of_error {p : Pipe} {bs : Bytes} {e : IoError}
    (h : p.push bs = some (.error e)) : p.closed = true := by
  cases hclosed : p.closed with
  | true => rfl
  | false =>
    obtain ⟨_, _, hok, -⟩ := push_open hclosed h
    cases hok

end Pipe

/-! ### The buffer -/

namespace Outlet
variable {o : Outlet} {rest : Bytes}

@[simp] theorem held_put (o : Outlet) (piece : Bytes) : (o.put piece).held = o.held ++ piece := rfl

@[simp] theorem held_keep (o : Outlet) (rest : Bytes) : (o.keep rest).held = rest := rfl

/-- Empty buffers of one capacity are the same. -/
theorem eq_of_empty {o o' : Outlet} (h : o.held = []) (h' : o'.held = [])
    (hcap : o.capacity = o'.capacity) : o = o' := by
  obtain ⟨capacity, held, written, cleared⟩ := o
  obtain ⟨capacity', held', written', cleared'⟩ := o'
  obtain rfl : held = [] := h
  obtain rfl : held' = [] := h'
  obtain rfl : capacity = capacity' := hcap
  obtain rfl := cleared rfl
  obtain rfl := cleared' rfl
  rfl

theorem size_of_empty (h : o.held = []) : o.size = 0 := by
  rw [size, o.cleared h, h, List.length_nil]

/-- Until the last byte is out a buffer takes up as much room as before. -/
theorem size_keep (hne : rest ≠ []) (hle : rest.length ≤ o.held.length) :
    (o.keep rest).size = o.size := by
  simp only [size, keep, if_neg hne]
  omega

@[simp] theorem put_nil (o : Outlet) : o.put [] = o := by
  simp only [put, List.append_nil]

theorem put_put (o : Outlet) (a b : Bytes) : (o.put a).put b = o.put (a ++ b) := by
  simp only [put, List.append_assoc]

theorem size_put (o : Outlet) (piece : Bytes) : (o.put piece).size = o.size + piece.length := by
  simp only [size, put, List.length_append, Nat.add_assoc]

end Outlet

namespace Sealer

/-- The bytes that a call has still to hand over. -/
def Job.left : Job → Bytes
  | .placing pieces => pieces.flatten
  | .flushing => []
  | .closing => []

/-- The same, of a call that may be done. -/
def leftOf : Option Job → Bytes
  | none => []
  | some job => job.left

/-! ### Starting a call -/

theorem write_eq_ok_iff {s s' : Sealer} {f : Frame} {job : Job} :
    s.write f = .ok (job, s') ↔
      f.Fits s.maxPlaintext ∧ s.nonces.counter < Nonce.last ∧
        job = .placing [(pieces s.key (Nonce.encode s.nonces.direction s.nonces.counter) f).1,
          (pieces s.key (Nonce.encode s.nonces.direction s.nonces.counter) f).2] ∧
        s' = { s with nonces.counter := s.nonces.counter + 1 } := by
  unfold write
  cases hcheck : Frame.checkPayload f.payload.length s.maxPlaintext with
  | error e =>
    refine ⟨(fun h => nomatch h), fun ⟨hfits, _⟩ => ?_⟩
    rw [hfits.payload] at hcheck
    cases hcheck
  | ok _ =>
    by_cases hspell : f.encode.length + Frame.tagLength ≥ UInt32.size
    · simp only [hspell, if_true]
      refine ⟨(fun h => nomatch h), fun ⟨hfits, _⟩ => ?_⟩
      exact absurd hfits.spellable (Nat.not_lt_of_ge hspell)
    · have hfits : f.Fits s.maxPlaintext := ⟨hcheck, Nat.lt_of_not_ge hspell⟩
      simp only [hspell, if_false, Nonces.next]
      by_cases hlast : s.nonces.counter ≥ Nonce.last
      · simp only [hlast, if_true]
        refine ⟨(fun h => nomatch h), fun ⟨_, hlt, _⟩ => ?_⟩
        exact absurd hlt (Nat.not_lt_of_ge hlast)
      · simp only [hlast, if_false, Except.ok.injEq, Prod.mk.injEq, hfits, true_and,
          Nat.lt_of_not_ge hlast]
        exact ⟨fun ⟨hjob, hs⟩ => ⟨hjob.symm, hs.symm⟩, fun ⟨hjob, hs⟩ => ⟨hjob.symm, hs.symm⟩⟩

/-- A call's bytes are the frame under the next nonce. -/
theorem left_of_write {s s' : Sealer} {f : Frame} {job : Job} (h : s.write f = .ok (job, s')) :
    job.left = sealed s.key s.nonces.direction s.nonces.counter f := by
  obtain ⟨_, _, rfl, _⟩ := write_eq_ok_iff.mp h
  simp [Job.left, sealed]

/-! ### One step of a call -/

/-- What a step of a call does unless it fails, rule by rule. -/
inductive Stepped (s : Sealer) (p : Pipe) : Job → Option Job → Sealer → Pipe → Prop where
  | placed : Stepped s p (.placing []) none s p
  /-- What is in the buffer goes out, before a piece for which there is no room as well. -/
  | drains {job} (hheld : s.outlet.held ≠ []) (hopen : p.closed = false) (hroom : p.room ≠ 0)
      (hfull : ∀ pieces, job = .placing pieces → ∃ piece rest, pieces = piece :: rest ∧
        s.outlet.capacity < s.outlet.size + piece.length) :
      Stepped s p job (some job) { s with outlet := s.outlet.keep (s.outlet.held.drop p.room) }
        { p with held := p.held ++ s.outlet.held.take p.room }
  /-- A large piece bypasses the buffer, in which there is nothing for it to overtake. -/
  | passes {piece rest} (hempty : s.outlet.held = []) (hlarge : s.outlet.capacity ≤ piece.length)
      (hopen : p.closed = false) (hroom : p.room ≠ 0) :
      Stepped s p (.placing (piece :: rest))
        (some (.placing (if piece.drop p.room = [] then rest else piece.drop p.room :: rest))) s
        { p with held := p.held ++ piece.take p.room }
  | buffers {piece rest} (hsmall : piece.length < s.outlet.capacity)
      (hfits : s.outlet.held = [] ∨ s.outlet.size + piece.length ≤ s.outlet.capacity) :
      Stepped s p (.placing (piece :: rest)) (some (.placing rest))
        { s with outlet := s.outlet.put piece } p
  | flushed (hempty : s.outlet.held = []) : Stepped s p .flushing none s p
  | closed (hempty : s.outlet.held = []) : Stepped s p .closing none s p.close

theorem drainFor_eq_ok {job : Job} {s s' : Sealer} {p p' : Pipe} {job' : Option Job}
    (h : s.drainFor job p = some (.ok (job', s', p'))) :
    p.closed = false ∧ p.room ≠ 0 ∧ job' = some job ∧
      s' = { s with outlet := s.outlet.keep (s.outlet.held.drop p.room) } ∧
      p' = { p with held := p.held ++ s.outlet.held.take p.room } := by
  unfold drainFor Outlet.drain at h
  cases hpush : p.push s.outlet.held with
  | none => rw [hpush] at h; cases h
  | some r =>
    cases r with
    | error e => rw [hpush] at h; cases h
    | ok x =>
      obtain ⟨rest, p₁⟩ := x
      rw [hpush] at h
      cases h
      obtain ⟨hopen, hroom, rfl, rfl⟩ := Pipe.push_ok hpush
      exact ⟨hopen, hroom, rfl, rfl, rfl⟩

theorem stepped_of_advance {job : Job} {s s' : Sealer} {p p' : Pipe} {job' : Option Job}
    (h : s.advance job p = some (.ok (job', s', p'))) : Stepped s p job job' s' p' := by
  have hdrains : s.outlet.held ≠ [] → s.drainFor job p = some (.ok (job', s', p')) →
      (∀ pieces, job = .placing pieces → ∃ piece rest, pieces = piece :: rest ∧
        s.outlet.capacity < s.outlet.size + piece.length) →
      Stepped s p job job' s' p' := fun hheld h hfull => by
    obtain ⟨hopen, hroom, rfl, rfl, rfl⟩ := drainFor_eq_ok h
    exact .drains hheld hopen hroom hfull
  unfold advance at h
  split at h
  · cases h
    exact .placed
  · rename_i piece rest
    split at h
    · rename_i hfull
      refine hdrains hfull.1 h fun pieces hpieces => ⟨piece, rest, ?_, hfull.2⟩
      exact (Job.placing.inj hpieces).symm
    · rename_i hno
      split at h
      · rename_i hlarge
        have hempty : s.outlet.held = [] := Classical.byContradiction fun hne => by
          have hpos : 0 < s.outlet.held.length := List.length_pos_iff.mpr hne
          exact hno ⟨hne, by rw [Outlet.size]; omega⟩
        cases hpush : p.push piece with
        | none => rw [hpush] at h; cases h
        | some r =>
          cases r with
          | error e => rw [hpush] at h; cases h
          | ok x =>
            obtain ⟨left, p₁⟩ := x
            rw [hpush] at h
            cases h
            obtain ⟨hopen, hroom, rfl, rfl⟩ := Pipe.push_ok hpush
            exact .passes hempty hlarge hopen hroom
      · rename_i hsmall
        cases h
        refine .buffers (Nat.lt_of_not_le hsmall) ?_
        by_cases hempty : s.outlet.held = []
        · exact .inl hempty
        · exact .inr (Nat.le_of_not_lt fun hlt => hno ⟨hempty, hlt⟩)
  · split at h
    · rename_i hempty
      cases h
      exact .flushed hempty
    · rename_i hheld
      exact hdrains hheld h (by rintro _ ⟨⟩)
  · split at h
    · rename_i hempty
      cases h
      exact .closed hempty
    · rename_i hheld
      exact hdrains hheld h (by rintro _ ⟨⟩)

/-- What one step of a call does, whatever the call: the bytes keep their order, and nothing
but what is in the buffer and in the pipe is different. -/
structure Advanced (job : Job) (s : Sealer) (p : Pipe) (job' : Option Job) (s' : Sealer)
    (p' : Pipe) : Prop where
  bytes : p'.held ++ s'.outlet.held ++ leftOf job' = p.held ++ s.outlet.held ++ job.left
  sealer : s' = { s with outlet := s'.outlet }
  buffer : s'.outlet.capacity = s.outlet.capacity
  capacity : p'.capacity = p.capacity
  closed : p.closed = true → p'.closed = true
  /-- A flush or a close is done only once the buffer is empty. -/
  emptied : job' = none → job.left = [] ∧ (job ≠ .placing [] → s'.outlet.held = [])

theorem advance_advanced {job : Job} {s s' : Sealer} {p p' : Pipe} {job' : Option Job}
    (h : s.advance job p = some (.ok (job', s', p'))) : Advanced job s p job' s' p' := by
  cases stepped_of_advance h with
  | placed => exact ⟨rfl, rfl, rfl, rfl, id, fun _ => ⟨rfl, fun hne => absurd rfl hne⟩⟩
  | drains _ hopen =>
    refine ⟨?_, rfl, rfl, rfl, fun hclosed => ?_, fun hnone => nomatch hnone⟩
    · show p.held ++ s.outlet.held.take p.room ++ s.outlet.held.drop p.room ++ job.left = _
      rw [List.append_assoc p.held, List.take_append_drop]
    · rw [hopen] at hclosed
      cases hclosed
  | @passes piece rest hempty _ hopen =>
    refine ⟨?_, rfl, rfl, rfl, fun hclosed => ?_, fun hnone => nomatch hnone⟩
    · rw [hempty, List.append_nil, List.append_nil]
      show p.held ++ piece.take p.room ++
          (if piece.drop p.room = [] then rest else piece.drop p.room :: rest).flatten =
        p.held ++ (piece :: rest).flatten
      have hsplit := List.take_append_drop p.room piece
      rw [List.flatten_cons, List.append_assoc]
      split
      · rename_i hleft
        rw [hleft, List.append_nil] at hsplit
        rw [hsplit]
      · rw [List.flatten_cons, ← List.append_assoc (piece.take p.room), hsplit]
    · rw [hopen] at hclosed
      cases hclosed
  | @buffers piece rest =>
    refine ⟨?_, rfl, rfl, rfl, id, fun hnone => nomatch hnone⟩
    show p.held ++ (s.outlet.held ++ piece) ++ rest.flatten =
      p.held ++ s.outlet.held ++ (piece :: rest).flatten
    simp only [List.flatten_cons, List.append_assoc]
  | flushed hempty => exact ⟨rfl, rfl, rfl, rfl, id, fun _ => ⟨rfl, fun _ => hempty⟩⟩
  | closed hempty => exact ⟨rfl, rfl, rfl, rfl, fun _ => rfl, fun _ => ⟨rfl, fun _ => hempty⟩⟩

/-- A piece for which the buffer was partly emptied is not placed before the rest of it is out. -/
theorem drains_again {pieces : List Bytes} {s s' : Sealer} {p p' : Pipe}
    (h : s.advance (.placing pieces) p = some (.ok (some (.placing pieces), s', p')))
    (hheld : s'.outlet.held ≠ []) (q : Pipe) :
    s'.advance (.placing pieces) q = s'.drainFor (.placing pieces) q := by
  generalize hsame : some (Job.placing pieces) = job at h
  cases stepped_of_advance h with
  | placed => cases hsame
  | drains _ _ _ hfull =>
    obtain ⟨piece, rest, rfl, hlt⟩ := hfull pieces rfl
    have hsize : (s.outlet.keep (s.outlet.held.drop p.room)).size = s.outlet.size :=
      Outlet.size_keep hheld (by rw [List.length_drop]; omega)
    rw [advance, if_pos ⟨hheld, Nat.lt_of_lt_of_eq hlt (by rw [hsize])⟩]
  | @passes piece rest _ _ _ hroom =>
    injection hsame with hsame
    injection hsame with hsame
    split at hsame
    · exact absurd hsame (List.cons_ne_self piece rest)
    · rename_i hleft
      -- Some of the piece went out, so it is not the same piece.
      have hlen := congrArg List.length (List.cons.inj hsame).1
      have hpos := List.length_pos_iff.mpr hleft
      rw [List.length_drop] at hlen hpos
      omega
  | @buffers piece rest =>
    injection hsame with hsame
    injection hsame with hsame
    exact absurd hsame (List.cons_ne_self piece rest)

/-- A call that is done has changed nothing in this step. -/
theorem advance_done {job : Job} {s s' : Sealer} {p p' : Pipe}
    (h : s.advance job p = some (.ok (none, s', p'))) : s' = s := by
  cases stepped_of_advance h <;> rfl

/-- How many more steps a call takes at most, once what is in the buffer is gone. -/
def Job.effort : Job → Nat
  | .placing pieces => 2 * pieces.flatten.length + pieces.length
  | .flushing => 0
  | .closing => 0

/-- A call that is not done after a step has less to do. -/
theorem advance_less {job job' : Job} {s s' : Sealer} {p p' : Pipe}
    (h : s.advance job p = some (.ok (some job', s', p'))) :
    job'.effort + s'.outlet.held.length < job.effort + s.outlet.held.length := by
  cases stepped_of_advance h with
  | drains hheld _ hroom =>
    have hpos := List.length_pos_iff.mpr hheld
    show job.effort + (s.outlet.held.drop p.room).length < _
    rw [List.length_drop]
    omega
  | @passes piece rest _ _ _ hroom =>
    split
    · simp only [Job.effort, List.flatten_cons, List.length_append, List.length_cons]
      omega
    · rename_i hleft
      have hlong := List.length_pos_iff.mpr hleft
      simp only [Job.effort, List.flatten_cons, List.length_append, List.length_cons,
        List.length_drop] at hlong ⊢
      omega
  | buffers =>
    simp only [Job.effort, Outlet.held_put, List.flatten_cons, List.length_append,
      List.length_cons]
    omega

/-- How many steps it takes at most to hand a frame over, piece by piece. -/
def effort (f : Frame) : Nat :=
  2 * (Frame.prefixLength + (Frame.seqLength + f.payload.length + Frame.tagLength)) + 4

/-- A frame that is begun is a step further than one that is not. -/
theorem effort_of_write {s s' : Sealer} {f : Frame} {job : Job} (h : s.write f = .ok (job, s')) :
    job.effort + 2 = effort f ∧ s'.outlet = s.outlet := by
  obtain ⟨-, -, rfl, rfl⟩ := write_eq_ok_iff.mp h
  obtain ⟨hheader, hbody⟩ := length_pieces s.key
    (Nonce.encode s.nonces.direction s.nonces.counter) f
  refine ⟨?_, rfl⟩
  simp only [Job.effort, List.flatten_cons, List.flatten_nil, List.length_append,
    List.length_cons, List.length_nil, hheader, hbody, effort]
  omega

/-- The pieces of a call go through the buffer in front of the pipe, none past it. -/
structure Job.Buffered (capacity : Nat) (held : Bytes) (pieces : List Bytes) : Prop where
  short : ∀ piece ∈ pieces, piece ≠ [] ∧ piece.length < capacity
  /-- Once the last piece is placed, some of it is still there. -/
  last : pieces = [] → held ≠ []

theorem Job.Buffered.left_ne_nil {capacity : Nat} {held : Bytes} {pieces : List Bytes}
    (hb : Job.Buffered capacity held pieces) : held ++ (Job.placing pieces).left ≠ [] := by
  intro hnil
  obtain ⟨hheld, hleft⟩ := List.append_eq_nil_iff.mp hnil
  cases pieces with
  | nil => exact hb.last rfl hheld
  | cons piece rest =>
    rw [left, List.flatten_cons] at hleft
    exact (hb.short piece List.mem_cons_self).1 (List.append_eq_nil_iff.mp hleft).1

/-- A step of a call whose pieces are short leaves such a call. -/
theorem advance_buffered {s s' : Sealer} {p p' : Pipe} {pieces : List Bytes} {job' : Job}
    (hb : Job.Buffered s.outlet.capacity s.outlet.held pieces)
    (h : s.advance (.placing pieces) p = some (.ok (some job', s', p'))) :
    ∃ pieces', job' = .placing pieces' ∧
      Job.Buffered s.outlet.capacity s'.outlet.held pieces' := by
  cases stepped_of_advance h with
  | drains _ _ _ hfull =>
    refine ⟨pieces, rfl, hb.short, fun hnil => ?_⟩
    obtain ⟨piece, rest, hcons, -⟩ := hfull pieces rfl
    rw [hnil] at hcons
    cases hcons
  | @passes piece rest _ hlarge =>
    have hpiece := hb.short piece List.mem_cons_self
    exact absurd hlarge (Nat.not_le_of_lt hpiece.2)
  | @buffers piece rest =>
    have hpiece := hb.short piece List.mem_cons_self
    refine ⟨rest, rfl, fun q hq => hb.short q (List.mem_cons_of_mem piece hq), fun _ => ?_⟩
    exact fun hnil => hpiece.1 (List.append_eq_nil_iff.mp hnil).2

theorem pieces_ne_nil (key : SessionKey) (nonce : Bytes) (f : Frame) :
    ∀ piece ∈ [(pieces key nonce f).1, (pieces key nonce f).2], piece ≠ [] := by
  have hlen := length_pieces key nonce f
  intro piece hpiece
  apply List.ne_nil_of_length_pos
  simp only [List.mem_cons, List.not_mem_nil, or_false] at hpiece
  rcases hpiece with rfl | rfl
  · rw [hlen.1]
    decide
  · rw [hlen.2, Frame.seqLength]
    omega

/-- A frame that may be sent is sealed in short pieces: the buffer holds a largest frame,
and more than the smallest. -/
theorem buffered_of_fits {max : Nat} {f : Frame} {held : Bytes} (hmax : 0 < max) (hf : f.Fits max)
    (key : SessionKey) (nonce : Bytes) :
    Job.Buffered (max + Frame.prefixLength + Frame.tagLength) held
      [(pieces key nonce f).1, (pieces key nonce f).2] := by
  have hlen := length_pieces key nonce f
  have hpayload := Frame.checkPayload_eq_ok_iff.mp hf.payload
  refine ⟨fun piece hpiece => ⟨pieces_ne_nil key nonce f piece hpiece, ?_⟩, fun hnil => ?_⟩
  · simp only [List.mem_cons, List.not_mem_nil, or_false] at hpiece
    simp only [Frame.seqLength] at hpayload
    rcases hpiece with rfl | rfl
    · rw [hlen.1, Frame.prefixLength]
      omega
    · rw [hlen.2, Frame.seqLength, Frame.tagLength, Frame.prefixLength]
      omega
  · exact absurd hnil (List.cons_ne_nil _ _)

/-- A flush or a close has nothing of its own to hand over, at any step. -/
theorem leftOf_advance {job : Job} (hjob : job = .flushing ∨ job = .closing) {s s' : Sealer}
    {p p' : Pipe} {job' : Option Job} (h : s.advance job p = some (.ok (job', s', p'))) :
    leftOf job' = [] := by
  rcases hjob with rfl | rfl <;> cases stepped_of_advance h <;> rfl

/-! ### Where a call waits or fails -/

theorem room_of_drainFor {job : Job} {s : Sealer} {p : Pipe} (h : s.drainFor job p = none) :
    p.room = 0 := by
  rw [drainFor, Outlet.drain, Option.map_eq_none_iff, Option.map_eq_none_iff] at h
  exact Pipe.room_of_push h

/-- A call waits only where the pipe is full. -/
theorem room_of_advance {job : Job} {s : Sealer} {p : Pipe} (h : s.advance job p = none) :
    p.room = 0 := by
  unfold advance at h
  split at h
  · cases h
  · split at h
    · exact room_of_drainFor h
    · split at h
      · rw [Option.map_eq_none_iff] at h
        exact Pipe.room_of_push h
      · cases h
  · split at h
    · cases h
    · exact room_of_drainFor h
  · split at h
    · cases h
    · exact room_of_drainFor h

theorem closed_of_drainFor_error {job : Job} {s : Sealer} {p : Pipe} {e : IoError}
    (h : s.drainFor job p = some (.error e)) :
    p.closed = true := by
  obtain ⟨res, hdrain, hres⟩ := Option.map_eq_some_iff.mp h
  obtain ⟨res', hpush, rfl⟩ := Option.map_eq_some_iff.mp hdrain
  cases res' with
  | error e => exact Pipe.closed_of_error hpush
  | ok x => cases hres

/-- A call fails only where the pipe is closed, and with something in the buffer, unless it was
passing a large piece by. -/
theorem advance_error {job : Job} {s : Sealer} {p : Pipe} {e : IoError}
    (h : s.advance job p = some (.error e)) : p.closed = true ∧
    (s.outlet.held = [] → ∃ piece rest, job = .placing (piece :: rest) ∧
      s.outlet.capacity ≤ piece.length) := by
  unfold advance at h
  split at h
  · cases h
  · split at h
    · rename_i hfull
      exact ⟨closed_of_drainFor_error h, fun hnil => absurd hnil hfull.1⟩
    · split at h
      · rename_i piece rest _ hlarge
        cases hpush : p.push piece with
        | none => rw [hpush] at h; cases h
        | some r =>
          cases r with
          | error e => exact ⟨Pipe.closed_of_error hpush, fun _ => ⟨piece, rest, rfl, hlarge⟩⟩
          | ok x => rw [hpush] at h; cases h
      · cases h
  · split at h
    · cases h
    · rename_i hsome
      exact ⟨closed_of_drainFor_error h, fun hnil => absurd hnil hsome⟩
  · split at h
    · cases h
    · rename_i hsome
      exact ⟨closed_of_drainFor_error h, fun hnil => absurd hnil hsome⟩

theorem drainFor_of_room {s : Sealer} {p : Pipe} (job : Job) (hopen : p.closed = false)
    (hroom : p.room ≠ 0) : s.drainFor job p = some (.ok (some job,
      { s with outlet := s.outlet.keep (s.outlet.held.drop p.room) },
      { p with held := p.held ++ s.outlet.held.take p.room })) := by
  rw [drainFor, Outlet.drain, Pipe.push_of_room _ hopen hroom]
  rfl

theorem drainFor_of_full {s : Sealer} {p : Pipe} (job : Job) (hopen : p.closed = false)
    (hfull : p.room = 0) : s.drainFor job p = none := by
  rw [drainFor, Outlet.drain, Pipe.push_of_full _ hopen hfull]
  rfl

/-- A piece for which there is no room in the buffer waits, if the pipe cannot take all of the
buffer, however much of it the pipe has taken. -/
theorem waits_for_buffer (piece : Bytes) (rest : List Bytes) {s : Sealer} {p : Pipe}
    (hfull : s.outlet.capacity < s.outlet.size + piece.length) (hopen : p.closed = false)
    (hroom : p.room ≠ 0) (hlong : p.room < s.outlet.held.length) :
    ∃ s' p', s.advance (.placing (piece :: rest)) p =
        some (.ok (some (.placing (piece :: rest)), s', p')) ∧
      s'.advance (.placing (piece :: rest)) p' = none ∧
      s'.outlet.held.length + p.room = s.outlet.held.length ∧ p'.closed = false := by
  have hheld : s.outlet.held ≠ [] := List.ne_nil_of_length_pos (by omega)
  have hdrain :
      s.advance (.placing (piece :: rest)) p = s.drainFor (.placing (piece :: rest)) p := by
    rw [advance, if_pos ⟨hheld, hfull⟩]
  rw [drainFor_of_room _ hopen hroom] at hdrain
  have hlen : (s.outlet.held.drop p.room).length + p.room = s.outlet.held.length := by
    rw [List.length_drop]
    omega
  refine ⟨_, _, hdrain, ?_, hlen, hopen⟩
  rw [drains_again hdrain (List.ne_nil_of_length_pos (by show 0 < (List.drop _ _).length; omega))]
  refine drainFor_of_full _ hopen ?_
  simp only [Pipe.room, List.length_append, List.length_take] at hlong ⊢
  omega

/-! ### Open streams -/

/-- What a step of a call comes to on an open stream. -/
structure Goes (job : Job) (p : Pipe) (job' : Option Job) (p' : Pipe) : Prop where
  opened : job ≠ .closing → p'.closed = false
  going : job ≠ .closing → job' ≠ some .closing
  held : p.held <+: p'.held

/-- On an open stream no step fails, and only a close closes it. -/
theorem goes_advance {job : Job} {s : Sealer} {p : Pipe}
    {res : Except IoError (Option Job × Sealer × Pipe)} (hopen : p.closed = false)
    (h : s.advance job p = some res) :
    ∃ job' s' p', res = .ok (job', s', p') ∧ Goes job p job' p' := by
  cases res with
  | error e =>
    have hclosed := (advance_error h).1
    rw [hopen] at hclosed
    cases hclosed
  | ok x =>
    obtain ⟨job', s', p'⟩ := x
    refine ⟨job', s', p', rfl, ?_⟩
    cases stepped_of_advance h with
    | placed
    | flushed
    | buffers => exact ⟨fun _ => hopen, fun _ => by rintro ⟨⟩, List.prefix_rfl⟩
    | drains =>
      exact ⟨fun _ => hopen, fun hne heq => hne (Option.some.inj heq), List.prefix_append ..⟩
    | passes => exact ⟨fun _ => hopen, fun _ => by rintro ⟨⟩, List.prefix_append ..⟩
    | closed => exact ⟨fun hne => absurd rfl hne, fun _ => by rintro ⟨⟩, List.prefix_rfl⟩

/-! ### Whole calls -/

/-- A call runs to its end while the far end reads as it likes; with the bytes it reads. -/
inductive Runs : Job → Sealer → Pipe → Bytes → Sealer → Pipe → Prop where
  | done {job s p s' p'} (h : s.advance job p = some (.ok (none, s', p'))) :
      Runs job s p [] s' p'
  | step {job s p job' s' p' bs s'' p''} (h : s.advance job p = some (.ok (some job', s', p')))
      (rest : Runs job' s' p' bs s'' p'') : Runs job s p bs s'' p''
  | taken {job s p p' bs bs' s'' p''} (max : Nat) (h : p.pull max = some (bs, p'))
      (rest : Runs job s p' bs' s'' p'') : Runs job s p (bs ++ bs') s'' p''

/-- Frames are written one after another, each call running to its end. -/
inductive Writes : List Frame → Sealer → Pipe → Bytes → Sealer → Pipe → Prop where
  | nil {s p} : Writes [] s p [] s p
  | cons {f fs job s s₁ s₂ s₃ p p₁ p₂ bs bs'} (hwrite : s.write f = .ok (job, s₁))
      (hrun : Runs job s₁ p bs s₂ p₁) (rest : Writes fs s₂ p₁ bs' s₃ p₂) :
      Writes (f :: fs) s p (bs ++ bs') s₃ p₂

/-- All the bytes that cross a fresh pipe when frames are written and the stream is closed:
those that the far end reads meanwhile, and those it finds in the pipe in the end. -/
def Outputs (s : Sealer) (fs : List Frame) (out : Bytes) : Prop :=
  ∃ capacity bs bs' s₁ p₁ s₂ p₂, Writes fs s { capacity } bs s₁ p₁ ∧
    Runs .closing s₁ p₁ bs' s₂ p₂ ∧ out = bs ++ bs' ++ p₂.held

theorem runs_bytes {job : Job} {s s' : Sealer} {p p' : Pipe} {bs : Bytes}
    (h : Runs job s p bs s' p') :
    bs ++ p'.held ++ s'.outlet.held = p.held ++ s.outlet.held ++ job.left ∧
      s' = { s with outlet := s'.outlet } := by
  induction h with
  | done h =>
    have hadv := advance_advanced h
    have hbytes := hadv.bytes
    rw [leftOf, List.append_nil] at hbytes
    exact ⟨by rw [List.nil_append, hbytes], hadv.sealer⟩
  | step h _ ih =>
    have hadv := advance_advanced h
    refine ⟨ih.1.trans hadv.bytes, ?_⟩
    rw [ih.2, hadv.sealer]
  | taken _ h _ ih =>
    have hpull := Pipe.pull_conserves h
    refine ⟨?_, ih.2⟩
    rw [← hpull, List.append_assoc, List.append_assoc,
      ← List.append_assoc _ _ (Sealer.outlet _).held, ih.1]
    simp only [List.append_assoc]

/-- A close goes on until the buffer is empty. -/
theorem runs_closing {s s' : Sealer} {p p' : Pipe} {bs : Bytes}
    (h : Runs .closing s p bs s' p') : s'.outlet.held = [] := by
  generalize hjob : Job.closing = job at h
  induction h with
  | done h =>
    subst hjob
    exact ((advance_advanced h).emptied rfl).2 (fun hne => nomatch hne)
  | step h _ ih =>
    subst hjob
    cases stepped_of_advance h with
    | drains => exact ih rfl
  | taken _ _ _ ih => exact ih hjob

/-- Every call's bytes follow those of the calls before. -/
theorem writes_bytes {fs : List Frame} {s s' : Sealer} {p p' : Pipe} {bs : Bytes}
    (h : Writes fs s p bs s' p') :
    bs ++ p'.held ++ s'.outlet.held =
        p.held ++ s.outlet.held ++ wire s.key s.nonces.direction s.nonces.counter fs ∧
      (∀ f ∈ fs, f.Fits s.maxPlaintext) ∧
      (fs ≠ [] → s.nonces.counter + fs.length ≤ Nonce.last) := by
  induction h with
  | nil =>
    refine ⟨?_, by simp, fun hne => absurd rfl hne⟩
    rw [wire, List.append_nil, List.nil_append]
  | @cons f fs job s s₁ s₂ s₃ p p₁ p₂ bs bs' hwrite hrun _ ih =>
    have hleft := left_of_write hwrite
    obtain ⟨hfits, hcounter, -, hs₁⟩ := write_eq_ok_iff.mp hwrite
    obtain ⟨hbytes, hs₂⟩ := runs_bytes hrun
    obtain ⟨ihbytes, ihfits, ihcounter⟩ := ih
    rw [hs₂, hs₁] at ihbytes ihfits ihcounter
    refine ⟨?_, ?_, fun _ => ?_⟩
    · have hheld : s₁.outlet.held = s.outlet.held := by rw [hs₁]
      calc bs ++ bs' ++ p₂.held ++ s₃.outlet.held
          = bs ++ (bs' ++ p₂.held ++ s₃.outlet.held) := by simp only [List.append_assoc]
        _ = bs ++ p₁.held ++ s₂.outlet.held ++
              wire s.key s.nonces.direction (s.nonces.counter + 1) fs := by
            rw [ihbytes]
            simp only [List.append_assoc]
        _ = p.held ++ s.outlet.held ++
              wire s.key s.nonces.direction s.nonces.counter (f :: fs) := by
            rw [hbytes, hheld, hleft, wire]
            simp only [List.append_assoc]
    · intro g hg
      rcases List.mem_cons.mp hg with rfl | hg
      · exact hfits
      · exact ihfits g hg
    · rw [List.length_cons]
      cases fs with
      | nil => exact hcounter
      | cons g gs =>
        have := ihcounter (by simp)
        simp only at this
        omega

theorem buffer_runs {job : Job} {s s' : Sealer} {p p' : Pipe} {bs : Bytes}
    (h : Runs job s p bs s' p') : s'.outlet.capacity = s.outlet.capacity := by
  induction h with
  | done h => exact (advance_advanced h).buffer
  | step h _ ih => exact ih.trans (advance_advanced h).buffer
  | taken _ _ _ ih => exact ih

theorem buffer_writes {fs : List Frame} {s s' : Sealer} {p p' : Pipe} {bs : Bytes}
    (h : Writes fs s p bs s' p') : s'.outlet.capacity = s.outlet.capacity := by
  induction h with
  | nil => rfl
  | cons hwrite hrun _ ih =>
    rw [ih, buffer_runs hrun, (effort_of_write hwrite).2]

/-- A frame spends a nonce, and leaves all but what is in the buffer as it was. -/
theorem writes_sealer {fs : List Frame} {s s' : Sealer} {p p' : Pipe} {bs : Bytes}
    (h : Writes fs s p bs s' p') : s' = { s with
      nonces.counter := s.nonces.counter + fs.length, outlet := s'.outlet } := by
  induction h with
  | nil => rfl
  | cons hwrite hrun _ ih =>
    obtain ⟨-, -, -, hs₁⟩ := write_eq_ok_iff.mp hwrite
    obtain ⟨-, hs₂⟩ := runs_bytes hrun
    rw [ih, hs₂, hs₁]
    simp only [List.length_cons, Nat.add_assoc, Nat.add_comm 1]

/-! ### Writing is possible -/

theorem advance_put {piece : Bytes} (rest : List Bytes) {s : Sealer}
    (hroom : s.outlet.size + piece.length < s.outlet.capacity) (p : Pipe) :
    s.advance (.placing (piece :: rest)) p =
      some (.ok (some (.placing rest), { s with outlet := s.outlet.put piece }, p)) := by
  rw [advance, if_neg (fun h => by omega), if_neg (by omega)]

/-- Pieces for which there is room in the buffer stay there. -/
theorem runs_put {pieces : List Bytes} {s : Sealer}
    (hroom : s.outlet.size + pieces.flatten.length < s.outlet.capacity) (p : Pipe) :
    Runs (.placing pieces) s p [] { s with outlet := s.outlet.put pieces.flatten } p := by
  induction pieces generalizing s with
  | nil =>
    rw [List.flatten_nil, Outlet.put_nil]
    exact .done rfl
  | cons piece rest ih =>
    rw [List.flatten_cons, List.length_append] at hroom
    have hrest := ih (s := { s with outlet := s.outlet.put piece })
      (by rw [Outlet.size_put, Nat.add_assoc]; exact hroom)
    rw [Outlet.put_put, ← List.flatten_cons] at hrest
    exact .step (advance_put rest (by omega) p) hrest

/-- So do frames, whatever becomes of the pipe. -/
theorem writes_put {fs : List Frame} {s : Sealer} (hfits : ∀ f ∈ fs, f.Fits s.maxPlaintext)
    (hcounter : s.nonces.counter + fs.length ≤ Nonce.last)
    (hroom : s.outlet.size + (wire s.key s.nonces.direction s.nonces.counter fs).length <
      s.outlet.capacity) (p : Pipe) :
    Writes fs s p [] { s with
      nonces.counter := s.nonces.counter + fs.length
      outlet := s.outlet.put (wire s.key s.nonces.direction s.nonces.counter fs) } p := by
  induction fs generalizing s with
  | nil =>
    rw [wire, Outlet.put_nil]
    exact .nil
  | cons f fs ih =>
    rw [List.length_cons] at hcounter
    rw [wire, List.length_append] at hroom
    have hwrite := write_eq_ok_iff.mpr ⟨hfits f List.mem_cons_self,
      (by omega : s.nonces.counter < Nonce.last), rfl, rfl⟩
    have hleft := left_of_write hwrite
    rw [Job.left] at hleft
    have hrun := runs_put (s := { s with nonces.counter := s.nonces.counter + 1 })
      (by rw [hleft]; show s.outlet.size + _ < s.outlet.capacity; omega) p
    rw [hleft] at hrun
    have hrest := ih (s := { s with
        nonces.counter := s.nonces.counter + 1
        outlet := s.outlet.put (sealed s.key s.nonces.direction s.nonces.counter f) })
      (fun g hg => hfits g (List.mem_cons_of_mem f hg)) (by show _ + 1 + _ ≤ _; omega)
      (by rw [Outlet.size_put, Nat.add_assoc]; exact hroom)
    rw [Outlet.put_put, Nat.add_assoc, Nat.add_comm 1] at hrest
    exact .cons hwrite hrun hrest

/-- **A call returns when the far end reads**, on an open stream of some capacity. -/
theorem exists_runs {job : Job} {s : Sealer} {p : Pipe} (hopen : p.closed = false)
    (hcap : 0 < p.capacity) : ∃ bs s' p', Runs job s p bs s' p' ∧
      (job ≠ .closing → p'.closed = false) ∧ p'.capacity = p.capacity := by
  induction hm : job.effort + s.outlet.held.length using Nat.strongRecOn
    generalizing job s p with
  | ind m ih =>
    subst hm
    -- The far end reads first what is in the pipe.
    obtain ⟨bs, p₀, hread, hempty, hopen₀, hcap₀⟩ : ∃ bs p₀,
        (∀ {bs' s' p'}, Runs job s p₀ bs' s' p' → Runs job s p (bs ++ bs') s' p') ∧
        p₀.held = [] ∧ p₀.closed = false ∧ p₀.capacity = p.capacity := by
      by_cases hheld : p.held = []
      · exact ⟨[], p, id, hheld, hopen, rfl⟩
      · refine ⟨p.held.take p.held.length, { p with held := p.held.drop p.held.length },
          fun hrun => .taken p.held.length ?_ hrun, List.drop_length, hopen, rfl⟩
        rw [Pipe.pull, if_neg hheld]
    cases hadv : s.advance job p₀ with
    | none =>
      have hfull := room_of_advance hadv
      rw [Pipe.room, hempty, List.length_nil] at hfull
      omega
    | some res =>
      obtain ⟨job', s₁, p₁, rfl, hgoes⟩ := goes_advance hopen₀ hadv
      have hcap₁ := (advance_advanced hadv).capacity.trans hcap₀
      cases job' with
      | none => exact ⟨_, s₁, p₁, hread (.done hadv), hgoes.opened, hcap₁⟩
      | some job' =>
        have hopen₁ : p₁.closed = false := by cases stepped_of_advance hadv <;> exact hopen₀
        obtain ⟨bs', s', p', hrun, hopen', hcap'⟩ :=
          ih _ (advance_less hadv) hopen₁ (by omega) rfl
        exact ⟨_, s', p', hread (.step hadv hrun),
          fun hne => hopen' fun hclosing => hgoes.going hne (congrArg some hclosing),
          hcap'.trans hcap₁⟩

/-- With room for everything, a piece leaves the call in a step or two. -/
theorem runs_of_piece {piece : Bytes} (rest : List Bytes) {s : Sealer} {p : Pipe}
    (hopen : p.closed = false) (hne : piece ≠ [])
    (hroom : p.held.length + s.outlet.held.length + piece.length ≤ p.capacity) :
    ∃ s₁ p₁, (∀ {bs s' p'}, Runs (.placing rest) s₁ p₁ bs s' p' →
        Runs (.placing (piece :: rest)) s p bs s' p') ∧
      p₁.closed = false ∧ p₁.capacity = p.capacity ∧
      p₁.held ++ s₁.outlet.held = p.held ++ s.outlet.held ++ piece := by
  -- Without an overflow one step is enough.
  have hplace : ∀ (s : Sealer) (p : Pipe), p.closed = false →
      p.held.length + s.outlet.held.length + piece.length ≤ p.capacity →
      ¬ (s.outlet.held ≠ [] ∧ s.outlet.size + piece.length > s.outlet.capacity) →
      ∃ s₁ p₁, s.advance (.placing (piece :: rest)) p = some (.ok (some (.placing rest), s₁, p₁)) ∧
        p₁.closed = false ∧ p₁.capacity = p.capacity ∧
        p₁.held ++ s₁.outlet.held = p.held ++ s.outlet.held ++ piece := by
    intro s p hopen hroom hno
    by_cases hlarge : piece.length ≥ s.outlet.capacity
    · have hfits : piece.length ≤ p.room := by rw [Pipe.room]; omega
      have hadv : s.advance (.placing (piece :: rest)) p =
          some (.ok (some (.placing rest), s, { p with held := p.held ++ piece })) := by
        rw [advance, if_neg hno, if_pos hlarge, Pipe.push_of_fits hopen hne hfits]
        rfl
      refine ⟨_, _, hadv, hopen, rfl, ?_⟩
      have hbytes := (advance_advanced hadv).bytes
      rw [leftOf, Job.left, Job.left, List.flatten_cons, ← List.append_assoc] at hbytes
      exact List.append_cancel_right hbytes
    · refine ⟨{ s with outlet := s.outlet.put piece }, p, ?_, hopen, rfl,
        (List.append_assoc ..).symm⟩
      rw [advance, if_neg hno, if_neg hlarge]
  by_cases hover : s.outlet.held ≠ [] ∧ s.outlet.size + piece.length > s.outlet.capacity
  · have hfits : s.outlet.held.length ≤ p.room := by rw [Pipe.room]; omega
    have hdrain : s.advance (.placing (piece :: rest)) p =
        some (.ok (some (.placing (piece :: rest)), { s with outlet := s.outlet.keep [] },
          { p with held := p.held ++ s.outlet.held })) := by
      rw [advance, if_pos hover, drainFor, Outlet.drain, Pipe.push_of_fits hopen hover.1 hfits]
      rfl
    obtain ⟨s₁, p₁, hadv, hclosed, hcap, hbytes⟩ := hplace { s with outlet := s.outlet.keep [] }
      { p with held := p.held ++ s.outlet.held } hopen
      (by simp only [Outlet.held_keep, List.length_append, List.length_nil]; omega)
      (fun h => h.1 rfl)
    refine ⟨s₁, p₁, fun hrun => .step hdrain (.step hadv hrun), hclosed, hcap, ?_⟩
    rw [hbytes, Outlet.held_keep, List.append_nil]
  · obtain ⟨s₁, p₁, hadv, hrest⟩ := hplace s p hopen hroom hover
    exact ⟨s₁, p₁, fun hrun => .step hadv hrun, hrest⟩

theorem exists_runs_placing {pieces : List Bytes} (hne : ∀ piece ∈ pieces, piece ≠ [])
    {s : Sealer} {p : Pipe} (hopen : p.closed = false)
    (hroom : p.held.length + s.outlet.held.length + pieces.flatten.length ≤ p.capacity) :
    ∃ s' p', Runs (.placing pieces) s p [] s' p' ∧
      p'.closed = false ∧ p'.capacity = p.capacity := by
  induction pieces generalizing s p with
  | nil => exact ⟨s, p, .done rfl, hopen, rfl⟩
  | cons piece rest ih =>
    rw [List.flatten_cons, List.length_append] at hroom
    obtain ⟨s₁, p₁, hstep, hclosed, hcap, hbytes⟩ := runs_of_piece rest (s := s)
      hopen (hne piece List.mem_cons_self) (by omega)
    have hlen := congrArg List.length hbytes
    simp only [List.length_append] at hlen
    have hroom₁ : p₁.held.length + s₁.outlet.held.length + rest.flatten.length ≤ p₁.capacity := by
      omega
    obtain ⟨s', p', hrun, hrest⟩ :=
      ih (fun q hq => hne q (List.mem_cons_of_mem piece hq)) hclosed hroom₁
    exact ⟨s', p', hstep hrun, hrest.1, hrest.2.trans hcap⟩

theorem exists_writes {fs : List Frame} {s : Sealer} {p : Pipe} (hopen : p.closed = false)
    (hfits : ∀ f ∈ fs, f.Fits s.maxPlaintext) (hcounter : s.nonces.counter + fs.length ≤ Nonce.last)
    (hroom : p.held.length + s.outlet.held.length +
      (wire s.key s.nonces.direction s.nonces.counter fs).length ≤ p.capacity) :
    ∃ s' p', Writes fs s p [] s' p' ∧ p'.closed = false ∧ p'.capacity = p.capacity := by
  induction fs generalizing s p with
  | nil => exact ⟨s, p, .nil, hopen, rfl⟩
  | cons f fs ih =>
    rw [List.length_cons] at hcounter
    rw [wire, List.length_append] at hroom
    have hwrite := write_eq_ok_iff.mpr ⟨hfits f List.mem_cons_self,
      (by omega : s.nonces.counter < Nonce.last), rfl, rfl⟩
    have hleft := left_of_write hwrite
    obtain ⟨s₂, p₂, hrun, hclosed, hcap⟩ := exists_runs_placing
      (pieces_ne_nil s.key (Nonce.encode s.nonces.direction s.nonces.counter) f)
      (s := { s with nonces.counter := s.nonces.counter + 1 }) hopen
      (by rw [Job.left] at hleft; rw [hleft]; show _ + s.outlet.held.length + _ ≤ _; omega)
    obtain ⟨hbytes, hs₂⟩ := runs_bytes hrun
    have htotal := congrArg List.length hbytes
    rw [hleft] at htotal
    simp only [List.length_append, List.nil_append] at htotal
    obtain ⟨s₃, p₃, hwrites, hrest⟩ := ih (s := s₂) hclosed
      (by rw [hs₂]; exact fun g hg => hfits g (List.mem_cons_of_mem f hg))
      (by rw [hs₂]; simp only; omega)
      (by
        have hwire : wire s₂.key s₂.nonces.direction s₂.nonces.counter fs =
            wire s.key s.nonces.direction (s.nonces.counter + 1) fs := by rw [hs₂]
        rw [hwire]
        omega)
    exact ⟨s₃, p₃, .cons hwrite hrun hwrites, hrest.1, hrest.2.trans hcap⟩

theorem exists_runs_closing {s : Sealer} {p : Pipe} (hopen : p.closed = false)
    (hroom : p.held.length + s.outlet.held.length ≤ p.capacity) :
    ∃ s' p', Runs .closing s p [] s' p' := by
  by_cases hempty : s.outlet.held = []
  · exact ⟨s, p.close, .done (by rw [advance, if_pos hempty])⟩
  · have hdrain : s.advance .closing p =
        some (.ok (some .closing, { s with outlet := s.outlet.keep [] },
          { p with held := p.held ++ s.outlet.held })) := by
      rw [advance, if_neg hempty, drainFor, Outlet.drain,
        Pipe.push_of_fits hopen hempty (by rw [Pipe.room]; omega)]
      rfl
    exact ⟨_, _, .step hdrain (.done rfl)⟩

/-- **What crosses the pipe is the wire of the frames written**, for frames that fit, as
long as there are nonces for them; for others there is no complete output. -/
theorem outputs_iff {s : Sealer} (hempty : s.outlet.held = [])
    (hlast : s.nonces.counter ≤ Nonce.last) {fs : List Frame} {out : Bytes} :
    Outputs s fs out ↔ out = wire s.key s.nonces.direction s.nonces.counter fs ∧
      (∀ f ∈ fs, f.Fits s.maxPlaintext) ∧ s.nonces.counter + fs.length ≤ Nonce.last := by
  constructor
  · rintro ⟨capacity, bs, bs', s₁, p₁, s₂, p₂, hwrites, hclosing, rfl⟩
    obtain ⟨hbytes, hfits, hcounter⟩ := writes_bytes hwrites
    obtain ⟨hrest, -⟩ := runs_bytes hclosing
    rw [runs_closing hclosing, List.append_nil, Job.left, List.append_nil] at hrest
    rw [hempty, List.append_nil, List.nil_append] at hbytes
    refine ⟨?_, hfits, ?_⟩
    · rw [← hbytes, List.append_assoc, hrest, List.append_assoc]
    · cases fs with
      | nil => exact hlast
      | cons f fs => exact hcounter (by simp)
  · rintro ⟨rfl, hfits, hcounter⟩
    let p : Pipe := { capacity := (wire s.key s.nonces.direction s.nonces.counter fs).length }
    obtain ⟨s₁, p₁, hwrites, hopen, hcap⟩ := exists_writes (p := p) rfl hfits hcounter
      (by simp [p, hempty])
    have hbytes := (writes_bytes hwrites).1
    rw [hempty, List.append_nil, List.nil_append, List.nil_append] at hbytes
    have hlen := congrArg List.length hbytes
    rw [List.length_append] at hlen
    obtain ⟨s₂, p₂, hclosing⟩ := exists_runs_closing hopen
      (by rw [hcap]; exact Nat.le_of_eq hlen)
    have hrest := (runs_bytes hclosing).1
    rw [runs_closing hclosing, List.append_nil, Job.left, List.append_nil] at hrest
    exact ⟨_, _, _, _, _, _, _, hwrites, hclosing, by rw [List.append_assoc, hrest, hbytes]; rfl⟩

end Sealer
end Parley.Channel
