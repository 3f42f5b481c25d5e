import Parley.Proofs.Channel.Sealing
import Parley.Proofs.Engine.History

/-! The frames an engine sends.

What concerns them is the `Outlook` of a world: the queue, the write loop with the writing
half it uses, and the bytes that have crossed the stream or are in its outgoing pipe. While
a stream is driven the frames accepted are those written, those of the batch and those in
the queue, in this order, and the bytes that left the engine or wait in its buffer are the
wire of the frames written and of the one in hand (`Carries`). Once it is not driven any
more no byte is added; at most one frame is cut short, and then some of it is missing for
good (`Flow`). Every operation keeps this (`Outbound`), and so does every run
(`outbound_of_reachable`). -/
namespace Parley.Engine
open Channel

/-! ### The sending side of a world -/

/-- The write loop, as far as frames go: the frame in hand with what is left of its call, the
rest of the batch, and whether the stream is being closed. -/
structure Lane where
  sealer : Sealer
  hand : Option (Outgoing × Sealer.Job) := none
  rest : List Outgoing := []
  closing : Bool := false

def WriteLoop.hand : WriteLoop → Option (Outgoing × Sealer.Job)
  | .writing job _ current _ _ => some (current, job)
  | _ => none

def WriteLoop.rest : WriteLoop → List Outgoing
  | .next batch _ => batch
  | .writing _ _ _ rest _ => rest
  | _ => []

def Control.isClosing : Control → Bool
  | .closing .. => true
  | _ => false

theorem isClosing_readEnded (res : Except Error Unit) (c : Control) :
    (c.readEnded res).isClosing = c.isClosing := by
  cases c <;> rfl

def Drive.lane (r : Drive) : Lane where
  sealer := r.sealer
  hand := r.writing.hand
  rest := r.writing.rest
  closing := r.control.isClosing

namespace Lane

/-- The frame in hand, if there is one. -/
def current (l : Lane) : List Outgoing := (l.hand.map (·.1)).toList

/-- What is left to hand over of it. -/
def left (l : Lane) : Bytes := Sealer.leftOf (l.hand.map (·.2))

theorem length_current (l : Lane) : l.current.length ≤ 1 := by
  unfold current
  cases l.hand.map (·.1) <;> simp

end Lane

structure Outlook where
  limit : Nat
  idle : Bool
  stopped : Bool
  queue : List Outgoing
  accepted : List Outgoing
  written : List Outgoing
  /-- The bytes that have crossed the stream, and those in its pipe. -/
  out : Bytes
  troubles : List Error
  /-- Whether driving the stream has come to an end. -/
  ended : Bool

def World.outlook (w : World) : Outlook where
  limit := w.engine.settings.maxWrite
  idle := w.engine.phase = .idle
  stopped := w.engine.stopped
  queue := w.engine.queue
  accepted := w.log.accepted
  written := w.log.written
  out := w.heard ++ w.stream.outgoing.held
  troubles := w.log.troubles
  ended := decide (w.log.ended ≠ [])

def World.lane (w : World) : Option Lane := w.engine.drive.map Drive.lane

/-- The frames of queued entries. -/
def frames (os : List Outgoing) : List Frame := os.map (·.frame)

@[simp] theorem frames_append (os os' : List Outgoing) :
    frames (os ++ os') = frames os ++ frames os' := List.map_append

@[simp] theorem length_frames (os : List Outgoing) : (frames os).length = os.length :=
  List.length_map _

theorem frames_mono {os os' : List Outgoing} (h : os <+: os') : frames os <+: frames os' :=
  h.map _

/-! ### The invariant -/

section
variable (key : SessionKey) (d : Direction)

/-- A stream is driven: every frame accepted is in its place, and every byte. -/
structure Carries (v : Outlook) (l : Lane) : Prop where
  busy : v.idle = false
  running : v.ended = false
  limit : 0 < v.limit
  sealing : l.sealer.key = key
  nonces : l.sealer.nonces = ⟨d, (v.written ++ l.current).length⟩
  maxPlaintext : l.sealer.maxPlaintext = v.limit
  capacity : l.sealer.outlet.capacity = v.limit + Frame.prefixLength + Frame.tagLength
  order : v.accepted = v.written ++ l.current ++ l.rest ++ v.queue
  bytes : v.out ++ l.sealer.outlet.held ++ l.left = wire key d 0 (frames (v.written ++ l.current))
  spellable : ∀ o ∈ v.written ++ l.current, o.frame.Spellable
  hand : ∀ o job, l.hand = some (o, job) → ∃ pieces, job = .placing pieces ∧
    Sealer.Job.Buffered l.sealer.outlet.capacity l.sealer.outlet.held pieces
  closing : l.closing = true → v.stopped = true ∧ v.queue = [] ∧ l.rest = [] ∧ l.hand = none

/-- The bytes that left the engine begin the wire of the frames written, and of at most one
more of which some is missing. -/
structure Flow (v : Outlook) (cut : List Outgoing) (rest : Bytes) : Prop where
  order : v.written ++ cut <+: v.accepted
  bytes : v.out ++ rest = wire key d 0 (frames (v.written ++ cut))
  spellable : ∀ o ∈ v.written ++ cut, o.frame.Spellable
  single : cut.length ≤ 1
  missing : cut ≠ [] → rest ≠ []

/-- Before, while and after a stream is driven. -/
inductive Outbound (v : Outlook) : Option Lane → Prop where
  | waiting (hidle : v.idle = true) (hended : v.ended = false) (hlimit : 0 < v.limit)
      (horder : v.accepted = v.queue) (hwritten : v.written = []) (hout : v.out = []) :
      Outbound v none
  | driven {l} (h : Carries key d v l) : Outbound v (some l)
  | left {cut rest} (hidle : v.idle = false) (h : Flow key d v cut rest)
      (hstopped : v.ended = true → v.stopped = true)
      (hclean : v.ended = true → v.troubles = [] →
        v.written = v.accepted ∧ cut = [] ∧ rest = []) : Outbound v none

end

variable {key : SessionKey} {d : Direction} {v : Outlook} {l : Lane} {lane : Option Lane}

theorem Carries.flow (h : Carries key d v l) :
    Flow key d v l.current (l.sealer.outlet.held ++ l.left) where
  order := by
    rw [h.order, List.append_assoc]
    exact List.prefix_append ..
  bytes := by rw [← List.append_assoc, h.bytes]
  spellable := h.spellable
  single := l.length_current
  missing hcut := by
    rw [Lane.current] at hcut
    cases hhand : l.hand with
    | none =>
      rw [hhand] at hcut
      exact absurd rfl hcut
    | some x =>
      obtain ⟨pieces, hjob, hb⟩ := h.hand x.1 x.2 hhand
      rw [Lane.left, hhand, Option.map_some, hjob]
      exact hb.left_ne_nil

theorem Outbound.flow (h : Outbound key d v lane) : ∃ cut rest, Flow key d v cut rest := by
  cases h with
  | waiting _ _ _ _ hwritten hout =>
    refine ⟨[], [], ?_, ?_, ?_, Nat.zero_le 1, fun hne => absurd rfl hne⟩
    · rw [hwritten]
      exact List.nil_prefix
    · rw [hwritten, hout]
      rfl
    · rw [hwritten]
      simp
  | driven h => exact ⟨_, _, h.flow⟩
  | left _ h _ _ => exact ⟨_, _, h⟩

/-! ### What keeps it -/

/-- A frame is accepted. -/
theorem Outbound.accept (h : Outbound key d v lane) (hopen : v.stopped = false) (o : Outgoing) :
    Outbound key d { v with queue := v.queue ++ [o], accepted := v.accepted ++ [o] } lane := by
  cases h with
  | waiting hidle hended hlimit horder hwritten hout =>
    exact .waiting hidle hended hlimit (by rw [horder]) hwritten hout
  | driven h =>
    refine .driven { h with order := ?_, closing := fun hclosing => ?_ }
    · show v.accepted ++ [o] = _
      rw [h.order]
      simp only [List.append_assoc]
    · have := (h.closing hclosing).1
      rw [hopen] at this
      cases this
  | left hidle h hstopped hclean =>
    refine .left hidle { h with order := h.order.trans (List.prefix_append ..) } hstopped ?_
    intro hended
    have := hstopped hended
    rw [hopen] at this
    cases this

/-- No more frames are taken. -/
theorem Outbound.stop (h : Outbound key d v lane) (stopped : Bool) :
    Outbound key d { v with stopped := v.stopped || stopped } lane := by
  have htrue : v.stopped = true → (v.stopped || stopped) = true := fun hs => by rw [hs]; rfl
  cases h with
  | waiting hidle hended hlimit horder hwritten hout =>
    exact .waiting hidle hended hlimit horder hwritten hout
  | driven h =>
    exact .driven
      { h with closing := fun hc => ⟨htrue (h.closing hc).1, (h.closing hc).2⟩ }
  | left hidle h hstopped hclean =>
    exact .left hidle { h with } (fun hended => htrue (hstopped hended)) hclean

/-- A stream is attached. -/
theorem Outbound.attach (h : Outbound key d v lane) (hidle : v.idle = true) {s : Sealer}
    (hkey : s.key = key) (hnonces : s.nonces = ⟨d, 0⟩) (hmax : s.maxPlaintext = v.limit)
    (hcapacity : s.outlet.capacity = v.limit + Frame.prefixLength + Frame.tagLength)
    (hheld : s.outlet.held = []) :
    Outbound key d { v with idle := false } (some { sealer := s }) := by
  cases h with
  | waiting _ hended hlimit horder hwritten hout =>
    refine .driven ⟨rfl, hended, hlimit, hkey, ?_, hmax, hcapacity, ?_, ?_, ?_, ?_, ?_⟩
    · rw [hnonces, hwritten]
      rfl
    · rw [horder, hwritten]
      rfl
    · show v.out ++ s.outlet.held ++ [] = _
      rw [hout, hheld, hwritten]
      rfl
    · show ∀ o ∈ v.written ++ [], o.frame.Spellable
      rw [hwritten]
      simp
    · exact fun _ _ hhand => nomatch hhand
    · exact fun hclosing => nomatch hclosing
  | driven h => rw [h.busy] at hidle; cases hidle
  | left hbusy => rw [hidle] at hbusy; cases hbusy

/-- The stream is given up by a drive that is dropped. -/
theorem Outbound.detach (h : Outbound key d v lane) : Outbound key d v none := by
  cases h with
  | waiting hidle hended hlimit horder hwritten hout =>
    exact .waiting hidle hended hlimit horder hwritten hout
  | driven h =>
    have hrunning : v.ended ≠ true := by rw [h.running]; decide
    exact .left h.busy h.flow (fun hended => absurd hended hrunning)
      fun hended => absurd hended hrunning
  | left hidle h hstopped hclean => exact .left hidle h hstopped hclean

/-- The queue becomes the batch. -/
theorem Carries.takeBatch (h : Carries key d v l) (hrest : l.rest = []) (hqueue : v.queue ≠ []) :
    Carries key d { v with queue := [] } { l with rest := v.queue } := by
  refine { h with order := ?_, closing := fun hclosing => ?_ }
  · show v.accepted = v.written ++ l.current ++ v.queue ++ []
    rw [h.order, hrest]
    simp only [List.append_nil]
  · exact absurd (h.closing hclosing).2.1 hqueue

/-- The next frame of the batch is sealed. -/
theorem Carries.begin (h : Carries key d v l) {o : Outgoing} {rest : List Outgoing}
    (hhand : l.hand = none) (hrest : l.rest = o :: rest) {job : Sealer.Job} {s : Sealer}
    (hwrite : l.sealer.write o.frame = .ok (job, s)) :
    Carries key d v { l with sealer := s, hand := some (o, job), rest } := by
  have hjob := Sealer.left_of_write hwrite
  obtain ⟨hfits, -, hpieces, rfl⟩ := Sealer.write_eq_ok_iff.mp hwrite
  have hcurrent : l.current = [] := by rw [Lane.current, hhand]; rfl
  have hleft : l.left = [] := by rw [Lane.left, hhand]; rfl
  have hnonces := h.nonces
  have hbytes := h.bytes
  have hspell := h.spellable
  rw [hcurrent, List.append_nil] at hnonces hbytes hspell
  rw [hleft, List.append_nil] at hbytes
  rw [h.maxPlaintext] at hfits
  refine ⟨h.busy, h.running, h.limit, h.sealing, ?_, h.maxPlaintext, h.capacity, ?_, ?_, ?_, ?_,
    fun he => ?_⟩
  · show ({ l.sealer.nonces with counter := l.sealer.nonces.counter + 1 } : Nonces) =
      ⟨d, (v.written ++ [o]).length⟩
    rw [hnonces, List.length_append]
    rfl
  · rw [h.order, hcurrent, hrest]
    simp [Lane.current]
  · show v.out ++ l.sealer.outlet.held ++ job.left = wire key d 0 (frames (v.written ++ [o]))
    rw [hbytes, hjob, h.sealing, hnonces, frames_append, wire_append, length_frames, Nat.zero_add]
    show _ = _ ++ wire key d v.written.length [o.frame]
    rw [wire_singleton]
  · show ∀ o' ∈ v.written ++ [o], o'.frame.Spellable
    intro o' ho'
    rcases List.mem_append.mp ho' with ho' | ho'
    · exact hspell o' ho'
    · rw [List.mem_singleton.mp ho']
      exact hfits.spellable
  · rintro _ _ ⟨⟩
    refine ⟨_, hpieces, ?_⟩
    show Sealer.Job.Buffered l.sealer.outlet.capacity _ _
    rw [h.capacity]
    exact Sealer.buffered_of_fits h.limit hfits _ _
  · have := (h.closing he).2.2.1
    rw [hrest] at this
    cases this

/-- Bytes move from the call in hand to the stream. -/
theorem Carries.advance (h : Carries key d v l) {o : Outgoing} {job job' : Sealer.Job}
    (hhand : l.hand = some (o, job)) {p p' : Pipe} {s : Sealer}
    (hadv : l.sealer.advance job p = some (.ok (some job', s, p'))) {heard : Bytes}
    (hout : v.out = heard ++ p.held) :
    Carries key d { v with out := heard ++ p'.held }
      { l with sealer := s, hand := some (o, job') } := by
  obtain ⟨pieces, rfl, hb⟩ := h.hand o job hhand
  obtain ⟨pieces', rfl, hb'⟩ := Sealer.advance_buffered hb hadv
  have hmoved := Sealer.advance_advanced hadv
  have hcurrent : Lane.current { l with sealer := s, hand := some (o, .placing pieces') } =
      l.current := by rw [Lane.current, Lane.current, hhand]; rfl
  have hleft : l.left = (Sealer.Job.placing pieces).left := by rw [Lane.left, hhand]; rfl
  have hs := hmoved.sealer
  refine ⟨h.busy, h.running, h.limit, ?_, ?_, ?_, ?_, ?_, ?_, ?_, ?_, fun he => ?_⟩
  · rw [hs]
    exact h.sealing
  · rw [hcurrent, hs]
    exact h.nonces
  · rw [hs]
    exact h.maxPlaintext
  · exact hmoved.buffer.trans h.capacity
  · rw [hcurrent]
    exact h.order
  · rw [hcurrent, ← h.bytes, hout, hleft]
    have hbytes := hmoved.bytes
    simp only [List.append_assoc] at hbytes ⊢
    rw [← hbytes]
    rfl
  · rw [hcurrent]
    exact h.spellable
  · rintro _ _ ⟨⟩
    refine ⟨pieces', rfl, ?_⟩
    show Sealer.Job.Buffered s.outlet.capacity _ _
    rw [hmoved.buffer]
    exact hb'
  · have := (h.closing he).2.2.2
    rw [hhand] at this
    cases this

/-- The frame in hand has been handed over. -/
theorem Carries.place (h : Carries key d v l) {o : Outgoing} {job : Sealer.Job}
    (hhand : l.hand = some (o, job)) {p p' : Pipe} {s : Sealer}
    (hadv : l.sealer.advance job p = some (.ok (none, s, p'))) {heard : Bytes}
    (hout : v.out = heard ++ p.held) :
    Carries key d { v with written := v.written ++ [o], out := heard ++ p'.held }
      { l with sealer := s, hand := none } := by
  have hmoved := Sealer.advance_advanced hadv
  have hcurrent : l.current = [o] := by rw [Lane.current, hhand]; rfl
  have hleft : l.left = job.left := by rw [Lane.left, hhand]; rfl
  have hwritten : (v.written ++ [o]) ++ Lane.current { l with sealer := s, hand := none } =
      v.written ++ l.current := by
    rw [hcurrent]
    exact List.append_nil _
  have hs := hmoved.sealer
  refine ⟨h.busy, h.running, h.limit, ?_, ?_, ?_, ?_, ?_, ?_, ?_,
    (fun _ _ hhand => nomatch hhand), fun he => ?_⟩
  · rw [hs]
    exact h.sealing
  · rw [hwritten, hs]
    exact h.nonces
  · rw [hs]
    exact h.maxPlaintext
  · exact hmoved.buffer.trans h.capacity
  · rw [hwritten]
    exact h.order
  · rw [hwritten, ← h.bytes, hout, hleft]
    have hbytes := hmoved.bytes
    simp only [List.append_assoc] at hbytes ⊢
    rw [← hbytes]
    rfl
  · rw [hwritten]
    exact h.spellable
  · have := (h.closing he).2.2.2
    rw [hhand] at this
    cases this

/-- Bytes move from the buffer to the stream. -/
theorem Carries.flush (h : Carries key d v l) (hhand : l.hand = none) {job : Sealer.Job}
    (hjob : job = .flushing ∨ job = .closing) {job' : Option Sealer.Job} {p p' : Pipe} {s : Sealer}
    (hadv : l.sealer.advance job p = some (.ok (job', s, p'))) {heard : Bytes}
    (hout : v.out = heard ++ p.held) :
    Carries key d { v with out := heard ++ p'.held } { l with sealer := s } := by
  have hmoved := Sealer.advance_advanced hadv
  have hbytes := hmoved.bytes
  have hjobleft : job.left = [] := by rcases hjob with rfl | rfl <;> rfl
  rw [Sealer.leftOf_advance hjob hadv, hjobleft, List.append_nil, List.append_nil] at hbytes
  have hs := hmoved.sealer
  refine ⟨h.busy, h.running, h.limit, ?_, ?_, ?_, ?_, h.order, ?_, h.spellable, ?_, h.closing⟩
  · rw [hs]
    exact h.sealing
  · rw [hs]
    exact h.nonces
  · rw [hs]
    exact h.maxPlaintext
  · exact hmoved.buffer.trans h.capacity
  · show heard ++ p'.held ++ s.outlet.held ++ l.left = _
    rw [List.append_assoc heard, hbytes, ← List.append_assoc, ← hout]
    exact h.bytes
  · show ∀ o job, l.hand = some (o, job) → _
    rw [hhand]
    exact fun _ _ hnone => nomatch hnone

/-- With nothing left to write, the stream is to be closed. -/
theorem Carries.finishLoop (h : Carries key d v l) (hqueue : v.queue = []) (hrest : l.rest = [])
    (hhand : l.hand = none) :
    Carries key d { v with stopped := true } { l with closing := true } :=
  { h with closing := fun _ => ⟨rfl, hqueue, hrest, hhand⟩ }

/-- The drive ends after the stream was closed: every frame accepted has left the engine. -/
theorem Carries.close (h : Carries key d v l) (hclosing : l.closing = true)
    (hheld : l.sealer.outlet.held = []) :
    Outbound key d { v with idle := false, stopped := true, queue := [], ended := true } none := by
  obtain ⟨-, hqueue, hrest, hhand⟩ := h.closing hclosing
  have hcurrent : l.current = [] := by rw [Lane.current, hhand]; rfl
  have hleft : l.left = [] := by rw [Lane.left, hhand]; rfl
  have hflow := h.flow
  rw [hcurrent, hheld, hleft] at hflow
  have horder := h.order
  rw [hcurrent, hrest, hqueue, List.append_nil, List.append_nil, List.append_nil] at horder
  exact .left rfl { hflow with } (fun _ => rfl) fun _ _ => ⟨horder.symm, rfl, rfl⟩

/-- The drive ends because something went wrong in writing, or in closing the stream. -/
theorem Carries.fail (h : Carries key d v l) (err : Error) :
    Outbound key d { v with
      idle := false, stopped := true, queue := [], ended := true
      troubles := v.troubles ++ [err] } none := by
  refine .left rfl { h.flow with } (fun _ => rfl) fun _ hclean => ?_
  exact absurd hclean (List.append_ne_nil_of_right_ne_nil _ (List.cons_ne_nil err []))

/-! ### Every step keeps it -/

section
variable {role : Role} {env : Env} {w : World} {e : Engine} {stream : Duplex} {events : List Event}

-- The operations, seen from the sending side.
attribute [local simp] World.outlook World.lane Site.after Site.logged Log.note driving readOn
  enqueue tell complete_eq completeAll_eq answer_eq leave_eq readLoopEnds_eq finished Engine.stop
  Engine.close Duplex.hangUp Pipe.close Drive.lane WriteLoop.hand WriteLoop.rest
  isClosing_readEnded

/-- The world after something has happened at its site. -/
abbrev World.near (w : World) (s : Site) : World := { w with toSite := s }

/-- While a stream is driven, every frame and every byte is in its place. -/
theorem Outbound.carries {r : Drive} (h : Outbound key d w.outlook w.lane)
    (hr : w.engine.drive = some r) : Carries key d w.outlook r.lane := by
  have hlane : w.lane = some r.lane := by rw [World.lane, hr, Option.map_some]
  rw [hlane] at h
  cases h with
  | driven h => exact h

theorem outbound_stepped (h : Stepped env w.engine w.stream e stream events)
    (hw : Outbound key d w.outlook w.lane) :
    Outbound key d (w.near (w.toSite.after e stream events)).outlook
      (w.near (w.toSite.after e stream events)).lane := by
  cases h with
  | notified
  | answered
  | expired => simpa using hw
  | cancelled hr hserving =>
    simpa [hr, hserving, Control.isClosing] using hw.stop true
  | @draining r result due job s out hr hclosing hadv =>
    have hc := hw.carries hr
    have hclosed : r.lane.closing = true := by rw [Drive.lane, hclosing]; rfl
    have hhand := (hc.closing hclosed).2.2.2
    simpa using Outbound.driven (hc.flush hhand (.inr rfl) hadv rfl)
  | @closed r result due s out hr hclosing hadv =>
    have hc := hw.carries hr
    have hclosed : r.lane.closing = true := by rw [Drive.lane, hclosing]; rfl
    have hhand := (hc.closing hclosed).2.2.2
    have hheld := ((Sealer.advance_advanced hadv).emptied rfl).2 (by rintro ⟨⟩)
    simpa using (hc.flush hhand (.inr rfl) hadv rfl).close hclosed hheld
  | @closeFailed r result due err hr hclosing =>
    simpa using (hw.carries hr).fail err
  | @batched r hr hwriting hqueue =>
    have hc := hw.carries hr
    have hrest : r.lane.rest = [] := by rw [Drive.lane, hwriting]; rfl
    simpa [hwriting] using Outbound.driven (hc.takeBatch hrest hqueue)
  | @emptied r result hr hwriting hqueue hstopped =>
    have hc := hw.carries hr
    have hrest : r.lane.rest = [] := by rw [Drive.lane, hwriting]; rfl
    have hhand : r.lane.hand = none := by rw [Drive.lane, hwriting]; rfl
    simpa [hwriting, Control.isClosing] using Outbound.driven (hc.finishLoop hqueue hrest hhand)
  | waited hr hwriting
  | woken hr hwriting
  | batchDone hr hwriting => simpa [hr, hwriting] using hw
  | @begun r o rest count job s hr hwriting hwrite =>
    have hc := hw.carries hr
    have hrest : r.lane.rest = o :: rest := by rw [Drive.lane, hwriting]; rfl
    have hhand : r.lane.hand = none := by rw [Drive.lane, hwriting]; rfl
    simpa using Outbound.driven (hc.begin hhand hrest hwrite)
  | @placing r job due current rest count job' s out hr hwriting hadv =>
    have hc := hw.carries hr
    have hhand : r.lane.hand = some (current, job) := by rw [Drive.lane, hwriting]; rfl
    simpa [hwriting] using Outbound.driven (hc.advance hhand hadv rfl)
  | @placed r job due current rest count s out hr hwriting hadv =>
    have hc := hw.carries hr
    have hhand : r.lane.hand = some (current, job) := by rw [Drive.lane, hwriting]; rfl
    simpa [hwriting] using Outbound.driven (hc.place hhand hadv rfl)
  | @flushing r due count job s out hr hwriting hadv =>
    have hc := hw.carries hr
    have hhand : r.lane.hand = none := by rw [Drive.lane, hwriting]; rfl
    simpa using Outbound.driven (hc.flush hhand (.inl rfl) hadv rfl)
  | @flushed r due count s out hr hwriting hadv =>
    have hc := hw.carries hr
    have hhand : r.lane.hand = none := by rw [Drive.lane, hwriting]; rfl
    simpa [hwriting] using Outbound.driven (hc.flush hhand (.inl rfl) hadv rfl)
  | @writeFailed r err result hr =>
    simpa using (hw.carries hr).fail err
  | collected hr
  | handed hr
  | resolved hr
  | handled hr => simpa [hr] using hw
  | readEnded hr
  | readExpired hr
  | overflowed hr => simpa [hr] using hw.stop _
  | @replied r f payload hr hread hf hreply htaken =>
    have hopen := (refusal_eq_none htaken).2
    simpa [hr] using hw.accept hopen { frame := ⟨f.seq, payload⟩ }

theorem outbound_move {s : Site} (h : Move key role env w.toSite s)
    (hw : Outbound key role.outbound w.outlook w.lane) :
    Outbound key role.outbound (w.near s).outlook (w.near s).lane := by
  cases h with
  | @post payload e h =>
    obtain ⟨hopen, rfl⟩ := post_eq_ok h
    simpa using hw.accept hopen { frame := ⟨Frame.noResponse, payload⟩ }
  | @write id payload e hnew h =>
    obtain ⟨hopen, rfl⟩ := write_eq_ok h
    simpa using hw.accept hopen { frame := ⟨Frame.noResponse, payload⟩, waiter := some id }
  | @request id payload capacity due e hnew hfree h =>
    obtain ⟨hopen, rfl⟩ := request_eq_ok h
    simpa using hw.accept hopen { frame := ⟨w.engine.nextSeq, payload⟩ }
  | refuse => exact hw
  | @giveUp id c hc => simpa [giveUp, hc] using hw
  | @start e h =>
    obtain ⟨hidle, rfl⟩ := start_eq_ok h
    have hidle' : w.outlook.idle = true := by simp [World.outlook, hidle]
    have hattached := hw.attach hidle'
      (s := Sealer.create key role w.engine.settings.maxWrite) rfl rfl rfl rfl rfl
    simpa [Control.isClosing] using hattached
  | abandon =>
    cases hr : w.engine.drive with
    | none => simpa [abandon, hr] using hw
    | some r => simpa [abandon, hr] using hw.detach
  | step h => exact outbound_stepped (stepped_of_step h) hw

theorem outbound_step {w' : World} (h : World.Step key role w w')
    (hw : Outbound key role.outbound w.outlook w.lane) :
    Outbound key role.outbound w'.outlook w'.lane := by
  cases h with
  | near h => exact outbound_move h hw
  | far h =>
    -- The bytes that were read are those that are gone from the pipe.
    simpa [h] using hw

theorem outbound_fresh (c : Config.Connection) (out inc : Nat) :
    Outbound key d (World.fresh c out inc).outlook (World.fresh c out inc).lane := by
  refine .waiting rfl rfl ?_ rfl rfl rfl
  show 0 < c.maxWrite
  rw [Config.Connection.maxWrite, Config.positiveOr]
  split <;> omega

/-- **Whatever happens, the frames an engine sends are in their places, and so are their bytes.** -/
theorem outbound_of_reachable (h : World.Reachable key role w) :
    Outbound key role.outbound w.outlook w.lane :=
  World.Reachable.induct (motive := fun w => Outbound key role.outbound w.outlook w.lane)
    outbound_fresh (fun _ _ _ ih hstep => outbound_step hstep ih) h

end
end Parley.Engine
