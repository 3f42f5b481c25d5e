import Parley.Proofs.Channel.Opening
import Parley.Proofs.Engine.History

/-! The frames an engine receives.

While a stream is read, the bytes taken from it are the wire of the frames received, what is
collected of the next frame, and what is read ahead (`Takes`); the frames the application
was handed are among those received. Afterwards they still begin with the wire of the frames
received (`Taken`). Every move keeps this (`inbound_move`). -/
namespace Parley.Engine
open Channel

/-! ### The receiving side of a site -/

/-- The reading half in use, and where the read loop is. -/
structure Inlet where
  opener : Opener
  reading : ReadLoop

structure Intake where
  idle : Bool
  taken : Bytes
  received : List Frame
  delivered : List Frame

def Site.intake (s : Site) : Intake where
  idle := s.engine.phase = .idle
  taken := s.log.taken
  received := s.log.received
  delivered := s.log.delivered

def Site.inlet (s : Site) : Option Inlet := s.engine.drive.map fun r => ⟨r.opener, r.reading⟩

/-- What is collected of the next frame, while there may be one. -/
def ReadLoop.collected : ReadLoop → Option Bytes
  | .reading c _ => some c
  | .handling _ => some []
  | .ended => none

section
variable (key : SessionKey) (d : Direction)

/-- The bytes taken begin with the frames received. -/
structure Taken (v : Intake) : Prop where
  bytes : wire key d 0 v.received <+: v.taken
  spellable : ∀ f ∈ v.received, f.Spellable
  delivered : ∀ f ∈ v.delivered, f ∈ v.received

/-- A stream is read: every byte taken is in its place. -/
structure Takes (v : Intake) (l : Inlet) : Prop extends Taken key d v where
  busy : v.idle = false
  opening : l.opener.key = key
  place : ∀ c, l.reading.collected = some c →
    v.taken = wire key d 0 v.received ++ c ++ l.opener.ahead ∧ c.length < Opener.needed c ∧
      l.opener.nonces = ⟨d, v.received.length⟩
  handling : ∀ f, l.reading = .handling f → f ∈ v.received

/-- Before, while and after a stream is driven. -/
inductive Inbound (v : Intake) : Option Inlet → Prop where
  | waiting (hidle : v.idle = true) (htaken : v.taken = []) (hreceived : v.received = [])
      (hdelivered : v.delivered = []) : Inbound v none
  | driven {l} (h : Takes key d v l) : Inbound v (some l)
  | left (hbusy : v.idle = false) (h : Taken key d v) : Inbound v none

end

variable {key : SessionKey} {d : Direction} {v : Intake} {l : Inlet} {inlet : Option Inlet}

theorem Inbound.taken (h : Inbound key d v inlet) : Taken key d v := by
  cases h with
  | waiting _ htaken hreceived hdelivered =>
    refine ⟨?_, ?_, ?_⟩
    · rw [hreceived, htaken]
      exact List.prefix_rfl
    · simp [hreceived]
    · simp [hdelivered]
  | driven h => exact h.toTaken
  | left _ h => exact h

/-! ### What keeps it -/

/-- A stream is attached. -/
theorem Inbound.attach (h : Inbound key d v inlet) (hidle : v.idle = true) {o : Opener}
    (hkey : o.key = key) (hnonces : o.nonces = ⟨d, 0⟩) (hahead : o.ahead = []) (due : Option Nat) :
    Inbound key d { v with idle := false } (some ⟨o, .reading [] due⟩) := by
  have htaken := h.taken
  cases h with
  | waiting _ hnone hreceived _ =>
    refine .driven
      { htaken with busy := rfl, opening := hkey, place := ?_, handling := fun _ hf => nomatch hf }
    rintro c ⟨⟩
    refine ⟨?_, Opener.short_nil, ?_⟩
    · show v.taken = wire key d 0 v.received ++ [] ++ o.ahead
      rw [hnone, hreceived, hahead]
      rfl
    · show o.nonces = ⟨d, v.received.length⟩
      rw [hnonces, hreceived]
      rfl
  | driven h => rw [h.busy] at hidle; cases hidle
  | left hbusy => rw [hidle] at hbusy; cases hbusy

/-- The stream is given up. -/
theorem Inbound.detach (h : Inbound key d v inlet) : Inbound key d v none := by
  cases h with
  | waiting hidle htaken hreceived hdelivered => exact .waiting hidle htaken hreceived hdelivered
  | driven h => exact .left h.busy h.toTaken
  | left hbusy h => exact .left hbusy h

/-- The drive is over. -/
theorem Takes.finish (h : Takes key d v l) : Inbound key d { v with idle := false } none :=
  .left rfl { h.toTaken with }

/-- More of a frame is collected. -/
theorem Takes.collect (h : Takes key d v l) {c c' : Bytes} (hc : l.reading.collected = some c)
    {p p' : Pipe} {o : Opener} (hadv : l.opener.advance c p = some (.partly c', o, p'))
    {bs : Bytes} (hbs : bs ++ p'.held = p.held) (due : Option Nat) :
    Takes key d { v with taken := v.taken ++ bs } ⟨o, .reading c' due⟩ := by
  obtain ⟨htaken, hshort, hnonces⟩ := h.place c hc
  obtain ⟨hshort', hbytes, ho, -⟩ := Opener.advance_partly hshort hadv
  refine ⟨⟨h.bytes.trans (List.prefix_append ..), h.spellable, h.delivered⟩, h.busy, ?_, ?_,
    fun _ hf => nomatch hf⟩
  · rw [ho]
    exact h.opening
  · rintro _ ⟨⟩
    refine ⟨?_, hshort', by rw [ho]; exact hnonces⟩
    show v.taken ++ bs = wire key d 0 v.received ++ c' ++ o.ahead
    rw [htaken]
    have hmoved : c' ++ o.ahead = c ++ l.opener.ahead ++ bs := by
      rw [← hbs] at hbytes
      exact List.append_cancel_right (by rw [hbytes]; simp only [List.append_assoc])
    simp only [List.append_assoc] at hmoved ⊢
    rw [hmoved]

/-- A frame is complete: it is the next one of the wire. -/
theorem Takes.receive (h : Takes key d v l) {c : Bytes} (hc : l.reading.collected = some c)
    {p p' : Pipe} {o : Opener} {f : Frame} (hadv : l.opener.advance c p = some (.frame f, o, p'))
    (reading : ReadLoop) (hreading : ∀ c', reading.collected = some c' → c' = [])
    (hhandling : ∀ g, reading = .handling g → g = f) :
    p' = p ∧ Takes key d { v with received := v.received ++ [f] } ⟨o, reading⟩ := by
  obtain ⟨htaken, hshort, hnonces⟩ := h.place c hc
  obtain ⟨hbytes, ho, hp, hspell, -, -⟩ := Opener.advance_frame hshort hadv
  have hwire : v.taken = wire key d 0 (v.received ++ [f]) ++ o.ahead := by
    rw [htaken, List.append_assoc, hbytes, wire_append, wire_singleton, h.opening, hnonces,
      Nat.zero_add]
    simp only [List.append_assoc]
  refine ⟨hp, ⟨⟨?_, fun g hg => ?_, fun g hg => ?_⟩, h.busy, ?_, fun c' hc' => ?_, fun g hg => ?_⟩⟩
  · show wire key d 0 (v.received ++ [f]) <+: v.taken
    rw [hwire]
    exact List.prefix_append ..
  · rcases List.mem_append.mp hg with hg | hg
    · exact h.spellable g hg
    · rw [List.mem_singleton.mp hg]
      exact hspell
  · exact List.mem_append_left _ (h.delivered g hg)
  · rw [ho]
    exact h.opening
  · rw [hreading c' hc']
    refine ⟨?_, Opener.short_nil, ?_⟩
    · rw [List.append_nil]
      exact hwire
    · rw [ho, hnonces]
      show (⟨d, v.received.length + 1⟩ : Nonces) = ⟨d, (v.received ++ [f]).length⟩
      rw [List.length_append]
      rfl
  · rw [hhandling g hg]
    exact List.mem_append_right _ (List.mem_singleton_self f)

/-- The read loop has ended: nothing more is known of the bytes taken. -/
theorem Takes.stop (h : Takes key d v l) {o : Opener} (hkey : o.key = key) (bs : Bytes) :
    Takes key d { v with taken := v.taken ++ bs } ⟨o, .ended⟩ :=
  ⟨⟨h.bytes.trans (List.prefix_append ..), h.spellable, h.delivered⟩, h.busy, hkey,
    (fun _ hc => nomatch hc), fun _ hf => nomatch hf⟩

/-- The application returns from a callback. -/
theorem Takes.deliver (h : Takes key d v l) {f : Frame} (hf : l.reading = .handling f)
    (due : Option Nat) :
    Takes key d { v with delivered := v.delivered ++ [f] } ⟨l.opener, .reading [] due⟩ := by
  refine ⟨⟨h.bytes, h.spellable, fun g hg => ?_⟩, h.busy, h.opening, ?_, fun _ hf => nomatch hf⟩
  · rcases List.mem_append.mp hg with hg | hg
    · exact h.delivered g hg
    · rw [List.mem_singleton.mp hg]
      exact h.handling f hf
  · rintro _ ⟨⟩
    exact h.place [] (by rw [hf]; rfl)

/-! ### Every step keeps it -/

section
variable {role : Role} {env : Env} {s s' : Site} {e : Engine} {stream : Duplex}
  {events : List Event}

-- The operations, seen from the receiving side.
attribute [local simp] Site.intake Site.inlet Site.after Site.logged Site.gone Log.note driving
  readOn enqueue tell complete_eq completeAll_eq answer_eq leave_eq readLoopEnds_eq finished
  Engine.stop Engine.close Duplex.hangUp Pipe.close

/-- While a stream is driven, every byte taken is in its place. -/
theorem Inbound.takes {r : Drive} (h : Inbound key d s.intake s.inlet)
    (hr : s.engine.drive = some r) :
    Takes key d s.intake ⟨r.opener, r.reading⟩ := by
  have hinlet : s.inlet = some ⟨r.opener, r.reading⟩ := by rw [Site.inlet, hr, Option.map_some]
  rw [hinlet] at h
  cases h with
  | driven h => exact h

theorem inbound_stepped (h : Stepped env s.engine s.stream e stream events)
    (hs : Inbound key d s.intake s.inlet) :
    Inbound key d (s.after e stream events).intake (s.after e stream events).inlet := by
  cases h with
  | notified
  | answered
  | expired => simpa using hs
  | closed hr
  | closeFailed hr
  | writeFailed hr => simpa using (hs.takes hr).finish
  | placed hr => simpa [hr] using hs
  | @collected r c due c' o inc hr hread hadv =>
    have ht := hs.takes hr
    obtain ⟨bs, hbs⟩ := Opener.advance_held hadv
    obtain rfl : s.gone { s.stream with incoming := inc } = bs := Site.gone_eq hbs
    simpa using Inbound.driven (ht.collect (by rw [hread]; rfl) hadv hbs due)
  | @readEnded r c due reading o inc res hr hread hadv =>
    have ht := hs.takes hr
    have hnext := Inbound.driven
      (ht.stop (Opener.key_advance hadv ▸ ht.opening) (s.gone { s.stream with incoming := inc }))
    simpa using hnext
  | @readExpired r c due hr hread =>
    have ht := hs.takes hr
    have hnext := Inbound.driven (ht.stop ht.opening [])
    simpa using hnext
  | @handed r c due f o inc hr hread hadv hother =>
    have ht := hs.takes hr
    obtain ⟨rfl, hreceive⟩ := ht.receive (by rw [hread]; rfl) hadv (.handling f)
      (by rintro _ ⟨⟩; rfl) (by rintro _ ⟨⟩; rfl)
    simpa using Inbound.driven hreceive
  | @resolved r c due f o inc a hr hread hadv hf ha hfits =>
    have ht := hs.takes hr
    obtain ⟨rfl, hreceive⟩ := ht.receive (by rw [hread]; rfl) hadv
      (.reading [] (s.engine.readDue env.now)) (by rintro _ ⟨⟩; rfl) (by rintro _ ⟨⟩)
    simpa [readDue] using Inbound.driven hreceive
  | @overflowed r c due f o inc a err hr hread hreads hadv hf ha hover =>
    have ht := hs.takes hr
    obtain ⟨rfl, hreceive⟩ := ht.receive (by rw [hread]; rfl) hadv
      .ended (by rintro _ ⟨⟩) (by rintro _ ⟨⟩)
    simpa using Inbound.driven hreceive
  | handled hr hread
  | replied hr hread =>
    have ht := hs.takes hr
    simpa using Inbound.driven (ht.deliver hread (s.engine.readDue env.now))
  | _ => simpa [*] using hs

theorem inbound_move (h : Move key role env s s') (hs : Inbound key role.inbound s.intake s.inlet) :
    Inbound key role.inbound s'.intake s'.inlet := by
  cases h with
  | post h =>
    obtain ⟨-, rfl⟩ := post_eq_ok h
    simpa using hs
  | write _ h =>
    obtain ⟨-, rfl⟩ := write_eq_ok h
    simpa using hs
  | request _ _ h =>
    obtain ⟨-, rfl⟩ := request_eq_ok h
    simpa using hs
  | refuse => exact hs
  | giveUp hc => simpa [giveUp, hc] using hs
  | start h =>
    obtain ⟨hidle, rfl⟩ := start_eq_ok h
    have hidle' : s.intake.idle = true := by simp [hidle]
    have hattached := hs.attach hidle' (o := Opener.create key role s.engine.settings.maxRead)
      rfl rfl rfl (s.engine.readDue env.now)
    simpa using hattached
  | abandon =>
    cases hr : s.engine.drive with
    | none => simpa [abandon, hr] using hs
    | some r =>
      simpa [abandon, hr] using hs.detach
  | step h => exact inbound_stepped (stepped_of_step h) hs

/-- **Whatever happens, the bytes an engine takes are in their places.** -/
theorem inbound_of_reachable {w : World} (h : World.Reachable key role w) :
    Inbound key role.inbound w.intake w.inlet := by
  refine World.Reachable.induct
    (motive := fun w => Inbound key role.inbound w.intake w.inlet) ?_ ?_ h
  · exact fun c out inc => .waiting rfl rfl rfl rfl
  · intro w w' _ ih hstep
    cases hstep with
    | near h => exact inbound_move h ih
    | far => exact ih

theorem incoming_stepped (h : Stepped env s.engine s.stream e stream events) :
    ∃ bs, bs ++ stream.incoming.held = s.stream.incoming.held := by
  cases h with
  | collected _ _ hadv => exact Opener.advance_held hadv
  | readEnded _ _ hadv => exact Opener.advance_held hadv
  | handed _ _ hadv => exact Opener.advance_held hadv
  | resolved _ _ hadv => exact Opener.advance_held hadv
  | overflowed _ _ _ hadv => exact Opener.advance_held hadv
  | _ => exact ⟨[], rfl⟩

/-- A move takes bytes from the front of the incoming pipe, and logs them. -/
theorem Move.reads (h : Move key role env s s') :
    ∃ bs, bs ++ s'.stream.incoming.held = s.stream.incoming.held ∧
      s'.log.taken = s.log.taken ++ bs := by
  have hlogged : ∀ e stream events,
      (∃ bs, bs ++ stream.incoming.held = s.stream.incoming.held) →
      ∃ bs, bs ++ stream.incoming.held = s.stream.incoming.held ∧
        (s.logged e stream events).taken = s.log.taken ++ bs := by
    rintro e stream events ⟨bs, hbs⟩
    exact ⟨bs, hbs, by rw [Site.taken_logged, Site.gone_eq hbs]⟩
  cases h with
  | post => exact hlogged _ _ _ ⟨[], rfl⟩
  | @write _ _ e => exact hlogged e s.stream [] ⟨[], rfl⟩
  | @request _ _ _ _ e => exact hlogged e s.stream [] ⟨[], rfl⟩
  | refuse => exact ⟨[], rfl, (List.append_nil _).symm⟩
  | giveUp => exact ⟨[], rfl, (List.append_nil _).symm⟩
  | start => exact hlogged _ _ _ ⟨[], rfl⟩
  | abandon =>
    refine hlogged _ _ _ ⟨[], ?_⟩
    rw [Engine.abandon]
    split <;> rfl
  | step h => exact hlogged _ _ _ (incoming_stepped (stepped_of_step h))

end
end Parley.Engine
