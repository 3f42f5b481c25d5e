import Parley.Proofs.Engine.Settlement

/-! What arrives at the far end of a stream.

The frames that are complete in the bytes the far end has read, the frames handed to the
stream, and the frames accepted into the queue, are each a beginning of the next, at every
moment of every run (`delivery`). A call that fails has no frame among those handed to the
stream, and never will; and a drive that ends without trouble leaves nothing behind. -/
namespace Parley.Engine
open Channel

variable {key : SessionKey} {role : Role} {d : Direction} {w w' : World}

/-- The frames that are complete in what the far end has read. -/
def World.arrived (key : SessionKey) (role : Role) (w : World) : List Frame :=
  framesIn key role.outbound 0 w.heard

theorem spellable_frames {os : List Outgoing} (h : ∀ o ∈ os, o.frame.Spellable) :
    ∀ f ∈ frames os, f.Spellable := by
  intro f hf
  obtain ⟨o, ho, rfl⟩ := List.mem_map.mp hf
  exact h o ho

/-- A frame that is cut short is not complete in any of the bytes that left the engine. -/
theorem Flow.framesIn_first {v : Outlook} {cut : List Outgoing} {rest heard held : Bytes}
    (h : Flow key d v cut rest) (hout : v.out = heard ++ held) :
    framesIn key d 0 heard <+: frames v.written := by
  have hbytes := h.bytes
  rw [hout, List.append_assoc] at hbytes
  obtain ⟨hfirst, hall⟩ := Channel.framesIn_first key d (spellable_frames h.spellable) hbytes
  cases hcut : cut with
  | nil =>
    rw [hcut, List.append_nil] at hfirst
    exact hfirst
  | cons x xs =>
    have hsingle := h.single
    rw [hcut, List.length_cons] at hsingle
    obtain rfl : xs = [] := List.eq_nil_of_length_eq_zero (by omega)
    have hframes : frames (v.written ++ cut) = frames v.written ++ [x.frame] := by
      rw [hcut, frames_append]
      rfl
    rw [hframes] at hfirst hall
    rcases List.prefix_concat_iff.mp hfirst with heq | hpre
    · have hrest := (List.append_eq_nil_iff.mp (hall heq)).2
      exact absurd hrest (h.missing (by rw [hcut]; exact List.cons_ne_nil x []))
    · exact hpre

theorem arrived_of_written (h : World.Reachable key role w) :
    w.arrived key role <+: frames w.log.written := by
  obtain ⟨cut, rest, hflow⟩ := (outbound_of_reachable h).flow
  exact hflow.framesIn_first rfl

theorem written_of_accepted (h : World.Reachable key role w) :
    w.log.written <+: w.log.accepted := by
  obtain ⟨cut, rest, hflow⟩ := (outbound_of_reachable h).flow
  exact (List.prefix_append ..).trans hflow.order

/-- A call that waited for its frame succeeds exactly if the frame was handed to the stream. -/
theorem written_iff_done (h : World.Reachable key role w) {x : Outgoing} (hx : x ∈ w.log.accepted)
    {id : CallId} (hid : x.waiter = some id) {o : Outcome} (ho : (id, o) ∈ w.log.returned) :
    x ∈ w.log.written ↔ o = .done := by
  have hk := kept_of_reachable h
  obtain ⟨-, hkept, hgone⟩ := hk.named.returned id o ho
  have hcame : w.ledger.CameTo id o := .inl ho
  constructor
  · intro hwritten
    have hdone := ((hk.queued.written x hwritten).2 id hid).resolve_left hkept
    exact hk.named.cameTo_inj hcame hdone
  · rintro rfl
    rcases hk.queued.settled x hx id hid with hdone | hwaiting | hrefused
    · exact hdone
    · rcases (hk.queued.pending x hwaiting).2 id hid with hdrop | ⟨c, hc, hcid, -⟩
      · exact absurd hdrop hkept
      · exact absurd hcid (hgone c hc)
    · have := hk.named.cameTo_inj hcame (hrefused.resolve_left hkept)
      cases this

/-- The frames that have arrived are the first of those accepted, and were handed over. -/
theorem mem_written_of_arrived (h : World.Reachable key role w) {x : Outgoing}
    (hx : x ∈ w.log.accepted.take (w.arrived key role).length) : x ∈ w.log.written := by
  have hlength := (arrived_of_written h).length_le
  rw [length_frames] at hlength
  obtain ⟨rest, hrest⟩ := written_of_accepted h
  rw [← hrest, List.take_append_of_le_length hlength] at hx
  exact List.mem_of_mem_take hx

/-- A drive that ended without trouble has handed over every frame, and every byte. -/
theorem all_out_of_clean (h : World.Reachable key role w) (hended : w.log.ended ≠ [])
    (hclean : w.log.troubles = []) :
    w.log.written = w.log.accepted ∧
      w.heard ++ w.stream.outgoing.held = wire key role.outbound 0 (frames w.log.accepted) := by
  have hended' : w.outlook.ended = true := decide_eq_true hended
  cases hbound : w.lane with
  | some l =>
    have ho := outbound_of_reachable h
    rw [hbound] at ho
    cases ho with
    | driven hc =>
      have := hc.running
      rw [hended'] at this
      cases this
  | none =>
    have ho := outbound_of_reachable h
    rw [hbound] at ho
    cases ho with
    | waiting _ hrunning =>
      rw [hended'] at hrunning
      cases hrunning
    | left _ hflow _ hall =>
      obtain ⟨hwritten, rfl, rfl⟩ := hall hended' hclean
      have hbytes := hflow.bytes
      rw [List.append_nil, List.append_nil, hwritten] at hbytes
      exact ⟨hwritten, hbytes⟩

/-- What has left an engine begins the wire of what it is to send. -/
theorem out_prefix {fs : List Frame} (h : World.Reachable key role w)
    (hfs : frames w.log.accepted <+: fs) :
    w.heard ++ w.stream.outgoing.held <+: wire key role.outbound 0 fs := by
  obtain ⟨cut, left, hflow⟩ := (outbound_of_reachable h).flow
  obtain ⟨more, rfl⟩ : frames (w.log.written ++ cut) <+: fs := (frames_mono hflow.order).trans hfs
  have hbytes : w.heard ++ w.stream.outgoing.held ++ left =
      wire key role.outbound 0 (frames (w.log.written ++ cut)) := hflow.bytes
  rw [wire_append, ← hbytes]
  exact (List.prefix_append _ left).trans (List.prefix_append ..)

/-- A write loop that waits, with nothing queued or buffered, has handed over every frame, and
every byte. -/
theorem all_out_of_waiting {r : Drive} (h : World.Reachable key role w)
    (hr : w.engine.drive = some r) (hwaiting : r.writing = .waiting) (hqueue : w.engine.queue = [])
    (hbuffer : r.sealer.outlet.held = []) :
    w.log.written = w.log.accepted ∧
      w.heard ++ w.stream.outgoing.held = wire key role.outbound 0 (frames w.log.accepted) := by
  have hcarries := (outbound_of_reachable h).carries hr
  have hcurrent : r.lane.current = [] := by rw [Lane.current, Drive.lane, hwaiting]; rfl
  have hleft : r.lane.left = [] := by rw [Lane.left, Drive.lane, hwaiting]; rfl
  have hrest : r.lane.rest = [] := by rw [Drive.lane, hwaiting]; rfl
  have hheld : r.lane.sealer.outlet.held = [] := hbuffer
  have hnone : w.outlook.queue = [] := hqueue
  have horder := hcarries.order
  have hbytes := hcarries.bytes
  rw [hcurrent, hrest, hnone, List.append_nil, List.append_nil, List.append_nil] at horder
  rw [hcurrent, hleft, hheld, List.append_nil, List.append_nil, List.append_nil, ← horder]
    at hbytes
  exact ⟨horder.symm, hbytes⟩

/-- **Frames arrive in the order of their acceptance, with none missing, twice or out of
place.** What has arrived begins what was handed over, and this what was accepted; a call
that waited succeeds exactly if its frame was handed over; the frame of a call that failed
has not arrived and never will; and if the drive ends without trouble and the far end reads
to the end, everything has arrived. -/
theorem delivery (h : World.Reachable key role w) :
    w.arrived key role <+: frames w.log.written ∧
    w.log.written <+: w.log.accepted ∧
    (∀ x ∈ w.log.accepted, ∀ id o, x.waiter = some id → (id, o) ∈ w.log.returned →
      (x ∈ w.log.written ↔ o = .done)) ∧
    (∀ id err, (id, .failed err) ∈ w.log.returned → ∀ w', World.Leads key role w w' →
      ∀ x ∈ w'.log.accepted.take (w'.arrived key role).length, x.waiter ≠ some id) ∧
    (w.log.ended ≠ [] → w.log.troubles = [] → w.stream.outgoing.held = [] →
      w.log.written = w.log.accepted ∧ w.arrived key role = frames w.log.accepted) := by
  refine ⟨arrived_of_written h, written_of_accepted h, ?_, ?_, ?_⟩
  · intro x hx id o hid ho
    exact written_iff_done h hx hid ho
  · intro id err hfailed w' hlater x hx hid
    have hreach := h.leads hlater
    have hstill := (World.grows_leads hlater).returned.subset hfailed
    have hin : x ∈ w'.log.accepted := List.mem_of_mem_take hx
    have hdone := (written_iff_done hreach hin hid hstill).mp (mem_written_of_arrived hreach hx)
    cases hdone
  · intro hended hclean hread
    obtain ⟨hwritten, hbytes⟩ := all_out_of_clean h hended hclean
    obtain ⟨cut, rest, hflow⟩ := (outbound_of_reachable h).flow
    have hspell : ∀ f ∈ frames w.log.accepted, f.Spellable := by
      rw [← hwritten]
      exact spellable_frames fun o ho => hflow.spellable o (List.mem_append_left cut ho)
    rw [hread, List.append_nil] at hbytes
    refine ⟨hwritten, ?_⟩
    rw [World.arrived, hbytes, framesIn_wire key role.outbound hspell]

/-- The only frame of an engine that is cancelled arrives. -/
theorem request_arrives : ∃ w, World.Reachable ⟨[7]⟩ .client w ∧ w.log.ended ≠ [] ∧
    w.log.accepted = [{ frame := ⟨1, [1]⟩ }] ∧ w.arrived ⟨[7]⟩ .client = [⟨1, [1]⟩] := by
  obtain ⟨w, h, hended, hclean, hread, -, haccepted⟩ := exists_life ⟨[7]⟩
  have hne : w.log.ended ≠ [] := by
    rw [hended]
    exact List.cons_ne_nil _ _
  refine ⟨w, h, hne, haccepted, ?_⟩
  rw [((delivery h).2.2.2.2 hne hclean hread).2, haccepted]
  rfl

end Parley.Engine
