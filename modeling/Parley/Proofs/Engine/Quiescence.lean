import Parley.Proofs.Engine.Loops
import Parley.Proofs.Engine.Pair

/-! Two engines that have nothing left to do.

As long as both ends of a stream are served, they come to rest only when everything accepted
at either end has been received at the other (`rest_is_complete`). Where no task can go on,
the readers have emptied the pipes, so that no writer can be waiting for room; the writers
wait to be notified, with nothing in their queues and buffers. -/
namespace Parley.Engine
open Channel

variable {key : SessionKey} {role : Role} {env : Env} {s s' : Site} {e : Engine} {d : Duplex}
  {events : List Event}

/-! ### Pipes keep their size -/

/-- How much the two pipes hold. -/
def capacities (d : Duplex) : Nat × Nat := (d.outgoing.capacity, d.incoming.capacity)

theorem capacities_stepped (h : Stepped env s.engine s.stream e d events) :
    capacities d = capacities s.stream := by
  have hreads : ∀ {o o' c p reading}, Opener.advance c o s.stream.incoming = some (reading, o', p) →
      p.capacity = s.stream.incoming.capacity := fun hadv => by
    rw [Opener.advance_pipe hadv]
  cases h with
  | draining _ _ hadv
  | closed _ _ hadv
  | placing _ _ hadv
  | placed _ _ hadv
  | flushing _ _ hadv
  | flushed _ _ hadv =>
    exact Prod.ext (Sealer.advance_advanced hadv).capacity rfl
  | collected _ _ hadv
  | readEnded _ _ hadv
  | handed _ _ hadv
  | resolved _ _ hadv
  | overflowed _ _ _ hadv => exact Prod.ext rfl (hreads hadv)
  | _ => rfl

theorem capacities_move (h : Move key role env s s') :
    capacities s'.stream = capacities s.stream := by
  cases h with
  | abandon =>
    show capacities (s.engine.abandon s.stream).2 = _
    rw [Engine.abandon]
    split <;> rfl
  | step h => exact capacities_stepped (stepped_of_step h)
  | _ => rfl

namespace Pair
variable {reply : Role → Bytes → Option Bytes} {p : Pair} {c : Role → Config.Connection}
  {out inc : Nat} {r : Role}

theorem capacities_of_leads (h : Leads key reply (fresh c out inc) p) :
    capacities p.stream = (out, inc) := by
  induction h with
  | refl => rfl
  | tail _ hstep ih =>
    obtain @⟨r, env, s, -, hm⟩ := hstep
    rw [← ih]
    have hsame := capacities_move hm
    cases r with
    | client => exact hsame
    | server => exact Prod.ext (Prod.ext_iff.mp hsame).2 (Prod.ext_iff.mp hsame).1

theorem capacity_pos (h : Leads key reply (fresh c out inc) p) (hout : 0 < out) (hinc : 0 < inc)
    (r : Role) : 0 < (p.site r).stream.outgoing.capacity := by
  obtain ⟨hclient, hserver⟩ := Prod.ext_iff.mp (capacities_of_leads h)
  cases r with
  | client => exact Nat.lt_of_lt_of_eq hout hclient.symm
  | server => exact Nat.lt_of_lt_of_eq hinc hserver.symm

end Pair

/-! ### An end that has nothing to do -/

/-- A reader that waits has emptied its pipe, and a writer that waits has nothing left to hand
over, or no room. -/
theorem stuck_of_served {r : Drive} (hl : Loops e r) (hr : e.drive = some r)
    (hserving : r.control = .serving) (hattentive : env.attentive = true)
    (hstuck : ∀ t, e.step env t d = none) :
    (∃ c due, r.reading = .reading c due ∧ r.opener.ahead = [] ∧ d.incoming.held = []) ∧
      (d.outgoing.room = 0 ∨
        (r.writing = .waiting ∧ e.queue = [] ∧ r.sealer.outlet.held = [])) := by
  have hserved : r.control.isServing = true := by rw [hserving]; rfl
  constructor
  · have hreads : r.control.reads = true := by rw [hserving]; rfl
    exact (stepRead_eq_none hr hreads hattentive (hstuck .read)).resolve_left (hl.reads hserved)
  · rcases stepWrite_eq_none hr (hstuck .write) with ⟨hwaiting, hnotified⟩ | hended | ⟨hroom, -⟩
    · refine .inr ⟨hwaiting, ?_, hl.flushed (by rw [hwaiting]; rfl)⟩
      by_contra hqueue
      rcases hl.notice hwaiting (.inl hqueue) with howed | hstored
      · exact howed (stepNotify_eq_none (hstuck .notify))
      · rw [hnotified] at hstored
        cases hstored
    · have hclosing := hl.writes.mp hended
      rw [hserving] at hclosing
      cases hclosing
    · exact .inl hroom

/-- Nothing that is to be sent or received is on its way at this end. -/
structure Site.Rests (s : Site) : Prop where
  drive : ∃ r due, s.engine.drive = some r ∧ r.writing = .waiting ∧
    r.sealer.outlet.held = [] ∧ r.opener.ahead = [] ∧ r.reading = .reading [] due
  queue : s.engine.queue = []
  outgoing : s.stream.outgoing.held = []
  incoming : s.stream.incoming.held = []

theorem nothing_ahead {o : Opener} {p : Pipe} (h : o.Ahead [] p [] []) :
    o.ahead = [] ∧ p.held = [] := by
  simpa [wire] using h.bytes

/-- An end that rests, is owed nothing, and is neither cancelled nor past a deadline, has no
task that can go on. -/
theorem Site.Rests.stuck (h : s.Rests) {r : Drive} (hr : s.engine.drive = some r)
    (hserving : r.control = .serving) (howed : s.engine.owed = 0)
    (hnotified : s.engine.notified = false) (hopen : s.stream.incoming.closed = false)
    (hcancelled : env.cancelled = false) (hearly : ∀ due ∈ s.engine.dues, env.now < due)
    (hcalls : ∀ c ∈ s.engine.calls, c.answer = none) (t : Task) :
    s.engine.step env t s.stream = none := by
  obtain ⟨⟨r', due, hr', hwaiting, -, hahead, hread⟩, -, -, hheld⟩ := h
  obtain rfl : r = r' := Option.some.inj (hr.symm.trans hr')
  cases t with
  | notify => simp [step, stepNotify, howed]
  | call id =>
    cases hc : s.engine.calls.find? (·.id == id) with
    | none => simp [step, stepCall, hc]
    | some c =>
      have hmem := List.mem_of_find?_eq_some hc
      cases hwait : c.wait with
      | written => simp [step, stepCall, hc, hcalls c hmem, hwait]
      | response seq due =>
        have hdue : env.now < due := hearly due (mem_dues_of_call hmem hwait)
        simp [step, stepCall, hc, hcalls c hmem, hwait, hdue]
  | cancel => simp [step, stepCancel, hr, hserving, hcancelled]
  | read =>
    have hnothing : r.opener.advance [] s.stream.incoming = none := by
      simp [Opener.advance, hahead, Pipe.pull, hheld, hopen]
    have hdue : expired due .read env.now = none :=
      Drive.read_early hread fun due hdue => hearly due (mem_dues_of_drive hr hdue)
    simp [step, stepRead, hr, hserving, Control.reads, hread, hnothing, hdue]
  | write => simp [step, stepWrite, hr, hwaiting, hnotified]
  | close => simp [step, stepClose, hr, hserving]

/-- A wire that is whole but for a beginning of a frame is whole. -/
theorem frames_of_wire {dir : Direction} {n : Nat} {fs gs : List Frame} {c : Bytes}
    (hfs : ∀ f ∈ fs, f.Spellable) (hgs : ∀ g ∈ gs, g.Spellable)
    (h : wire key dir n fs ++ c = wire key dir n gs) (hshort : c.length < Opener.needed c) :
    fs = gs ∧ c = [] := by
  obtain ⟨hs, rfl⟩ := prefix_of_wire key dir hfs hgs h
  rw [wire_append] at h
  have hc := List.append_cancel_left h
  rw [hc] at hshort
  obtain rfl := eq_nil_of_wire key dir (fun f hf => hgs f (List.mem_append_right fs hf)) hshort
  exact ⟨(List.append_nil fs).symm, hc⟩

/-! ### Two ends that have nothing to do -/

namespace Pair
variable {reply : Role → Bytes → Option Bytes} {p : Pair} {c : Role → Config.Connection}
  {out inc : Nat} {r : Role}

/-- With nothing under way from the other end, all that it accepted has been received. -/
theorem received_all (h : Reachable key reply p) {a b : Drive}
    (ha : (p.site r).engine.drive = some a) (hb : (p.site r.opposite).engine.drive = some b)
    {c : Bytes} {due : Option Nat} (hread : a.reading = .reading c due)
    (hahead : a.opener.ahead = [])
    (hwaiting : b.writing = .waiting) (hbuffer : b.sealer.outlet.held = [])
    (hqueue : (p.site r.opposite).engine.queue = [])
    (hpipe : (p.site r.opposite).stream.outgoing.held = []) :
    (p.parties r).log.received = frames (p.parties r.opposite).log.accepted ∧ c = [] := by
  have htakes := (h.inbound r).takes ha
  obtain ⟨htaken, hshort, -⟩ := htakes.place c (by rw [hread]; rfl)
  obtain ⟨horder, hbytes⟩ := all_out_of_waiting (h.world r.opposite) hb hwaiting hqueue hbuffer
  have hspell := ((outbound_of_reachable (h.world r.opposite)).carries hb).spellable
  have hwritten : ∀ o ∈ (p.parties r.opposite).log.accepted, o.frame.Spellable := fun o ho => by
    have hmem : o ∈ (p.world r.opposite).log.written := by
      rw [horder]
      exact ho
    exact hspell o (List.mem_append_left _ hmem)
  -- What has left the one end was taken by the other.
  have hout : (p.world r.opposite).heard ++ (p.world r.opposite).stream.outgoing.held =
      (p.parties r).log.taken := by
    show (p.parties r.opposite.opposite).log.taken ++ (p.site r.opposite).stream.outgoing.held = _
    rw [Role.opposite_opposite, hpipe, List.append_nil]
  have htaken' : (p.parties r).log.taken =
      wire key r.inbound 0 (p.parties r).log.received ++ c ++ a.opener.ahead := htaken
  rw [hout, htaken', hahead, List.append_nil, Role.outbound_opposite] at hbytes
  exact frames_of_wire htakes.spellable (spellable_frames hwritten) hbytes hshort

/-- **Two ends at rest have nothing under way.** While neither was cancelled nor has met an
error, and whatever the pipes hold, a state in which no task of either end can go on is one
in which all that was accepted at either end has been received at the other, in order and
once. -/
theorem rest_is_complete (h : Leads key reply (fresh c out inc) p) (hout : 0 < out)
    (hinc : 0 < inc) (env : Role → Env) (hattentive : ∀ r, (env r).attentive = true)
    (hserving : ∀ r, ∃ a, (p.site r).engine.drive = some a ∧ a.control = .serving)
    (hstuck : ∀ r t, (p.site r).engine.step (env r) t (p.site r).stream = none) :
    ∀ r, (p.site r).Rests ∧
      (p.parties r).log.received = frames (p.parties r.opposite).log.accepted := by
  have hreach : Reachable key reply p := ⟨c, out, inc, h⟩
  have hstill : ∀ r a, (p.site r).engine.drive = some a → a.control = .serving → _ :=
    fun r a ha hserve => stuck_of_served (loops_of_reachable (hreach.world r) ha) ha hserve
      (hattentive r) (hstuck r)
  have hempty : ∀ r, (p.site r).stream.incoming.held = [] := fun r => by
    obtain ⟨a, ha, hserve⟩ := hserving r
    obtain ⟨⟨-, -, -, -, hheld⟩, -⟩ := hstill r a ha hserve
    exact hheld
  -- Each pipe is the incoming one of an end, so both are empty.
  have hpipe : ∀ r, (p.site r).stream.outgoing.held = [] := fun r => by
    have hheld := hempty r.opposite
    rwa [stream_opposite] at hheld
  have hwriter : ∀ r a, (p.site r).engine.drive = some a → a.control = .serving →
      a.writing = .waiting ∧ (p.site r).engine.queue = [] ∧ a.sealer.outlet.held = [] :=
    fun r a ha hserve => by
    refine (hstill r a ha hserve).2.resolve_left fun hroom => ?_
    have hpos := capacity_pos h hout hinc r
    rw [Pipe.room, hpipe r, List.length_nil] at hroom
    omega
  intro r
  obtain ⟨a, ha, hserve⟩ := hserving r
  obtain ⟨b, hb, hserve'⟩ := hserving r.opposite
  obtain ⟨⟨c, due, hread, hahead, hheld⟩, -⟩ := hstill r a ha hserve
  obtain ⟨hwaiting, hqueue, hbuffer⟩ := hwriter r a ha hserve
  obtain ⟨hwaiting', hqueue', hbuffer'⟩ := hwriter r.opposite b hb hserve'
  obtain ⟨hall, rfl⟩ := received_all hreach ha hb hread hahead hwaiting' hbuffer' hqueue'
    (hpipe r.opposite)
  exact ⟨⟨⟨a, due, ha, hwaiting, hbuffer, hahead, hread⟩, hqueue, hpipe r, hheld⟩, hall⟩

/-- A request that its application takes and does not reply to brings both ends to rest. -/
theorem exists_rest (key : SessionKey) : ∃ p : Pair,
    Leads key (fun _ _ => none) (fresh (fun _ => {}) 100 100) p ∧
    (∀ r, ∃ a, (p.site r).engine.drive = some a ∧ a.control = .serving) ∧
    (∀ r t, (p.site r).engine.step (prompt false fun _ => none) t (p.site r).stream = none) ∧
    (p.parties .client).log.accepted = [{ frame := ⟨1, [1]⟩ }] := by
  let settings : Settings := ({} : Config.Connection).settings
  let env : Env := prompt false fun _ => none
  let f : Frame := ⟨1, [1]⟩
  let p₀ : Pair := fresh (fun _ => {}) 100 100
  -- The client makes a request, sends it and waits.
  let client : Site := .asked key .client env settings roomy [1] 1 9
  have hclient : Moves key .client env (p₀.site .client) client := asks rfl roomy 1 9
  let first : Drive := firstDrive key .client env settings
  let sent : Site := client.sent first (wire key .clientToServer 0 [f])
  have hsent : Moves key .client env client sent :=
    sends_byte rfl rfl rfl rfl rfl rfl rfl rfl rfl (by decide : 25 ≤ 100)
  let last : Drive := { first with sealer.nonces.counter := 1 }
  have hsettles : Moves key .client env sent (sent.settled last) := settles rfl rfl rfl rfl rfl
  let p₁ : Pair := p₀.put .client (sent.settled last)
  have hfirst : Leads key (fun _ _ => none) p₀ p₁ :=
    p₀.leads rfl ((hclient.trans hsent).trans hsettles)
  -- The server's application takes it, and the server waits.
  let first' : Drive := firstDrive key .server env settings
  let server : Site := .started key .server env settings sent.stream.flip
  have hserver : Move key .server env (p₁.site .server) server :=
    starts settings sent.stream.flip
  have hahead : first'.opener.Ahead [] sent.stream.outgoing [] [f] :=
    ahead_first settings rfl rfl (spellable_byte 1) rfl
  obtain ⟨o, inc, bs, hrest, ⟨hclosed, -⟩, hgiven⟩ : ∃ o inc bs, o.Ahead [] inc [] [] ∧
      (inc.closed = false ∧ inc.capacity = 100) ∧ Moves key .server env server
        (server.given env { first' with opener := o } f inc bs) :=
    receives (s := server) (r := first') env rfl rfl rfl hahead
  obtain ⟨hahead', hheld⟩ := nothing_ahead hrest
  let last' : Drive := { first' with opener := o }
  let given : Site := server.given env last' f inc bs
  let handed : Site := given.handed env { last' with reading := .handling f } f
  have hhanded : Move key .server env given handed := hands rfl rfl rfl rfl rfl
  let rests : Site :=
    { handed with engine := handed.engine.driving { last' with writing := .waiting } }
  have hrests : Move key .server env handed rests := waits rfl rfl rfl rfl
  let p₂ : Pair := p₁.put .server rests
  have hmoves : Moves key .server env (p₁.site .server) rests :=
    (Relation.ReflTransGen.head hserver hgiven).trans (.head hhanded (.single hrests))
  have hsecond : Leads key (fun _ _ => none) p₁ p₂ := p₁.leads rfl hmoves
  have hclient' : (p₂.site .client).Rests :=
    ⟨⟨{ last with writing := .waiting }, none, rfl, rfl, rfl, rfl, rfl⟩, rfl, hheld, rfl⟩
  have hserver' : (p₂.site .server).Rests :=
    ⟨⟨{ last' with writing := .waiting }, none, rfl, rfl, rfl, hahead', rfl⟩,
      rfl, rfl, hheld⟩
  refine ⟨p₂, hfirst.trans hsecond, ?_, ?_, rfl⟩
  · rintro (_ | _)
    · exact ⟨_, rfl, rfl⟩
    · exact ⟨_, rfl, rfl⟩
  · rintro (_ | _)
    · exact hclient'.stuck rfl rfl rfl rfl rfl rfl (by decide : ∀ due ∈ [9], 0 < due)
        (List.forall_mem_singleton.mpr rfl)
    · exact hserver'.stuck rfl rfl rfl rfl hclosed rfl (fun _ h => nomatch h) (fun _ h => nomatch h)

/-- One byte is asked for at one end, and has been received at the other when both rest. -/
theorem request_at_rest : ∃ p : Pair,
    Leads ⟨[7]⟩ (fun _ _ => none) (fresh (fun _ => {}) 100 100) p ∧
    (∀ r, (p.site r).Rests) ∧ (p.parties .server).log.received = [⟨1, [1]⟩] := by
  obtain ⟨p, h, hserving, hstuck, haccepted⟩ := exists_rest ⟨[7]⟩
  have hdone := rest_is_complete h (by decide) (by decide) (fun _ => prompt false fun _ => none)
    (fun _ => rfl) hserving hstuck
  refine ⟨p, h, fun r => (hdone r).1, ?_⟩
  rw [(hdone .server).2, show Role.server.opposite = .client from rfl, haccepted]
  rfl

end Pair
end Parley.Engine
