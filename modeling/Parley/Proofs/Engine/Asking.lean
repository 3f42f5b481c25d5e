import Parley.Proofs.Engine.Answering

/-! An engine that makes one call.

The call is a message, or a request of which the same payload comes back (`Query`). It waits, is
told its outcome, and returns; then the engine is cancelled, empties its queue, and ends
(`Asked`). Its far end keeps the stream open, sends what comes back and nothing else, and no
deadline passes. Then nothing goes wrong: every step goes on quietly, or the call returns with its
outcome, or the drive ends as a success when all bytes of the frame are out
(`Asking.stepped`). Where the engine can make no step it waits for room, or for the response
(`Asking.stuck`). -/
namespace Parley.Engine
open Channel

/-- A call that an engine makes first of all. -/
inductive Query where
  | message (id : CallId) (payload : Bytes)
  | request (id : CallId) (payload : Bytes) (capacity due : Nat)

namespace Query

def id : Query → CallId
  | message id _ => id
  | request id .. => id

def ask (e : Engine) : Query → Except Error Engine
  | message id payload => e.write id payload
  | request id payload capacity due => e.request id payload capacity due

def outgoing : Query → Outgoing
  | message id payload => { frame := ⟨Frame.noResponse, payload⟩, waiter := some id }
  | request _ payload .. => { frame := ⟨1, payload⟩ }

def wait : Query → Wait
  | message .. => .written
  | request _ _ _ due => .response 1 due

def table : Query → List Awaited
  | message .. => []
  | request id _ capacity _ => [{ seq := 1, call := id, capacity }]

/-- What comes back if every payload does. -/
def back : Query → List Frame
  | message .. => []
  | request _ payload .. => [⟨1, payload⟩]

def outcome : Query → Outcome
  | message .. => .done
  | request _ payload .. => .response payload

theorem length_back_le (q : Query) : q.back.length ≤ 1 := by
  cases q with
  | message => exact Nat.zero_le 1
  | request => exact Nat.le_refl 1

/-- Whether the caller can take what comes back. -/
def Taken : Query → Prop
  | message .. => True
  | request _ payload capacity _ => payload.length ≤ capacity

end Query

/-- Where the call is. -/
inductive Asked where
  | waiting
  | told
  | returned
  deriving DecidableEq

namespace Asked

def calls (q : Query) : Asked → List Call
  | waiting => [{ id := q.id, wait := q.wait }]
  | told => [{ id := q.id, wait := q.wait, answer := some q.outcome }]
  | returned => []

def table (q : Query) : Asked → List Awaited
  | waiting => q.table
  | _ => []

/-- What is still to come back. -/
def back (q : Query) : Asked → List Frame
  | waiting => q.back
  | _ => []

end Asked

variable {key : SessionKey} {env : Env} {q : Query} {a a' : Asked} {x y : Attended} {r r' : Drive}
  {e : Engine} {d : Duplex} {events : List Event} {t : Task}

/-! ### Where the engine is -/

/-- Where the call and the loops are. -/
structure Asking.Place (q : Query) (a : Asked) (x : Attended) (r : Drive) : Prop where
  drive : x.engine.drive = some r
  calls : x.engine.calls = a.calls q
  table : x.engine.table = a.table q
  ahead : ∃ c due, r.reading = .reading c due ∧
    r.opener.Ahead c x.stream.incoming x.coming (a.back q)
  control : a ≠ .returned → r.control = .serving
  stopped : x.engine.stopped = !r.control.isServing
  result : r.control.writeEnded (.ok ()) = .ok ()
  unwritten : a = .waiting → q.outgoing.waiter ≠ none → x.log.written = []

/-- Where an engine can be that makes one call. -/
structure Asking (key : SessionKey) (q : Query) (a : Asked) (x : Attended) (r : Drive) : Prop where
  world : World.Reachable key .client x.toWorld
  troubles : x.log.troubles = []
  accepted : x.log.accepted = [q.outgoing]
  running : x.log.ended = []
  opened : x.stream.outgoing.closed = false
  listening : x.stream.incoming.closed = false
  fits : q.outgoing.frame.Fits x.engine.settings.maxWrite
  taken : q.Taken
  place : Asking.Place q a x r

/-- The call is taken as the first: its frame is queued, and it waits. -/
theorem exists_asked (key : SessionKey) (q : Query) (c : Config.Connection) (d : Duplex) (env : Env)
    (hfits : q.outgoing.frame.Fits c.settings.maxWrite) :
    ∃ sequence calls issued e,
      e = { (Site.started key .client env c.settings d).engine.enqueue q.outgoing with
        sequence, calls := Asked.waiting.calls q, table := Asked.waiting.table q } ∧
      q.ask (Site.started key .client env c.settings d).engine = .ok e ∧
      Move key .client env (.started key .client env c.settings d)
        { engine := e
          stream := d
          log := { (Site.started key .client env c.settings d).logged e d [] with
            calls, issued } } := by
  have hcheck : Frame.checkPayload q.outgoing.frame.payload.length
      (Site.started key .client env c.settings d).engine.settings.maxWrite = .ok () := hfits.payload
  have hnone : (Site.started key .client env c.settings d).engine.refusal
      q.outgoing.frame.payload.length = none := by
    rw [refusal, hcheck]
    rfl
  cases q with
  | message id payload =>
    have hasked : (Site.started key .client env c.settings d).engine.write id payload = .ok
        { (Site.started key .client env c.settings d).engine.enqueue
            (Query.message id payload).outgoing with
          calls := Asked.waiting.calls (.message id payload) } := by
      have hnone' : Engine.refusal _ payload.length = none := hnone
      rw [write, hnone']
      rfl
    exact ⟨_, _, _, _, rfl, hasked, .write List.not_mem_nil hasked⟩
  | request id payload capacity due =>
    have hasked : (Site.started key .client env c.settings d).engine.request id payload capacity
        due = .ok
        { (Site.started key .client env c.settings d).engine.enqueue
            (Query.request id payload capacity due).outgoing with
          sequence := ⟨1⟩
          calls := Asked.waiting.calls (.request id payload capacity due)
          table := Asked.waiting.table (.request id payload capacity due) } := by
      have hnone' : Engine.refusal _ payload.length = none := hnone
      rw [request, hnone']
      rfl
    have hfree : 0 < UInt32.size - 1 := by decide
    exact ⟨_, _, _, _, rfl, hasked, .request List.not_mem_nil hfree hasked⟩

/-- **The call was just made**, on a stream with nothing of the engine's own in it. -/
theorem asking_asked {c : Config.Connection} (env : Env) (hempty : d.outgoing.held = [])
    (hopened : d.outgoing.closed = false) (hlistening : d.incoming.closed = false)
    (hfits : q.outgoing.frame.Fits c.settings.maxWrite) (htaken : q.Taken)
    (hback : ∀ f ∈ q.back, f.Spellable ∧ Admits c.settings.maxRead f) {coming : Bytes}
    (hcoming : d.incoming.held ++ coming = wire key .serverToClient 0 q.back) :
    ∃ e log, q.ask (Site.started key .client env c.settings d).engine = .ok e ∧
      log.taken = [] ∧
      Asking key q .waiting { engine := e, stream := d, log, coming }
        (firstDrive key .client env c.settings) := by
  have hahead := ahead_started key .client env hlistening hback
    (Nat.le_trans q.length_back_le (by decide)) hcoming
  obtain ⟨_, _, _, e, rfl, hasked, hmove⟩ := exists_asked key q c d env hfits
  refine ⟨_, _, hasked, Site.gone_self (.started key .client env c.settings d), {
    world := (reachable_started key .client env c hempty).leads (.single (.near hmove))
    troubles := rfl
    accepted := rfl
    running := rfl
    opened := hopened
    listening := hlistening
    fits := hfits
    taken := htaken
    place := {
      drive := rfl
      calls := rfl
      table := rfl
      ahead := ⟨[], _, rfl, hahead⟩
      control := fun _ => rfl
      stopped := rfl
      result := rfl
      unwritten := fun _ _ => rfl } }⟩

theorem Asking.far (hx : Asking key q a x r) (h : x.Far y) : Asking key q a y r := by
  have hworld := hx.world.leads (.single h.world)
  obtain ⟨-, hopened, hinc, hlistening⟩ := h
  obtain ⟨c, due, hread, hahead⟩ := hx.place.ahead
  exact { hx with
    world := hworld
    opened := hopened.trans hx.opened
    listening := hlistening
    place := { hx.place with ahead := ⟨c, due, hread, hahead.elsewhere hlistening hinc⟩ } }

/-- The write loop goes on. -/
theorem Asking.Place.writes (h : Asking.Place q a x r) (hr' : e.drive = some r')
    (hopener : r'.opener = r.opener) (hreading : r'.reading = r.reading)
    (hcontrol : r'.control = r.control) (hincoming : d.incoming = x.stream.incoming)
    (hstopped : e.stopped = x.engine.stopped) (hcalls : e.calls = x.engine.calls)
    (htable : e.table = x.engine.table)
    (hwritten : q.outgoing.waiter ≠ none → (x.logged e d events).written = x.log.written) :
    Asking.Place q a (x.near (x.after e d events)) r' where
  drive := hr'
  calls := hcalls.trans h.calls
  table := htable.trans h.table
  ahead := by
    obtain ⟨c, due, hread, hahead⟩ := h.ahead
    refine ⟨c, due, hreading.trans hread, ?_⟩
    show r'.opener.Ahead c d.incoming x.coming _
    rw [hopener, hincoming]
    exact hahead
  control ha := hcontrol.trans (h.control ha)
  stopped := by
    rw [hcontrol]
    exact hstopped.trans h.stopped
  result := by
    rw [hcontrol]
    exact h.result
  unwritten ha hwaiter := (hwritten hwaiter).trans (h.unwritten ha hwaiter)

/-- Only a call that has returned is followed by anything but serving. -/
theorem Asking.Place.returned (h : Asking.Place q a x r) (hcontrol : r.control ≠ .serving) :
    a = .returned := by
  by_contra ha
  exact hcontrol (h.control ha)

theorem Asking.Place.returned_of_stopped (h : Asking.Place q a x r)
    (hstopped : x.engine.stopped = true) : a = .returned := by
  refine h.returned fun hserving => ?_
  rw [h.stopped, hserving] at hstopped
  cases hstopped

/-- The frame in the write loop's hands is the only one. -/
theorem Asking.current (hx : Asking key q a x r) {o : Outgoing} {job : Sealer.Job} {due : Nat}
    {rest : List Outgoing} {count : Nat} (hw : r.writing = .writing job due o rest count) :
    o = q.outgoing := by
  have hcarries := (outbound_of_reachable hx.world).carries hx.place.drive
  have hcurrent : r.lane.current = [o] := by rw [Lane.current, Drive.lane, hw]; rfl
  have hmem : o ∈ x.log.accepted := by
    have horder : x.log.accepted = x.log.written ++ r.lane.current ++ r.lane.rest ++
      x.engine.queue := hcarries.order
    rw [horder, hcurrent]
    simp
  rw [hx.accepted] at hmem
  exact List.mem_singleton.mp hmem

theorem Asking.fine (hx : Asking key q a x r) {now : Nat} (hearly : ∀ due ∈ r.dues, now < due)
    (err : Error) : ¬ r.writing.Fails now r.sealer x.stream.outgoing err := by
  refine not_fails ((outbound_of_reachable hx.world).carries hx.place.drive) hx.opened
    (fun o ho => ?_) ?_ hearly
  · rw [hx.accepted] at ho
    rw [List.mem_singleton.mp ho]
    exact hx.fits
  · rw [hx.accepted]
    show 1 ≤ Nonce.last
    decide

/-! ### One step -/

/-- Whether a step reports neither the return of a call nor the end of the drive. -/
def Event.isQuiet : Event → Bool
  | .returned .. | .ended _ => false
  | _ => true

/-- What a step of the engine comes to, by the state it leads to. -/
inductive Asking.Goes (key : SessionKey) (q : Query) (a : Asked) (x : Attended)
    (events : List Event) : Prop where
  | on {a' : Asked} {r' : Drive} (ha : a' = a ∨ a = .waiting ∧ a' = .told)
      (hquiet : ∀ ev ∈ events, ev.isQuiet) (h : Asking key q a' x r') : Goes key q a x events
  | returns {r' : Drive} (ha : a = .told) (hevents : events = [.returned q.id q.outcome])
      (h : Asking key q .returned x r') : Goes key q a x events
  | ends (ha : a = .returned) (hevents : events = [.ended (.ok ())])
      (hdrive : x.engine.drive = none) (hcalls : x.engine.calls = [])
      (hout : x.heard ++ x.stream.outgoing.held =
        wire key .clientToServer 0 [q.outgoing.frame]) : Goes key q a x events

/-- A call that is told as its frame is written. -/
theorem calls_placed (a : Asked) : ∃ a' : Asked, (a' = a ∨ a = .waiting ∧ a' = .told) ∧
    (a.calls q).map (Call.told q.outgoing.waiter.toList .done) = a'.calls q ∧
    a'.table q = a.table q ∧ a'.back q = a.back q ∧ (a' = .returned → a = .returned) ∧
    (a' = .waiting → q.outgoing.waiter = none) := by
  cases a with
  | waiting =>
    cases q with
    | message id payload =>
      refine ⟨.told, .inr ⟨rfl, rfl⟩, ?_, rfl, rfl, nofun, nofun⟩
      exact congrArg (· :: []) (Call.told_of_mem (List.mem_singleton_self id) rfl)
    | request id payload capacity due =>
      refine ⟨.waiting, .inl rfl, ?_, rfl, rfl, nofun, fun _ => rfl⟩
      exact congrArg (· :: []) (Call.told_nil _ _)
  | told =>
    exact ⟨.told, .inl rfl, congrArg (· :: []) (Call.told_of_answer rfl), rfl, rfl, nofun, nofun⟩
  | returned => exact ⟨.returned, .inl rfl, rfl, rfl, rfl, fun h => h, nofun⟩

theorem calls_of_find {c : Call} (h : Asking.Place q a x r) {id : CallId}
    (hc : x.engine.calls.find? (·.id == id) = some c) : id = q.id ∧ c.id = q.id ∧
      c.wait = q.wait ∧
      (a = .waiting ∧ c.answer = none ∨ a = .told ∧ c.answer = some q.outcome) := by
  have hmem := List.mem_of_find?_eq_some hc
  have hid := List.find?_some hc
  rw [h.calls] at hmem
  cases a with
  | waiting =>
    obtain rfl := List.mem_singleton.mp hmem
    exact ⟨(beq_iff_eq.mp hid).symm, rfl, rfl, .inl ⟨rfl, rfl⟩⟩
  | told =>
    obtain rfl := List.mem_singleton.mp hmem
    exact ⟨(beq_iff_eq.mp hid).symm, rfl, rfl, .inr ⟨rfl, rfl⟩⟩
  | returned => cases hmem

/-- The only frame that may come back is the response to the request that waits. -/
theorem back_eq_cons {f : Frame} {gs : List Frame} (h : a.back q = f :: gs) :
    a = .waiting ∧ gs = [] ∧ f.isMessage = false ∧ q.outcome = .response f.payload ∧
      ∃ capacity, q.table = [{ seq := f.seq, call := q.id, capacity }] ∧
        (q.Taken → f.payload.length ≤ capacity) := by
  cases a with
  | waiting =>
    cases q with
    | message => cases h
    | request id payload capacity due =>
      cases h
      exact ⟨rfl, rfl, rfl, rfl, capacity, rfl, fun htaken => htaken⟩
  | told
  | returned => cases h

/-- A frame that has come in is the response to the request that waits. -/
theorem Asking.Place.response (h : Asking.Place q a x r) {c : Bytes} {due : Option Nat} {f : Frame}
    {o : Opener} {inc : Pipe} (hread : r.reading = .reading c due)
    (hadv : r.opener.advance c x.stream.incoming = some (.frame f, o, inc)) :
    a = .waiting ∧ f.isMessage = false ∧ q.outcome = .response f.payload ∧
      o.Ahead [] inc x.coming [] ∧ ∃ capacity,
        x.engine.table = [{ seq := f.seq, call := q.id, capacity }] ∧
          (q.Taken → f.payload.length ≤ capacity) := by
  obtain ⟨c', due', hreading, hahead⟩ := h.ahead
  rw [hreading] at hread
  cases hread
  obtain ⟨gs, hback, hrest⟩ := hahead.advance_frame hadv
  obtain ⟨rfl, rfl, hf, houtcome, capacity, htable, htaken⟩ := back_eq_cons hback
  exact ⟨rfl, hf, houtcome, hrest, capacity, h.table.trans htable, htaken⟩

/-- A caller that has been told returns. -/
theorem Asking.Place.answered (h : Asking.Place q a x r) {id : CallId} {c : Call} {o : Outcome}
    (hc : x.engine.calls.find? (·.id == id) = some c) (ho : c.answer = some o) :
    a = .told ∧ id = q.id ∧ o = q.outcome ∧
      Asking.Place q .returned (x.near (x.after (x.engine.leave c) x.stream events)) r := by
  obtain ⟨rfl, hid, hwait, ⟨-, hnone⟩ | ⟨rfl, hsome⟩⟩ := calls_of_find h hc
  · rw [ho] at hnone
    cases hnone
  · have hleft : (x.engine.leave c).calls = [] ∧ (x.engine.leave c).table = [] := by
      rw [leave_eq, h.calls, h.table, hid]
      cases q <;> simp [Asked.calls, Asked.table, hwait, Query.wait]
    have hkept : (x.engine.leave c).drive = x.engine.drive ∧
        (x.engine.leave c).stopped = x.engine.stopped := by
      rw [leave_eq]
      exact ⟨rfl, rfl⟩
    exact ⟨rfl, rfl, Option.some.inj (ho.symm.trans hsome), {
      drive := hkept.1.trans h.drive
      calls := hleft.1
      table := hleft.2
      ahead := h.ahead
      control := fun ha => absurd rfl ha
      stopped := hkept.2.trans h.stopped
      result := h.result
      unwritten := by rintro ⟨⟩ }⟩

/-- The engine winds down when the call has returned. -/
theorem Asking.Place.stops (h : Asking.Place q .returned x r) {w : WriteLoop} {control : Control}
    (hserving : control.isServing = false) (hresult : control.writeEnded (.ok ()) = .ok ()) :
    Asking.Place q .returned
      (x.near (x.after (x.engine.stop.driving { r with writing := w, control }) x.stream events))
      { r with writing := w, control } where
  drive := rfl
  calls := h.calls
  table := h.table
  ahead := h.ahead
  control ha := absurd rfl ha
  stopped := by
    rw [hserving]
    rfl
  result := hresult
  unwritten := by rintro ⟨⟩

/-- The frame is written, of which the sender of a message is told. -/
theorem Asking.Place.placed (h : Asking.Place q a x r) (s : Sealer) (w : WriteLoop) (out : Pipe) :
    ∃ a' : Asked, (a' = a ∨ a = .waiting ∧ a' = .told) ∧
      Asking.Place q a'
        (x.near (x.after ((x.engine.complete q.outgoing true).driving
          { r with sealer := s, writing := w }) { x.stream with outgoing := out } events))
        { r with sealer := s, writing := w } := by
  obtain ⟨a', ha, hcalls, htable, hback, hreturned, hwaiting⟩ := calls_placed (q := q) a
  rw [complete_eq]
  refine ⟨a', ha, {
    drive := rfl
    calls := (congrArg (List.map _) h.calls).trans hcalls
    table := h.table.trans htable.symm
    ahead := by rw [hback]; exact h.ahead
    control := fun hne => h.control fun hr => ?_
    stopped := h.stopped
    result := h.result
    unwritten := fun hw hne => absurd (hwaiting hw) hne }⟩
  rcases ha with rfl | ⟨hw, -⟩
  · exact hne hr
  · rw [hr] at hw
    cases hw

/-- The response is handed to the request that waits. -/
theorem Asking.Place.resolved (h : Asking.Place q a x r) {c : Bytes} {due : Option Nat} {f : Frame}
    {o : Opener} {inc : Pipe} {awaited : Awaited} (hread : r.reading = .reading c due)
    (hadv : r.opener.advance c x.stream.incoming = some (.frame f, o, inc))
    (hawaited : x.engine.table.find? (·.seq == f.seq) = some awaited) :
    a = .waiting ∧ Asking.Place q .told
      (x.near (x.after ((({ x.engine with table := x.engine.table.filter (·.seq != awaited.seq) }
        ).answer awaited.call (.response f.payload)).readOn env { r with opener := o })
          { x.stream with incoming := inc } events))
      { r with opener := o, reading := .reading [] (x.engine.readDue env.now) } := by
  obtain ⟨rfl, -, houtcome, hrest, capacity, htable, -⟩ := h.response hread hadv
  rw [htable] at hawaited
  obtain rfl : awaited = { seq := f.seq, call := q.id, capacity } := by simpa using hawaited.symm
  rw [answer_eq]
  refine ⟨rfl, {
    drive := rfl
    calls := ?_
    table := ?_
    ahead := ⟨[], _, rfl, hrest⟩
    control := fun _ => h.control (by rintro ⟨⟩)
    stopped := h.stopped
    result := h.result
    unwritten := by rintro ⟨⟩ }⟩
  · refine (congrArg (List.map _) h.calls).trans (congrArg (· :: []) ?_)
    rw [houtcome]
    exact Call.told_of_mem (List.mem_singleton_self _) rfl
  · show x.engine.table.filter _ = []
    rw [htable]
    simp

/-- Reading does not end while the far end keeps the stream open. -/
theorem Asking.Place.not_ended (h : Asking.Place q a x r) (hopen : x.stream.incoming.closed = false)
    {c : Bytes} {due : Option Nat} {reading : Opener.Reading} {o : Opener} {inc : Pipe}
    (hread : r.reading = .reading c due)
    (hadv : r.opener.advance c x.stream.incoming = some (reading, o, inc)) :
    readingEnd reading = none := by
  obtain ⟨c', due', hreading, hahead⟩ := h.ahead
  rw [hreading] at hread
  cases hread
  cases reading with
  | partly
  | frame => rfl
  | failed => exact absurd hadv hahead.not_failed
  | ended =>
    obtain ⟨-, -, -, hclosed⟩ := Opener.advance_ended hadv
    rw [hopen] at hclosed
    cases hclosed

/-- A step that accepts nothing, and after which the drive goes on, changes nothing but the
place. -/
theorem Asking.moved (hx : Asking key q a x r)
    (hfine : ∀ err, ¬ r.writing.Fails env.now r.sealer x.stream.outgoing err)
    (h : x.engine.step env t x.stream = some (e, d, events))
    (hqueue : e.queue.length ≤ x.engine.queue.length)
    (hended : (x.logged e d events).ended = x.log.ended)
    (hplace : Asking.Place q a' (x.near (x.after e d events)) r') :
    Asking key q a' (x.near (x.after e d events)) r' := by
  have hs := stepped_of_step h
  have hmove : Move key .client env x.toSite (x.after e d events) := .step h
  obtain ⟨htroubles, hopened⟩ := clean_stepped hx.world hx.place.drive hx.opened hfine hs
  have hdriven : e.drive = some r' := hplace.drive
  have hne : e.drive ≠ none := by
    rw [hdriven]
    exact Option.some_ne_none r'
  have hinc := congrArg Pipe.closed (incoming_driven hs hne)
  exact {
    world := hx.world.leads (.single (.near hmove))
    troubles := htroubles.trans hx.troubles
    accepted := (accepted_of_queue events hqueue).trans hx.accepted
    running := hended.trans hx.running
    opened := hopened.trans (by rw [hdriven]; rfl)
    listening := hinc.trans hx.listening
    fits := by
      rw [show (x.near (x.after e d events)).engine.settings = _ from settings_move hmove]
      exact hx.fits
    taken := hx.taken
    place := hplace }

/-- When the drive ends, all bytes of the frame are out. -/
theorem Asking.all_out (hx : Asking key q a x r)
    (hfine : ∀ err, ¬ r.writing.Fails env.now r.sealer x.stream.outgoing err)
    (h : x.engine.step env t x.stream = some (e, d, events)) (hqueue : e.queue = [])
    (hended : (x.logged e d events).ended ≠ []) :
    x.heard ++ d.outgoing.held = wire key .clientToServer 0 [q.outgoing.frame] := by
  have hmove : Move key .client env x.toSite (x.after e d events) := .step h
  obtain ⟨htroubles, -⟩ :=
    clean_stepped hx.world hx.place.drive hx.opened hfine (stepped_of_step h)
  have hout := (all_out_of_clean (hx.world.leads (.single (.near hmove))) hended
    (htroubles.trans hx.troubles)).2
  have haccepted : (x.logged e d events).accepted = [q.outgoing] :=
    (accepted_of_queue events (by rw [hqueue]; exact Nat.zero_le _)).trans hx.accepted
  rw [show (x.near (x.after e d events)).log.accepted = _ from haccepted] at hout
  exact hout

/-- **Every step of the engine goes on, or the call returns, or the drive ends.** -/
theorem Asking.stepped (hx : Asking key q a x r) (hearly : ∀ due ∈ x.engine.dues, env.now < due)
    (hcancelled : env.cancelled = true → a = .returned)
    (h : x.engine.step env t x.stream = some (e, d, events)) :
    Asking.Goes key q a (x.near (x.after e d events)) events := by
  have hlate : ∀ due ∈ r.dues, env.now < due := fun due hdue =>
    hearly due (mem_dues_of_drive hx.place.drive hdue)
  have hfine := hx.fine hlate
  have hdrive : ∀ {r'}, x.engine.drive = some r' → r = r' := fun hr =>
    Option.some.inj (hx.place.drive.symm.trans hr)
  have hplace := hx.place
  have hgoes : ∀ {a' r'}, e.queue.length ≤ x.engine.queue.length →
      (x.logged e d events).ended = x.log.ended →
      Asking.Place q a' (x.near (x.after e d events)) r' →
      Asking key q a' (x.near (x.after e d events)) r' := hx.moved hfine h
  have hquiet : ∀ ev ∈ ([] : List Event), ev.isQuiet := fun _ h => absurd h List.not_mem_nil
  cases stepped_of_step h with
  | notified =>
    exact .on (.inl rfl) hquiet (hgoes (Nat.le_refl _) rfl
      (hplace.writes hplace.drive rfl rfl rfl rfl rfl rfl rfl fun _ => rfl))
  | answered hc ho =>
    obtain ⟨rfl, rfl, rfl, hreturned⟩ := hplace.answered hc ho
    exact .returns rfl rfl
      (hgoes (Nat.le_of_eq (congrArg List.length (queue_leave _ _))) rfl hreturned)
  | expired hc _ hwait hdue =>
    have hlt := hearly _ (mem_dues_of_call (List.mem_of_find?_eq_some hc) hwait)
    exact absurd hdue (Nat.not_le_of_lt hlt)
  -- The supervisor
  | cancelled hr _ htold =>
    obtain rfl := hdrive hr
    obtain rfl := hcancelled htold
    exact .on (.inl rfl) hquiet (hgoes (Nat.le_refl _) rfl (hplace.stops rfl rfl))
  | @closed _ result _ _ _ hr hclosing =>
    obtain rfl := hdrive hr
    have ha := hplace.returned (by rw [hclosing]; rintro ⟨⟩)
    have hresult := hplace.result
    rw [hclosing] at hresult
    obtain rfl : result = .ok () := hresult
    have hcalls : x.engine.finished.calls = [] := by
      rw [finished, tell, hplace.calls, ha]
      rfl
    have hended : x.log.ended ++ [Except.ok ()] ≠ [] :=
      List.append_ne_nil_of_right_ne_nil _ (List.cons_ne_nil _ _)
    exact .ends ha rfl rfl hcalls (hx.all_out hfine h rfl hended)
  | closeFailed hr hclosing hbuffer =>
    obtain rfl := hdrive hr
    have hl := loops_of_reachable hx.world hr
    have hflushed : r.sealer.outlet.held = [] :=
      hl.flushed (by rw [hl.writes.mpr (by rw [hclosing]; rfl)]; rfl)
    exact absurd hflushed hbuffer
  -- The write loop
  | emptied hr hw hqueue hstopped hresult =>
    obtain rfl := hdrive hr
    obtain rfl := hplace.returned_of_stopped hstopped
    exact .on (.inl rfl) hquiet
      (hgoes (Nat.le_refl _) rfl (hplace.stops rfl (hresult.symm.trans hplace.result)))
  | batched hr =>
    obtain rfl := hdrive hr
    exact .on (.inl rfl) hquiet (hgoes (Nat.zero_le _) rfl
      (hplace.writes rfl rfl rfl rfl rfl rfl rfl rfl fun _ => rfl))
  | waited hr
  | woken hr
  | batchDone hr
  | begun hr
  | placing hr
  | flushing hr
  | draining hr =>
    obtain rfl := hdrive hr
    exact .on (.inl rfl) hquiet (hgoes (Nat.le_refl _) rfl
      (hplace.writes rfl rfl rfl rfl rfl rfl rfl rfl fun _ => rfl))
  | flushed hr =>
    obtain rfl := hdrive hr
    exact .on (.inl rfl) (by simp [Event.isQuiet]) (hgoes (Nat.le_refl _) rfl
      (hplace.writes rfl rfl rfl rfl rfl rfl rfl rfl fun _ => rfl))
  | placed hr hw =>
    obtain rfl := hdrive hr
    obtain rfl := hx.current hw
    obtain ⟨a', ha, hplaced⟩ := hplace.placed _ _ _
    refine .on ha (by simp [Event.isQuiet]) (hgoes ?_ rfl hplaced)
    rw [complete_eq]
    exact Nat.le_refl _
  | writeFailed hr _ hfails =>
    obtain rfl := hdrive hr
    exact absurd hfails (hfine _)
  -- The read loop
  | collected hr hread hadv =>
    obtain rfl := hdrive hr
    obtain ⟨c', due', hreading, hahead⟩ := hplace.ahead
    rw [hreading] at hread
    cases hread
    exact .on (.inl rfl) hquiet (hgoes (Nat.le_refl _) rfl { hplace with
      drive := rfl
      ahead := ⟨_, _, rfl, hahead.advance_partly hadv⟩ })
  | readEnded hr hread hadv hres =>
    obtain rfl := hdrive hr
    rw [hplace.not_ended hx.listening hread hadv] at hres
    cases hres
  | readExpired hr hread hexpired =>
    obtain rfl := hdrive hr
    rw [Drive.read_early hread hlate] at hexpired
    cases hexpired
  | handed hr hread hadv hother =>
    obtain rfl := hdrive hr
    obtain ⟨-, hf, -, -, capacity, htable, -⟩ := hplace.response hread hadv
    rw [hf, htable] at hother
    simp at hother
  | resolved hr hread hadv _ hawaited =>
    obtain rfl := hdrive hr
    obtain ⟨rfl, htold⟩ := hplace.resolved hread hadv hawaited
    exact .on (.inr ⟨rfl, rfl⟩) (by simp [Event.isQuiet]) (hgoes (Nat.le_refl _) rfl htold)
  | @overflowed _ _ _ f _ _ awaited _ hr hread _ hadv _ hawaited hover =>
    obtain rfl := hdrive hr
    obtain ⟨-, -, -, -, capacity, htable, htaken⟩ := hplace.response hread hadv
    rw [htable] at hawaited
    obtain rfl : awaited = { seq := f.seq, call := q.id, capacity } := by
      simpa using hawaited.symm
    exact absurd (htaken hx.taken) (Nat.not_le_of_lt hover)
  | handled hr hread
  | replied hr hread =>
    obtain rfl := hdrive hr
    obtain ⟨c', due', hreading, -⟩ := hplace.ahead
    rw [hreading] at hread
    cases hread

/-! ### Going on -/

theorem Asking.relieved (hx : Asking key q a x r)
    (h : x.engine.step env t x.stream = some (e, d, events)) :
    (x.near (x.after e d events)).Relieved x ∨ x.engine.stopped = false ∧ e.stopped = true := by
  obtain ⟨c, due, hreading, hahead⟩ := hx.place.ahead
  refine (relieved_stepped hx.place.drive (fun c' hc' => ⟨a.back q, ?_⟩)
    (stepped_of_step h)).imp_right ?_
  · rw [hreading] at hc'
    cases hc'
    exact hahead
  · rintro ⟨-, hserving, rfl, -⟩
    refine ⟨?_, rfl⟩
    rw [hx.place.stopped, hserving]
    rfl

/-- **An engine that can make no step waits for room**, or for the response: then its frame is out,
and there is more to come. -/
theorem Asking.stuck (hx : Asking key q a x r) (hattentive : env.attentive = true)
    (hcancelled : a = .returned → env.cancelled = true)
    (hstuck : ∀ t, x.engine.step env t x.stream = none) :
    x.stream.outgoing.room = 0 ∨ x.stream.incoming.held = [] ∧ x.coming ≠ [] ∧
      x.heard ++ x.stream.outgoing.held = wire key .clientToServer 0 [q.outgoing.frame] := by
  have hplace := hx.place
  have hl := loops_of_reachable hx.world hplace.drive
  cases a with
  | waiting =>
    obtain ⟨⟨c, due, hread, hempty, hheld⟩, hwrites⟩ :=
      stuck_of_served hl hplace.drive (hplace.control nofun) hattentive hstuck
    refine hwrites.imp_right fun ⟨hwaiting, hqueue, hbuffer⟩ => ?_
    obtain ⟨hwritten, hout⟩ := all_out_of_waiting hx.world hplace.drive hwaiting hqueue hbuffer
    have haccepted : x.toWorld.log.accepted = [q.outgoing] := hx.accepted
    rw [haccepted] at hwritten hout
    refine ⟨hheld, fun hdone => ?_, hout⟩
    obtain ⟨c', due', hread', hahead⟩ := hplace.ahead
    rw [hdone] at hahead
    have hback := (hahead.nothing_left hempty hheld).2
    cases q with
    | message =>
      rw [hplace.unwritten rfl (Option.some_ne_none _)] at hwritten
      cases hwritten
    | request => cases hback
  | told =>
    have hcall := hstuck (.call q.id)
    simp [step, stepCall, hplace.calls, Asked.calls] at hcall
  | returned =>
    by_cases hserving : r.control = .serving
    · have hcancel := hstuck .cancel
      simp [step, stepCancel, hplace.drive, hserving, hcancelled rfl] at hcancel
    · have hnot : r.control.isServing = false := by
        cases hcontrol : r.control with
        | serving => exact absurd hcontrol hserving
        | draining
        | closing => rfl
      refine .inl (room_of_stopped hplace.drive hl ?_ hnot hstuck)
      rw [hplace.stopped, hnot]
      rfl

end Parley.Engine
