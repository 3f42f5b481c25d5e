import Mathlib.Logic.Function.Basic
import Parley.Proofs.Engine.Carriers
import Parley.Proofs.Engine.Greeting
import Parley.Proofs.Server.Books

/-! A server with its streams and its clock, and what is done there.

A `Site` is the world of a server together with the time, the server's end of every stream, the
carriers that all connections share, and the trace of what was seen and when. An `Act` is one
thing done there: by the program that has the server, by a task of the server, or by a far end.
An act leads to one thing (`Site.perform`), so that a run is told by its acts (`Site.Run`).

An act is a move of the world or leaves it as it is (`Site.world_of_perform`), so that the books of
a site are in order as those of any server are: no two of its connections have the same guard
(`Site.guards_nodup`). Carriers wait emptied in the pool (`Site.Run.clean`), and the bytes that
are noted are those that came onto a stream (`Site.outbound_of_perform`). -/
namespace Parley.Channel

/-! ### Bytes on a stream -/

theorem Exchange.held_advance {x x' : Exchange} {role : Role} {d d' : Duplex}
    (h : x.advance role d = some (.ok (x', d'))) : d.outgoing.held <+: d'.outgoing.held := by
  unfold Exchange.advance at h
  split at h
  · split at h
    · cases h
      exact List.prefix_rfl
    · obtain ⟨r, hpush, hr⟩ := Option.map_eq_some_iff.mp h
      cases r with
      | error e => cases hr
      | ok y =>
        cases hr
        obtain ⟨-, -, -, hpipe⟩ := Pipe.push_ok hpush
        rw [hpipe]
        exact List.prefix_append _ _
  · split at h
    · split at h <;> cases h
      exact List.prefix_rfl
    · split at h <;> cases h
      exact List.prefix_rfl
  · cases h

theorem Handshake.held_step {x x' : Handshake} {role : Role} {now : Nat} {d d' : Duplex}
    (h : x.step role now d = some (.going x' d')) : d.outgoing.held <+: d'.outgoing.held := by
  unfold Handshake.step at h
  split at h
  · cases h
  · split at h
    · rename_i hadvance
      cases h
      exact Exchange.held_advance hadvance
    · cases h
    · obtain ⟨e, -, hfailed⟩ := Option.map_eq_some_iff.mp h
      cases hfailed

end Parley.Channel

namespace Parley.Server
open Channel

section
variable {s s' : Server} {env : Env} {guard : Nat} {d d' : Duplex} {events : List Event}

/-- A step of a connection only puts bytes behind those that are on its stream. -/
theorem held_stepHandshake (h : s.stepHandshake env guard d = some (s', d', events)) :
    d.outgoing.held <+: d'.outgoing.held := by
  unfold stepHandshake at h
  split at h
  · cases h
  · split at h
    · cases h
    · split at h <;> cases h
      exact List.prefix_rfl
    · split at h
      · cases h
        exact List.prefix_rfl
      · split at h
        · cases h
        · rename_i hstep
          cases h
          exact Handshake.held_step hstep
        · cases h
          exact List.prefix_rfl
        · cases h
          exact List.prefix_rfl

theorem held_stepEngine {t : Engine.Task} (h : s.stepEngine env guard t d = some (s', d', events)) :
    d.outgoing.held <+: d'.outgoing.held := by
  unfold stepEngine at h
  split at h
  · cases h
  · split at h
    · split at h
      · cases h
      · rename_i hstep
        have hheld := Engine.held_stepped (Engine.stepped_of_step hstep)
        split at h <;> cases h <;> exact hheld
    · cases h

end

/-! ### Sites -/

/-- Something that is seen at a site. -/
inductive Note where
  /-- What the call that runs an accept loop reports. -/
  | loop (id : CallId) (ev : Event)
  /-- What the connection on a stream reports. -/
  | connection (stream : StreamId) (ev : Event)
  /-- The bytes that a step of a connection puts on its stream. -/
  | sent (stream : StreamId) (bs : Bytes)

/-- One thing that is done. -/
inductive Act where
  | serve (id : CallId) (address : String)
  | offer (address : String) (stream : StreamId)
  | fault (address : String) (e : IoError)
  /-- Time passes. -/
  | pass (ms : Nat)
  | loop (id : CallId)
  | dropLoop (id : CallId)
  | begin (stream : StreamId) (secret : Bytes)
  | handshake (stream : StreamId)
  /-- A step of the engine on a stream, which is done with some carriers. -/
  | engine (stream : StreamId) (t : Engine.Task) (carriers : List Engine.Carrier)
  /-- What the far end and the network make of a stream. -/
  | far (stream : StreamId) (f : Duplex → Duplex)
  | shutdown (id : CallId)
  | idle (id : CallId)
  | dropIdle (id : CallId)

structure Site where
  world : World
  now : Nat := 0
  views : StreamId → Duplex
  /-- The carriers that no frame needs. A reply comes in one of its own, so that the connections
  of a server only put carriers here. -/
  pool : Engine.Pool
  trace : List (Nat × Note) := []

/-- The connection on a stream. -/
def connectionOn (s : Server) (stream : StreamId) : Option Connection :=
  s.connections.find? (·.stream == stream)

theorem mem_of_connectionOn {s : Server} {stream : StreamId} {c : Connection}
    (h : connectionOn s stream = some c) : c ∈ s.connections ∧ c.stream = stream :=
  Keyed.mem_of_find? h

namespace Site

/-- A new server; the pool keeps so many carriers. -/
def start (config : Config.Server) (connection : Config.Connection) (views : StreamId → Duplex)
    (capacity : Nat) : Site where
  world := { server := .create config connection }
  views
  pool := { capacity }

/-- Whether a stream is given up. -/
def givenUp (events : List Event) (stream : StreamId) : Bool :=
  events.any fun
    | .dropped x => x == stream
    | _ => false

/-- A loop has taken a step: the streams that it gave up are closed. -/
def looped (s : Site) (id : CallId) (server : Server) (events : List Event) : Site :=
  { s with
    world := s.world.after server events
    views := fun x => if givenUp events x then (s.views x).hangUp else s.views x
    trace := s.trace ++ events.map fun ev => (s.now, .loop id ev) }

/-- The connection on a stream has taken a step. -/
def stepped (s : Site) (stream : StreamId) (server : Server) (d : Duplex) (events : List Event) :
    Site :=
  let put := d.outgoing.held.drop (s.views stream).outgoing.held.length
  { s with
    world := s.world.after server events
    views := Function.update s.views stream d
    trace := s.trace ++ events.map (fun ev => (s.now, .connection stream ev)) ++
      [(s.now, .sent stream put)] }

/-- What the connections depend on besides the server, with an application that returns at
once. -/
def env (reply : Bytes → Option Bytes) (s : Site) : Env := ⟨s.now, true, reply⟩

/-- What an act leads to, if it can be done. -/
def perform (reply : Bytes → Option Bytes) (s : Site) : Act → Option Site
  | .serve id address =>
    if id ∈ s.world.log.calls then none
    else some { s with world := (s.world.become (s.world.server.serve id address)).making id }
  | .offer address stream =>
    some { s with world := s.world.become (s.world.server.offer address stream) }
  | .fault address e => some { s with world := s.world.become (s.world.server.fault address e) }
  | .pass ms => some { s with now := s.now + ms }
  | .loop id => (s.world.server.stepLoop s.now id).map fun r => s.looped id r.1 r.2
  | .dropLoop id =>
    if id ∈ s.world.server.loops.map (·.id) then
      let r := s.world.server.dropLoop id
      let s := s.looped id r.1 r.2
      some { s with world := s.world.dropping id }
    else none
  | .begin stream secret =>
    match connectionOn s.world.server stream with
    | none => none
    | some c =>
      if s.world.server.wantsSecret c.guard then
        some { s with
          world := s.world.become (s.world.server.beginHandshake s.now c.guard secret) }
      else none
  | .handshake stream =>
    match connectionOn s.world.server stream with
    | none => none
    | some c =>
      (s.world.server.stepHandshake (s.env reply) c.guard (s.views stream)).map fun r =>
        s.stepped stream r.1 r.2.1 r.2.2
  | .engine stream t carriers =>
    match connectionOn s.world.server stream with
    | none => none
    | some c =>
      (s.world.server.stepEngine (s.env reply) c.guard t (s.views stream)).map fun r =>
        { s.stepped stream r.1 r.2.1 r.2.2 with pool := carriers.foldl .release s.pool }
  | .far stream f =>
    some { s with views := Function.update s.views stream (f (s.views stream)) }
  | .shutdown id =>
    if id ∈ s.world.log.calls then none
    else some { s with world := (s.world.become (s.world.server.beginShutdown id)).making id }
  | .idle id =>
    (s.world.server.stepIdle id).map fun r =>
      { s with world := (s.world.after r.1 r.2).resting id }
  | .dropIdle id =>
    if id ∈ s.world.server.idling then
      some { s with world := (s.world.become (s.world.server.dropIdle id)).dropping id }
    else none

/-- One act after another is done, and something is so all along. -/
inductive Run (reply : Bytes → Option Bytes) (P : Site → Prop) : Site → List Act → Site → Prop where
  | nil {s} (h : P s) : Run reply P s [] s
  | cons {s a s' as s''} (h : P s) (hact : s.perform reply a = some s')
      (hrest : Run reply P s' as s'') : Run reply P s (a :: as) s''

/-- No stream waits for a slot. -/
def Unqueued (s : Site) : Prop := queued s.world.server.loops = []

variable {reply : Bytes → Option Bytes} {P : Site → Prop} {s s' : Site} {a : Act} {as : List Act}

/-! ### The rules of an act -/

/-- What an act leads to, and when it can be done. -/
inductive Performed (reply : Bytes → Option Bytes) (s : Site) : Act → Site → Prop where
  | serve {id address} (hnew : id ∉ s.world.log.calls) :
      Performed reply s (.serve id address)
        { s with world := (s.world.become (s.world.server.serve id address)).making id }
  | offer {address stream} :
      Performed reply s (.offer address stream)
        { s with world := s.world.become (s.world.server.offer address stream) }
  | fault {address e} :
      Performed reply s (.fault address e)
        { s with world := s.world.become (s.world.server.fault address e) }
  | pass {ms} : Performed reply s (.pass ms) { s with now := s.now + ms }
  | loop {id server events} (hstep : s.world.server.stepLoop s.now id = some (server, events)) :
      Performed reply s (.loop id) (s.looped id server events)
  | dropLoop {id} (hid : id ∈ s.world.server.loops.map (·.id)) :
      Performed reply s (.dropLoop id)
        (let r := s.world.server.dropLoop id
        { s.looped id r.1 r.2 with world := (s.world.after r.1 r.2).dropping id })
  | begin {stream secret c} (hc : connectionOn s.world.server stream = some c)
      (hwants : s.world.server.wantsSecret c.guard = true) :
      Performed reply s (.begin stream secret)
        { s with world := s.world.become (s.world.server.beginHandshake s.now c.guard secret) }
  | handshake {stream c server d events} (hc : connectionOn s.world.server stream = some c)
      (hstep : s.world.server.stepHandshake (s.env reply) c.guard (s.views stream) =
        some (server, d, events)) :
      Performed reply s (.handshake stream) (s.stepped stream server d events)
  | engine {stream t carriers c server d events}
      (hc : connectionOn s.world.server stream = some c)
      (hstep : s.world.server.stepEngine (s.env reply) c.guard t (s.views stream) =
        some (server, d, events)) :
      Performed reply s (.engine stream t carriers)
        { s.stepped stream server d events with pool := carriers.foldl .release s.pool }
  | far {stream f} :
      Performed reply s (.far stream f)
        { s with views := Function.update s.views stream (f (s.views stream)) }
  | shutdown {id} (hnew : id ∉ s.world.log.calls) :
      Performed reply s (.shutdown id)
        { s with world := (s.world.become (s.world.server.beginShutdown id)).making id }
  | idle {id server events} (hstep : s.world.server.stepIdle id = some (server, events)) :
      Performed reply s (.idle id) { s with world := (s.world.after server events).resting id }
  | dropIdle {id} (hid : id ∈ s.world.server.idling) :
      Performed reply s (.dropIdle id)
        { s with world := (s.world.become (s.world.server.dropIdle id)).dropping id }

theorem performed_of_perform (h : s.perform reply a = some s') : Performed reply s a s' := by
  cases a with
  | offer
  | fault
  | pass
  | far =>
    cases h
    constructor
  | serve
  | shutdown =>
    simp only [perform] at h
    split at h
    · cases h
    · rename_i hnew
      cases h
      constructor
      exact hnew
  | loop =>
    obtain ⟨r, hr, rfl⟩ := Option.map_eq_some_iff.mp h
    exact .loop hr
  | idle =>
    obtain ⟨r, hr, rfl⟩ := Option.map_eq_some_iff.mp h
    exact .idle hr
  | dropLoop =>
    simp only [perform] at h
    split at h
    · rename_i hid
      cases h
      exact .dropLoop hid
    · cases h
  | dropIdle =>
    simp only [perform] at h
    split at h
    · rename_i hid
      cases h
      exact .dropIdle hid
    · cases h
  | begin =>
    simp only [perform] at h
    split at h
    · cases h
    · rename_i hc
      split at h
      · rename_i hwants
        cases h
        exact .begin hc hwants
      · cases h
  | handshake =>
    simp only [perform] at h
    split at h
    · cases h
    · rename_i hc
      obtain ⟨r, hr, rfl⟩ := Option.map_eq_some_iff.mp h
      exact .handshake hc hr
  | engine =>
    simp only [perform] at h
    split at h
    · cases h
    · rename_i hc
      obtain ⟨r, hr, rfl⟩ := Option.map_eq_some_iff.mp h
      exact .engine hc hr

/-- An act is a move of the world, or leaves it as it is. -/
theorem world_of_perform (h : s.perform reply a = some s') :
    s'.world = s.world ∨ s.world.Move s'.world := by
  cases performed_of_perform h with
  | pass
  | far => exact .inl rfl
  | serve hnew => exact .inr (.serve hnew)
  | offer => exact .inr .offer
  | fault => exact .inr .fault
  | loop hstep => exact .inr (.loop hstep)
  | dropLoop hid => exact .inr (.dropLoop hid)
  | begin _ hwants => exact .inr (.begin hwants)
  | handshake _ hstep => exact .inr (.handshake hstep)
  | engine _ hstep => exact .inr (.engine hstep)
  | shutdown hnew => exact .inr (.shutdown hnew)
  | idle hstep => exact .inr (.idle hstep)
  | dropIdle hid => exact .inr (.dropIdle hid)

theorem reachable_start (config : Config.Server) (connection : Config.Connection)
    (views : StreamId → Duplex) (capacity : Nat) :
    (start config connection views capacity).world.Reachable :=
  ⟨config, connection, .refl⟩

theorem reachable_of_perform (hs : s.world.Reachable) (h : s.perform reply a = some s') :
    s'.world.Reachable := by
  rcases world_of_perform h with heq | hmove
  · rwa [heq]
  · exact hs.leads (.single hmove)

theorem Run.reachable (hrun : Run reply P s as s') (hs : s.world.Reachable) :
    s'.world.Reachable := by
  induction hrun with
  | nil => exact hs
  | cons _ hact _ ih => exact ih (reachable_of_perform hs hact)

theorem Run.append {s'' : Site} {bs : List Act} (hrun : Run reply P s as s')
    (hrest : Run reply P s' bs s'') : Run reply P s (as ++ bs) s'' := by
  induction hrun with
  | nil => exact hrest
  | cons h hact _ ih => exact .cons h hact (ih hrest)

/-- No two connections have the same guard. -/
theorem guards_nodup (hs : s.world.Reachable) :
    (s.world.server.connections.map (·.guard)).Nodup :=
  (List.nodup_append.mp (kept_of_reachable hs).guards).2.1

/-- What is so all along is so at first. -/
theorem Run.first (hrun : Run reply P s as s') : P s := by
  cases hrun with
  | nil h
  | cons h => exact h

/-- And at last. -/
theorem Run.last (hrun : Run reply P s as s') : P s' := by
  induction hrun with
  | nil h => exact h
  | cons _ _ _ ih => exact ih

/-! ### Carriers -/

/-- Only a step of an engine is done with carriers. -/
theorem pool_of_perform (h : s.perform reply a = some s') :
    ∃ carriers : List Engine.Carrier, s'.pool = carriers.foldl .release s.pool := by
  cases performed_of_perform h with
  | engine => exact ⟨_, rfl⟩
  | _ => exact ⟨[], rfl⟩

/-- What waits in the pool has nothing in it. -/
theorem Run.clean (hrun : Run reply P s as s') (h : s.pool.Clean) : s'.pool.Clean := by
  induction hrun with
  | nil => exact h
  | cons _ hact _ ih =>
    obtain ⟨carriers, hpool⟩ := pool_of_perform hact
    refine ih ?_
    rw [hpool]
    exact h.releaseAll carriers

/-! ### What is seen -/

/-- What is seen of a kind, with the times. -/
def seen {α : Type} (s : Site) (pick : Note → Option α) : List (Nat × α) :=
  s.trace.filterMap fun (t, n) => (pick n).map (t, ·)

/-- The frames that the application was handed on a stream. -/
def dispatches (s : Site) (stream : StreamId) : List (Nat × Frame) :=
  s.seen fun
    | .connection x (.engine (.delivered f)) => if x = stream then some f else none
    | _ => none

/-- The bytes that were put on a stream. -/
def outbound (s : Site) (stream : StreamId) : List (Nat × Bytes) :=
  s.seen fun
    | .sent x bs => if x = stream then some bs else none
    | _ => none

/-- What driving a stream came to. -/
def results (s : Site) (stream : StreamId) : List (Nat × Except Error Unit) :=
  s.seen fun
    | .connection x (.engine (.ended r)) => if x = stream then some r else none
    | _ => none

/-- What the calls that ran the accept loops returned. -/
def returns (s : Site) : List (Nat × CallId × Engine.Outcome) :=
  s.seen fun
    | .loop _ (.returned id o) => some (id, o)
    | _ => none

theorem outbound_stepped (s : Site) (stream : StreamId) (server : Server) (d : Duplex)
    (events : List Event) :
    (s.stepped stream server d events).outbound stream = s.outbound stream ++
      [(s.now, d.outgoing.held.drop (s.views stream).outgoing.held.length)] := by
  simp [outbound, seen, stepped, List.filterMap_append, List.filterMap_map]

/-- The frame that an event hands to the application. -/
def delivered : Event → Option Frame
  | .engine (.delivered f) => some f
  | _ => none

theorem dispatches_stepped (s : Site) (stream : StreamId) (server : Server) (d : Duplex)
    (events : List Event) :
    (s.stepped stream server d events).dispatches stream = s.dispatches stream ++
      (events.filterMap delivered).map (s.now, ·) := by
  simp only [dispatches, seen, stepped, List.filterMap_append, List.filterMap_map,
    List.map_filterMap, List.append_assoc]
  congr 1
  refine (List.append_nil _).trans (List.filterMap_congr fun ev _ => ?_)
  cases ev with
  | engine ev => cases ev <;> simp [delivered]
  | _ => rfl

/-- The bytes that are noted are those that came onto the stream. -/
theorem outbound_of_perform {stream : StreamId} (h : s.perform reply a = some s')
    (ha : a = .handshake stream ∨ ∃ t carriers, a = .engine stream t carriers) :
    ∃ put, (s'.views stream).outgoing.held = (s.views stream).outgoing.held ++ put ∧
      s'.outbound stream = s.outbound stream ++ [(s.now, put)] := by
  have hput : ∀ (server : Server) (d : Duplex) (events : List Event),
      (s.views stream).outgoing.held <+: d.outgoing.held →
      ∃ put, ((s.stepped stream server d events).views stream).outgoing.held =
          (s.views stream).outgoing.held ++ put ∧
        (s.stepped stream server d events).outbound stream =
          s.outbound stream ++ [(s.now, put)] := by
    rintro server d events ⟨put, hheld⟩
    refine ⟨put, ?_, ?_⟩
    · simp only [stepped, Function.update_self, hheld]
    · rw [outbound_stepped, ← hheld, List.drop_left]
  rcases ha with rfl | ⟨t, carriers, rfl⟩
  · cases performed_of_perform h with
    | handshake _ hstep => exact hput _ _ _ (held_stepHandshake hstep)
  · cases performed_of_perform h with
    | @engine _ _ _ _ server d events _ hstep =>
      exact hput server d events (held_stepEngine hstep)

end Site

end Parley.Server
