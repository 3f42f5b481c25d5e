import Mathlib.Logic.Relation
import Parley.Proofs.Record
import Parley.Proofs.Server.Rules

/-! A server and all that happens at it.

A `World` is a server and the `Record` of what has happened at it, and a `Move` is anything that
can be done to it: a call is made or dropped, a stream or an accept error arrives, or a task takes
a step. A task that works on a stream finds there whatever the far end, the network and the time
make of it, so that what holds in all worlds that a new server comes to be (`Reachable`) holds for
all peers, all schedules and all clocks. No move undoes what has happened (`Lasts`). -/
namespace Parley.Server
open Channel

/-- A server, and what has happened. -/
structure World where
  server : Server
  log : Record := {}

namespace World

/-- The same with another server. -/
def become (w : World) (s : Server) : World := { w with server := s }

/-- What a step leaves. -/
def after (w : World) (s : Server) (events : List Event) : World where
  server := s
  log := events.foldl Record.note w.log

/-- A call is made. -/
def making (w : World) (id : CallId) : World := { w with log := w.log.making id }

/-- A call is dropped. -/
def dropping (w : World) (id : CallId) : World := { w with log := w.log.dropping id }

/-- A call to shut down has returned. -/
def resting (w : World) (id : CallId) : World := { w with log := w.log.resting id }

/-- One thing that happens at a server. Calls have names of their own. -/
inductive Move (w : World) : World → Prop where
  | serve {id address} (hnew : id ∉ w.log.calls) :
      Move w ((w.become (w.server.serve id address)).making id)
  | offer {address stream} : Move w (w.become (w.server.offer address stream))
  | fault {address e} : Move w (w.become (w.server.fault address e))
  | loop {now id s events} (h : w.server.stepLoop now id = some (s, events)) :
      Move w (w.after s events)
  | dropLoop {id} (h : id ∈ w.server.loops.map (·.id)) :
      Move w ((w.after (w.server.dropLoop id).1 (w.server.dropLoop id).2).dropping id)
  | begin {now guard secret} (h : w.server.wantsSecret guard = true) :
      Move w (w.become (w.server.beginHandshake now guard secret))
  | handshake {env guard d s d' events}
      (h : w.server.stepHandshake env guard d = some (s, d', events)) : Move w (w.after s events)
  | engine {env guard t d s d' events}
      (h : w.server.stepEngine env guard t d = some (s, d', events)) : Move w (w.after s events)
  | shutdown {id} (hnew : id ∉ w.log.calls) :
      Move w ((w.become (w.server.beginShutdown id)).making id)
  | idle {id s events} (h : w.server.stepIdle id = some (s, events)) :
      Move w ((w.after s events).resting id)
  | dropIdle {id} (h : id ∈ w.server.idling) :
      Move w ((w.become (w.server.dropIdle id)).dropping id)

/-- One world comes to be another. -/
abbrev Leads : World → World → Prop := Relation.ReflTransGen Move

/-- A world that a new server comes to be. -/
def Reachable (w : World) : Prop :=
  ∃ config connection, Leads { server := .create config connection } w

variable {w w' : World}

theorem Reachable.leads (h : w.Reachable) (hlater : Leads w w') : w'.Reachable := by
  obtain ⟨config, connection, hleads⟩ := h
  exact ⟨config, connection, hleads.trans hlater⟩

/-- What holds of a new server and is kept by every move holds of every world. -/
theorem Reachable.induct {motive : World → Prop}
    (hcreate : ∀ config connection, motive { server := .create config connection })
    (hmove : ∀ w w', w.Reachable → motive w → Move w w' → motive w') (h : w.Reachable) :
    motive w := by
  obtain ⟨config, connection, hleads⟩ := h
  induction hleads with
  | refl => exact hcreate config connection
  | tail hleads hstep ih => exact hmove _ _ ⟨config, connection, hleads⟩ ih hstep

/-- What nothing undoes: the settings, the signal, and what calls came to. -/
structure Lasts (w w' : World) : Prop where
  config : w'.server.config = w.server.config
  fired : w.server.shutdown.fired = true → w'.server.shutdown.fired = true
  returned : w.log.returned <+: w'.log.returned
  dropped : w.log.dropped <+: w'.log.dropped

theorem lasts_after {s : Server} {events : List Event}
    (hsame : s.config = w.server.config ∧ s.shutdown = w.server.shutdown) :
    Lasts w (w.after s events) where
  config := hsame.1
  fired hfired := (congrArg Shutdown.fired hsame.2).trans hfired
  returned := w.log.notes_returned events
  dropped := (w.log.notes_kept events).2 ▸ List.prefix_rfl

theorem Lasts.resting (h : Lasts w w') (id : CallId) : Lasts w (w'.resting id) :=
  ⟨h.config, h.fired, h.returned, h.dropped⟩

theorem Lasts.dropping (h : Lasts w w') (id : CallId) : Lasts w (w'.dropping id) where
  config := h.config
  fired := h.fired
  returned := h.returned
  dropped := h.dropped.trans (List.prefix_append _ _)

theorem lasts_move (hmove : w.Move w') : Lasts w w' := by
  cases hmove with
  | serve
  | offer
  | fault
  | begin => exact ⟨rfl, id, List.prefix_rfl, List.prefix_rfl⟩
  | shutdown => exact ⟨rfl, fun _ => rfl, List.prefix_rfl, List.prefix_rfl⟩
  | loop hstep =>
    obtain ⟨l, -, -, hstep⟩ := loopStepped_of_stepLoop hstep
    exact lasts_after hstep.same
  | @dropLoop call hid =>
    obtain ⟨l, -, -, hdropped, -⟩ := loopDropped_of_mem hid
    exact (lasts_after hdropped.same).dropping call
  | handshake hstep =>
    obtain ⟨c, -, -, hstep⟩ := connectionStepped_of_stepHandshake hstep
    exact lasts_after hstep.same
  | engine hstep =>
    obtain ⟨c, -, -, hstep⟩ := connectionStepped_of_stepEngine hstep
    exact lasts_after hstep.same
  | @idle call s events hstep =>
    obtain ⟨-, -, rfl, -⟩ := stepIdle_eq_some hstep
    refine (lasts_after ?_).resting call
    exact ⟨rfl, rfl⟩
  | dropIdle => exact ⟨rfl, id, List.prefix_rfl, List.prefix_append _ _⟩

theorem lasts_leads (h : Leads w w') : Lasts w w' := by
  induction h with
  | refl => exact ⟨rfl, id, List.prefix_rfl, List.prefix_rfl⟩
  | tail _ hmove ih =>
    have hlasts := lasts_move hmove
    exact ⟨hlasts.config.trans ih.config, hlasts.fired ∘ ih.fired,
      ih.returned.trans hlasts.returned, ih.dropped.trans hlasts.dropped⟩

end World

/-! ### Rest -/

/-- No task of a server can go on, with its streams as they are. -/
structure Settled (env : Env) (view : StreamId → Duplex) (s : Server) : Prop where
  loops : ∀ id, s.stepLoop env.now id = none
  secrets : ∀ guard, s.wantsSecret guard = false
  handshakes : ∀ c ∈ s.connections, s.stepHandshake env c.guard (view c.stream) = none
  engines : ∀ c ∈ s.connections, ∀ t, s.stepEngine env c.guard t (view c.stream) = none
  calls : ∀ id, s.stepIdle id = none

/-! A server with one connection, whose handshake cannot go on while its peer takes nothing. -/

/-- A server with the default settings that serves an address and has one connection, whose
handshake has begun. -/
def handshaking : Server :=
  { create {} {} with
    admission := { max := 1024, wait := 3000, free := 1023 }
    tracker := ⟨1, 1⟩
    loops := [{ id := 0, address := "a" }]
    connections := [{ guard := 0, stream := 7, progress := .shaking (.start [] (some 3000)) }] }

theorem exists_handshaking :
    ∃ w : World, w.Reachable ∧ w.server = handshaking ∧ w.log = { calls := [0], opened := 1 } := by
  have hserve : World.Leads { server := create {} {} } _ :=
    .single (@World.Move.serve _ 0 "a" List.not_mem_nil)
  have hoffer := hserve.tail (@World.Move.offer _ "a" 7)
  have htaken := hoffer.tail (@World.Move.loop _ 0 0 _ _ rfl)
  have htracked := htaken.tail (@World.Move.loop _ 0 0 _ _ rfl)
  have hcleared := htracked.tail (@World.Move.loop _ 0 0 _ _ rfl)
  have hadmitted := hcleared.tail (@World.Move.loop _ 0 0 _ _ rfl)
  have hbegun := hadmitted.tail (@World.Move.begin _ 0 0 [] rfl)
  exact ⟨_, ⟨{}, {}, hbegun⟩, rfl, rfl⟩

theorem settled_handshaking :
    Settled ⟨0, true, fun _ => none⟩ (fun _ => .ofCapacity 0) handshaking where
  loops id := by
    by_cases h : (0 : Nat) = id
    · subst h
      rfl
    · simp [stepLoop, handshaking, h]
  secrets guard := by simp [wantsSecret, handshaking]
  handshakes c hc := by
    have hkey : Crypto.X25519.publicKey [] ≠ [] := fun h => by
      simpa using congrArg List.length h
    rw [List.mem_singleton.mp hc]
    simp [stepHandshake, handshaking, create, Handshake.start, Handshake.step, Exchange.start,
      Exchange.advance, hkey, Duplex.ofCapacity, Pipe.push, Pipe.room]
  engines c hc t := by
    rw [List.mem_singleton.mp hc]
    simp [stepEngine, handshaking]
  calls id := rfl

end Parley.Server
