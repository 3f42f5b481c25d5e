import Mathlib.Logic.Relation
import Parley.Proofs.Client.Rules
import Parley.Proofs.Engine.History
import Parley.Proofs.Record

/-! A client and all that happens at it.

A `World` is a client and the `Record` of what has happened at it, and a `Move` is anything that
can be done to it: a call is made or dropped, dialing fails or yields a stream, a holder lets go
of its connection, or a task takes a step. What a task finds on its stream is whatever the far
end, the network and the time make of it, so that what holds in all worlds that a new client comes
to be (`Reachable`) holds for all peers, all schedules and all clocks. No move undoes what has
happened (`Lasts`). -/
namespace Parley.Client
open Channel

/-- A client, and what has happened. -/
structure World where
  client : Client
  log : Record := {}

/-- A call into an engine is taken. -/
inductive Taken (e : Engine) : Engine → Prop where
  | post {payload e'} (h : e.post payload = .ok e') : Taken e e'
  | write {id payload e'} (h : e.write id payload = .ok e') : Taken e e'
  | request {id payload capacity due e'} (h : e.request id payload capacity due = .ok e') :
      Taken e e'

/-- It goes on driving its stream, or not, as before. -/
theorem Taken.drive_eq {e e' : Engine} (h : Taken e e') : e'.drive = e.drive := by
  cases h with
  | post h => rw [(Engine.post_eq_ok h).2]; rfl
  | write h => rw [(Engine.write_eq_ok h).2]; rfl
  | request h => rw [(Engine.request_eq_ok h).2]; rfl

theorem drive_giveUp (e : Engine) (call : CallId) : (e.giveUp call).drive = e.drive := by
  unfold Engine.giveUp
  split
  · rfl
  · rw [Engine.leave_eq]

namespace World

/-- The same with another client. -/
def become (w : World) (c : Client) : World := { w with client := c }

/-- What a step leaves. -/
def after (w : World) (c : Client) (events : List Event) : World where
  client := c
  log := events.foldl Record.note w.log

/-- A call is made. -/
def making (w : World) (id : CallId) : World := { w with log := w.log.making id }

/-- A call is dropped. -/
def dropping (w : World) (id : CallId) : World := { w with log := w.log.dropping id }

/-- A call to shut down has returned. -/
def resting (w : World) (id : CallId) : World := { w with log := w.log.resting id }

/-- One thing that happens at a client. Calls have names of their own. -/
inductive Move (w : World) : World → Prop where
  | connect {id address} (hnew : id ∉ w.log.calls) :
      Move w ((w.become (w.client.connect id address)).making id)
  | dial {now id c events} (h : w.client.stepDial now id = some (c, events)) :
      Move w (w.after c events)
  | refused {id e} (h : (w.client.dialing id).isSome = true) :
      Move w (w.after (w.client.refused id e).1 (w.client.refused id e).2)
  | dialed {id stream secret} (h : (w.client.dialing id).isSome = true) :
      Move w (w.become (w.client.dialed id stream secret))
  | handshake {now id s c s' events}
      (h : w.client.stepHandshake now id s = some (c, s', events)) : Move w (w.after c events)
  | dropDial {id} (h : id ∈ w.client.dials.map (·.id)) :
      Move w ((w.after (w.client.dropDial id).1 (w.client.dropDial id).2).dropping id)
  | call {id e e'} (he : w.client.engine? id = some e) (h : Taken e e') :
      Move w (w.become (w.client.setEngine id e'))
  | dropCall {call} : Move w (w.become (w.client.dropCall call))
  | engine {env id t s c s' events}
      (h : w.client.stepEngine env id t s = some (c, s', events)) : Move w (w.after c events)
  | relay {id c events} (h : w.client.stepRelay id = some (c, events)) : Move w (w.after c events)
  | ending {id c events} (h : w.client.stepEnd id = some (c, events)) : Move w (w.after c events)
  | join {id call c} (hnew : call ∉ w.log.calls) (h : w.client.join id call = (true, c)) :
      Move w ((w.become c).making call)
  | close {id call c} (hnew : call ∉ w.log.calls) (h : w.client.close id call = (true, c)) :
      Move w ((w.become c).making call)
  | letGo {id} : Move w (w.become (w.client.letGo id))
  | dropEnd {call} (h : call ∈ w.client.connections.filterMap (·.awaiting)) :
      Move w ((w.become (w.client.dropEnd call)).dropping call)
  | shutdown {id} (hnew : id ∉ w.log.calls) :
      Move w ((w.become (w.client.beginShutdown id)).making id)
  | idle {id c events} (h : w.client.stepIdle id = some (c, events)) :
      Move w ((w.after c events).resting id)
  | dropIdle {id} (h : id ∈ w.client.idling) :
      Move w ((w.become (w.client.dropIdle id)).dropping id)
  | drop : Move w (w.become w.client.drop)

/-- One world comes to be another. -/
abbrev Leads : World → World → Prop := Relation.ReflTransGen Move

/-- A world that a new client comes to be. -/
def Reachable (w : World) : Prop :=
  ∃ config connection, Leads { client := .create config connection } w

variable {w w' : World}

theorem Reachable.leads (h : w.Reachable) (hlater : Leads w w') : w'.Reachable := by
  obtain ⟨config, connection, hleads⟩ := h
  exact ⟨config, connection, hleads.trans hlater⟩

/-- What holds of a new client and is kept by every move holds of every world. -/
theorem Reachable.induct {motive : World → Prop}
    (hcreate : ∀ config connection, motive { client := .create config connection })
    (hmove : ∀ w w', w.Reachable → motive w → Move w w' → motive w') (h : w.Reachable) :
    motive w := by
  obtain ⟨config, connection, hleads⟩ := h
  induction hleads with
  | refl => exact hcreate config connection
  | tail hleads hstep ih => exact hmove _ _ ⟨config, connection, hleads⟩ ih hstep

/-- What nothing undoes: the settings, the signal, and what calls came to. -/
structure Lasts (w w' : World) : Prop where
  config : w'.client.config = w.client.config
  fired : w.client.shutdown.fired = true → w'.client.shutdown.fired = true
  returned : w.log.returned <+: w'.log.returned
  dropped : w.log.dropped <+: w'.log.dropped

theorem lasts_after {c : Client} {events : List Event}
    (hsame : c.config = w.client.config ∧ c.shutdown = w.client.shutdown) :
    Lasts w (w.after c events) where
  config := hsame.1
  fired hfired := (congrArg Shutdown.fired hsame.2).trans hfired
  returned := w.log.notes_returned events
  dropped := (w.log.notes_kept events).2 ▸ List.prefix_rfl

theorem Lasts.making (h : Lasts w w') (id : CallId) : Lasts w (w'.making id) :=
  ⟨h.config, h.fired, h.returned, h.dropped⟩

theorem Lasts.resting (h : Lasts w w') (id : CallId) : Lasts w (w'.resting id) :=
  ⟨h.config, h.fired, h.returned, h.dropped⟩

theorem Lasts.dropping (h : Lasts w w') (id : CallId) : Lasts w (w'.dropping id) where
  config := h.config
  fired := h.fired
  returned := h.returned
  dropped := h.dropped.trans (List.prefix_append _ _)

theorem lasts_beside {c : Client} (h : Beside w.client c) (events : List Event) :
    Lasts w (w.after c events) :=
  lasts_after ⟨h.config, h.shutdown⟩

theorem lasts_move (hmove : w.Move w') : Lasts w w' := by
  cases hmove with
  | connect
  | call
  | dropCall
  | drop => exact ⟨rfl, id, List.prefix_rfl, List.prefix_rfl⟩
  | shutdown => exact ⟨rfl, fun _ => rfl, List.prefix_rfl, List.prefix_rfl⟩
  | dial hstep =>
    obtain ⟨d, -, -, hstep⟩ := dialStepped_of_stepDial hstep
    exact lasts_after hstep.same
  | @refused call e hdialing =>
    obtain ⟨d, -, -, hstep⟩ := dialStepped_refused hdialing 0 e
    exact lasts_after hstep.same
  | @dialed call stream secret hdialing =>
    obtain ⟨d, -, -, hstep⟩ := dialStepped_dialed hdialing 0 stream secret
    exact @lasts_after _ _ [] hstep.same
  | handshake hstep =>
    obtain ⟨d, -, -, hstep⟩ := dialStepped_of_stepHandshake hstep
    exact lasts_after hstep.same
  | @dropDial call hid =>
    obtain ⟨d, -, -, hdropped, -⟩ := dialDropped_of_mem hid
    exact (lasts_after hdropped.same).dropping call
  | engine hstep =>
    obtain ⟨k, -, -, hstep⟩ := taskStepped_of_stepEngine hstep
    exact lasts_beside (beside_taskStepped hstep) _
  | relay hstep => exact lasts_beside (beside_stepRelay hstep) _
  | ending hstep => exact lasts_beside (beside_stepEnd hstep) _
  | @join _ call _ _ hjoin => exact (lasts_beside (beside_join hjoin) []).making call
  | @close _ call _ _ hclose => exact (lasts_beside (beside_close hclose) []).making call
  | letGo => exact lasts_beside (beside_letGo w.client _) []
  | @idle call c events hstep => exact (lasts_beside (beside_stepIdle hstep) events).resting call
  | dropEnd
  | dropIdle => exact ⟨rfl, id, List.prefix_rfl, List.prefix_append _ _⟩

theorem lasts_leads (h : Leads w w') : Lasts w w' := by
  induction h with
  | refl => exact ⟨rfl, id, List.prefix_rfl, List.prefix_rfl⟩
  | tail _ hmove ih =>
    have hlasts := lasts_move hmove
    exact ⟨hlasts.config.trans ih.config, hlasts.fired ∘ ih.fired,
      ih.returned.trans hlasts.returned, ih.dropped.trans hlasts.dropped⟩

end World

/-! ### Rest -/

/-- No task of a client can go on, with its streams as they are. -/
structure Settled (env : Env) (view : StreamId → Duplex) (c : Client) : Prop where
  dials : ∀ id, c.stepDial env.now id = none
  handshakes : ∀ d ∈ c.dials, ∀ stream h, d.stage = .shaking stream h →
    c.stepHandshake env.now d.id (view stream) = none
  engines : ∀ k ∈ c.connections, ∀ t, c.stepEngine env k.id t (view k.stream) = none
  relays : ∀ id, c.stepRelay id = none
  ends : ∀ id, c.stepEnd id = none
  calls : ∀ id, c.stepIdle id = none

/-! A client with one connect call, which waits for its dialing without a deadline. -/

/-- A client with one connect call, which dials without a deadline. -/
def dialingOne : Client :=
  { create { handshakeTimeoutMs := some 0 } {} with
    admission := { max := 16, wait := 3000, free := 15 }
    tracker := ⟨1, 1⟩
    dials := [{ id := 0, address := "a", stage := .dialing none }] }

theorem exists_dialing :
    ∃ w : World, w.Reachable ∧ w.client = dialingOne ∧ w.log = { calls := [0] } := by
  have hconnect : World.Leads { client := create { handshakeTimeoutMs := some 0 } {} } _ :=
    .single (@World.Move.connect _ 0 "a" List.not_mem_nil)
  have htracked := hconnect.tail (@World.Move.dial _ 0 0 _ _ rfl)
  have hcleared := htracked.tail (@World.Move.dial _ 0 0 _ _ rfl)
  have hdialing := hcleared.tail (@World.Move.dial _ 0 0 _ _ rfl)
  exact ⟨_, ⟨{ handshakeTimeoutMs := some 0 }, {}, hdialing⟩, rfl, rfl⟩

/-- It can wait for ever, also when its client is told to shut down. -/
theorem settled_dialing (env : Env) (view : StreamId → Duplex) (shutdown : Shutdown)
    (idling : List CallId) : Settled env view { dialingOne with shutdown, idling } where
  dials id := by
    by_cases h : (0 : Nat) = id
    · subst h
      rfl
    · simp [stepDial, dialingOne, h]
  handshakes d hd stream h hstage := by
    rw [List.mem_singleton.mp hd] at hstage
    cases hstage
  engines k hk := absurd hk List.not_mem_nil
  relays id := rfl
  ends id := rfl
  calls id := by simp [stepIdle, dialingOne, Tracker.isIdle]

end Parley.Client
