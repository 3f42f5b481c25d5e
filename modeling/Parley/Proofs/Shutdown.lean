import Parley.Proofs.Client.Closing
import Parley.Proofs.Server.Closing

/-! Shutting down.

When a call to shut down returns, no connection is left and none is started any more, a loop
that waits returns quietly and a new connect call fails (`shutdown_is_complete`). Wherever the
signal finds the accepting of a stream or the dialing of a connection, it is either seen or the
call to shut down waits for what comes of it.

A server's connections give up their handshakes for it. A client's connect calls do not: one that
dials or makes its handshake goes on as if nothing had happened (`handshakes_at_shutdown`), for
ever if it has no deadline (`dialing_outlives_shutdown`). -/
namespace Parley
open Channel

/-! ### A server -/

/-- However things go on, a loop returns quietly in its next step and drops its streams, and it
comes to nothing else. -/
structure Server.World.Returns (w : Server.World) (id : CallId) : Prop where
  next : ∀ w', Leads w w' → ∀ l ∈ w'.server.loops, l.id = id → ∀ now, ∃ s,
    ∃ streams : List StreamId,
      w'.server.stepLoop now id = some (s, streams.map .dropped ++ [.returned id .done])
  only : ∀ w', Leads w w' → ∀ o, (id, o) ∈ w'.log.returned → o = .done
  /-- Where no task can go on it has returned, unless it was dropped. -/
  settled : ∀ w', Leads w w' → ∀ env view, Settled env view w'.server →
    (id, .done) ∈ w'.log.returned ∨ id ∈ w'.log.dropped

/-- What shutting a server down comes to. -/
structure Server.World.Closes (w : Server.World) : Prop where
  /-- When a call to shut down returns, no connection is there. -/
  returns : ∀ id s events, w.server.stepIdle id = some (s, events) → s.connections = []
  /-- Nor is one later, and none is started. -/
  stays : w.log.rested ≠ [] → ∀ w', Leads w w' →
    w'.server.connections = [] ∧ w'.log.opened = w.log.opened
  /-- Loops that wait for a stream, for the end of a pause or for a slot return. -/
  loops : w.server.shutdown.fired = true → ∀ l ∈ w.server.loops, l.stage.waits = true →
    w.Returns l.id
  /-- So do loops that are started afterwards. -/
  serves : w.server.shutdown.fired = true → ∀ id address, id ∉ w.log.calls →
    ((w.become (w.server.serve id address)).making id).Returns id

theorem Server.Bound.returns {w : Server.World} {id : CallId} (h : Server.Bound w id)
    (hw : w.Reachable) : w.Returns id where
  next w' hlater l hl hid now := by
    subst hid
    have hk := Server.kept_of_reachable (hw.leads hlater)
    have hbound := h.leads hw hlater
    exact Server.stepLoop_of_fired hk hbound.fired hl (hbound.waits hk hl) now
  only w' hlater o ho := (h.leads hw hlater).only (Server.kept_of_reachable (hw.leads hlater)) ho
  settled w' hlater env view hsettled := by
    have hbound := h.leads hw hlater
    rcases hbound.fate with ⟨l, hl, -⟩ | hover
    · have hnone := Server.loops_of_settled (Server.kept_of_reachable (hw.leads hlater))
        hbound.fired hsettled
      rw [hnone] at hl
      cases hl
    · exact hover

theorem Server.World.Reachable.closes {w : Server.World} (hw : w.Reachable) : w.Closes where
  returns id s events h := (Server.shut_of_stepIdle (Server.kept_of_reachable hw) h).connections
  stays hrested w' hlater := by
    obtain ⟨hshut, hopened⟩ := (Server.shut_of_rested hw hrested).leads hlater
    exact ⟨hshut.connections, hopened⟩
  loops hfired l hl hwaits := Server.Bound.returns ⟨hfired, .inl ⟨l, hl, rfl, hwaits⟩⟩ hw
  serves hfired id address hnew := by
    have hserved := hw.leads (.single (@Server.World.Move.serve _ id address hnew))
    exact Server.Bound.returns
      ⟨hfired, .inl ⟨_, List.mem_append_right _ (List.mem_singleton_self _), rfl, rfl⟩⟩ hserved

/-! ### A client -/

/-- However things go on, a connect call is tracked, if it is not yet, and fails in the step
after that for the client's being shut down, and it comes to nothing else. -/
structure Client.World.Fails (w : Client.World) (id : CallId) : Prop where
  next : ∀ w', Leads w w' → ∀ d ∈ w'.client.dials, d.id = id → ∀ now,
    (d.stage = .starting ∧ ∃ c, w'.client.stepDial now id = some (c, []) ∧
      { d with stage := .tracked } ∈ c.dials) ∨
    (d.stage = .tracked ∧ ∃ c, w'.client.stepDial now id =
      some (c, [.returned id (.failed .shutdown)]))
  only : ∀ w', Leads w w' → ∀ o, (id, o) ∈ w'.log.returned → o = .failed .shutdown
  /-- Where no task can go on it has failed, unless it was dropped. -/
  settled : ∀ w', Leads w w' → ∀ env view, Settled env view w'.client →
    (id, .failed .shutdown) ∈ w'.log.returned ∨ id ∈ w'.log.dropped

/-- What shutting a client down comes to. -/
structure Client.World.Closes (w : Client.World) : Prop where
  /-- When a call to shut down returns, every connection has ended. -/
  returns : ∀ id c events, w.client.stepIdle id = some (c, events) →
    ∀ k ∈ c.connections, k.result ≠ none
  /-- That is so later, and none is started. -/
  stays : w.log.rested ≠ [] → ∀ w', Leads w w' →
    (∀ k ∈ w'.client.connections, k.result ≠ none) ∧ w'.log.opened = w.log.opened
  /-- Connect calls that are made afterwards fail. -/
  connects : w.client.shutdown.fired = true → ∀ id address, id ∉ w.log.calls →
    ((w.become (w.client.connect id address)).making id).Fails id

theorem Client.Shut.results {c : Client} (h : Client.Shut c) :
    ∀ k ∈ c.connections, k.result ≠ none := by
  intro k hk hnone
  have hover := h.connections k hk
  rw [Client.Connection.isLive, hnone] at hover
  cases hover

theorem Client.Doomed.fails {w : Client.World} {id : CallId} (h : Client.Doomed w id)
    (hw : w.Reachable) : w.Fails id where
  next w' hlater d hd hid now := by
    subst hid
    have hk := Client.kept_of_reachable (hw.leads hlater)
    have hdoomed := h.leads hw hlater
    have hearly := hdoomed.early hk hd
    cases hstage : d.stage with
    | starting => exact .inl ⟨rfl, Client.stepDial_of_starting hk hd hstage now⟩
    | tracked => exact .inr ⟨rfl, Client.stepDial_of_fired hk hdoomed.fired hd hstage now⟩
    | cleared
    | queued
    | dialing due
    | shaking stream x =>
      rw [hstage] at hearly
      cases hearly
  only w' hlater o ho := (h.leads hw hlater).only (Client.kept_of_reachable (hw.leads hlater)) ho
  settled w' hlater env view hsettled := by
    have hk := Client.kept_of_reachable (hw.leads hlater)
    have hdoomed := h.leads hw hlater
    rcases hdoomed.fate with ⟨d, hd, rfl, hearly⟩ | hover
    · have hslot := Client.dials_of_settled hk hdoomed.fired hsettled hd
      rw [Client.Stage.isEarly_of_hasSlot hslot] at hearly
      cases hearly
    · exact hover

theorem Client.World.Reachable.closes {w : Client.World} (hw : w.Reachable) : w.Closes where
  returns id c events h := (Client.shut_of_stepIdle (Client.kept_of_reachable hw) h).results
  stays hrested w' hlater := by
    obtain ⟨hshut, hopened⟩ := (Client.shut_of_rested hw hrested).leads hw hlater
    exact ⟨hshut.results, hopened⟩
  connects hfired id address hnew := by
    have hconnected := hw.leads (.single (@Client.World.Move.connect _ id address hnew))
    exact Client.Doomed.fails
      ⟨hfired, .inl ⟨_, List.mem_append_right _ (List.mem_singleton_self _), rfl, rfl⟩⟩ hconnected

/-! ### Both -/

/-- **Shutting down is complete**, at every server and every client, in every run. -/
theorem shutdown_is_complete {s : Server.World} {c : Client.World} (hs : s.Reachable)
    (hc : c.Reachable) : s.Closes ∧ c.Closes :=
  ⟨hs.closes, hc.closes⟩

/-- A call to shut down ends the only handshake of a server and returns, and so does one to shut
down a client whose only connect call has failed. The server's loop still has to see it. -/
theorem shutdown_of_handshaking : ∃ (s : Server.World) (c : Client.World),
    s.log.rested = [1] ∧ c.log.rested = [1] ∧ s.server.loops.length = 1 ∧
      (∀ w', Server.World.Leads s w' → w'.server.connections = [] ∧ w'.log.opened = 1) ∧
      s.Returns 0 ∧ ((s.become (s.server.serve 2 "b")).making 2).Returns 2 ∧
      ((c.become (c.client.connect 2 "b")).making 2).Fails 2 := by
  obtain ⟨⟨server, log⟩, hs, rfl, rfl⟩ := Server.exists_handshaking
  obtain ⟨⟨client, log⟩, hc, rfl, rfl⟩ := Client.exists_dialing
  have htold := hs.leads (.single (@Server.World.Move.shutdown _ 1 (by decide)))
  have hended := htold.leads (.single
    (@Server.World.Move.handshake _ ⟨0, true, fun _ => none⟩ 0 (.ofCapacity 0) _ _ _ rfl))
  have hserver := hended.leads (.single (@Server.World.Move.idle _ 1 _ _ rfl))
  have hfailed := hc.leads (.single (@Client.World.Move.refused _ 0 (.ofCode 111) rfl))
  have htold' := hfailed.leads (.single (@Client.World.Move.shutdown _ 1 (by decide)))
  have hclient := htold'.leads (.single (@Client.World.Move.idle _ 1 _ _ rfl))
  obtain ⟨hserves, hconnects⟩ := shutdown_is_complete hserver hclient
  exact ⟨_, _, rfl, rfl, rfl, hserves.stays (by decide),
    hserves.loops rfl _ (List.mem_singleton_self _) rfl, hserves.serves rfl 2 "b" (by decide),
    hconnects.connects rfl 2 "b" (by decide)⟩

/-! ### Handshakes -/

/-- **Where no task can go on after the signal**, no loop and no handshake is left at a server. At
a client connect calls may be left that have a slot, and dial or make their handshakes, as long as
their time is not up. -/
theorem handshakes_at_shutdown {s : Server.World} {c : Client.World} (hs : s.Reachable)
    (hc : c.Reachable) (hfired : s.server.shutdown.fired = true)
    (hfired' : c.client.shutdown.fired = true) {env : Server.Env} {env' : Client.Env}
    {view view' : StreamId → Duplex} (hsettled : Server.Settled env view s.server)
    (hsettled' : Client.Settled env' view' c.client) :
    (s.server.loops = [] ∧ ∀ k ∈ s.server.connections, ∃ e, k.progress = .engaged e) ∧
      ∀ d ∈ c.client.dials, d.stage.hasSlot = true ∧ ∀ due ∈ d.stage.dues, env'.now < due := by
  have hk := Server.kept_of_reachable hs
  have hk' := Client.kept_of_reachable hc
  exact ⟨⟨Server.loops_of_settled hk hfired hsettled,
      fun k => Server.engaged_of_settled hk hfired hsettled⟩,
    fun d hd => ⟨Client.dials_of_settled hk' hfired' hsettled' hd,
      fun due => Client.due_of_settled hk' hsettled' hd⟩⟩

/-- A server whose only connection has given up its handshake rests, and so does a client that
dials. -/
theorem handshake_gives_up : ∃ (s : Server.World) (c : Client.World),
    s.server.loops = [] ∧ s.log.returned = [(0, .done), (1, .done)] ∧
      c.client.dials.length = 1 ∧ ∀ d ∈ c.client.dials, d.stage.hasSlot = true := by
  obtain ⟨⟨server, log⟩, hs, rfl, rfl⟩ := Server.exists_handshaking
  obtain ⟨⟨client, log⟩, hc, rfl, rfl⟩ := Client.exists_dialing
  have htold := hs.leads (.single (@Server.World.Move.shutdown _ 1 (by decide)))
  have hended := htold.leads (.single
    (@Server.World.Move.handshake _ ⟨0, true, fun _ => none⟩ 0 (.ofCapacity 0) _ _ _ rfl))
  have hreturned := hended.leads (.single (@Server.World.Move.loop _ 0 0 _ _ rfl))
  have hserver := hreturned.leads (.single (@Server.World.Move.idle _ 1 _ _ rfl))
  have hclient := hc.leads (.single (@Client.World.Move.shutdown _ 1 (by decide)))
  obtain ⟨⟨hloops, -⟩, hdials⟩ := @handshakes_at_shutdown _ _ hserver hclient rfl rfl
    ⟨0, true, fun _ => none⟩ ⟨0, true, fun _ => none⟩ (fun _ => .ofCapacity 0)
    (fun _ => .ofCapacity 0)
    { loops := fun _ => rfl
      secrets := fun _ => rfl
      handshakes := fun _ hk => absurd hk List.not_mem_nil
      engines := fun _ hk => absurd hk List.not_mem_nil
      calls := fun _ => rfl } (Client.settled_dialing _ _ _ _)
  exact ⟨_, _, hloops, rfl, rfl, fun d hd => (hdials d hd).1⟩

/-- A client that is told to shut down while a connect call dials without a deadline rests there,
at any time: the connect call has not ended and the call to shut down has not returned. -/
theorem dialing_outlives_shutdown : ∃ c : Client.World, c.Reachable ∧
    c.client.shutdown.fired = true ∧ (∀ env view, Client.Settled env view c.client) ∧
      c.client.dials = [{ id := 0, address := "a", stage := .dialing none }] ∧
      c.client.idling = [1] := by
  obtain ⟨⟨client, log⟩, hc, rfl, rfl⟩ := Client.exists_dialing
  exact ⟨_, hc.leads (.single (@Client.World.Move.shutdown _ 1 (by decide))), rfl,
    fun env view => Client.settled_dialing env view _ _, rfl, rfl⟩

end Parley
