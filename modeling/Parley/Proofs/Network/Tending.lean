import Parley.Proofs.Network.Calling

/-! The server's connection with a command-line call.

Like the call's client, it can do one thing at a time: make its handshake (`shook_of_step`), or
drive its engine (`drove_of_step`). Its steps change nothing but the server and the stream
(`Tended`). -/
namespace Parley
open Channel

namespace Sim.Network
variable {own : CallId} {n n' : Network} {g : Nat} {s : StreamId} {d d' : Duplex} {h : Handshake}
  {k : Server.Connection} {e : Engine} {t : Task} {events : List Event}

/-- A task of the server belongs to no client. -/
theorem not_mine_of_spot (h : t.spot ≠ .nowhere) : ¬ Watch.mine own t := by
  have hnone : t.client? = none := by
    cases t <;> first | rfl | exact absurd rfl h
  intro hmine
  cases hnone.symm.trans hmine

/-- Reports that give no stream up change nothing but the server. -/
theorem quiet_serverDid (n : Network) (server : Server) (hevents : ∀ x, .dropped x ∉ events) :
    (n.serverDid (server, events)).links = n.links ∧
      (n.serverDid (server, events)).scripts = n.scripts ∧
      (n.serverDid (server, events)).client = n.client := by
  have hnotes : ∀ m : Network, (events.foldl noteServer m).links = m.links ∧
      (events.foldl noteServer m).scripts = m.scripts ∧
      (events.foldl noteServer m).client = m.client := by
    induction events with
    | nil => exact fun m => ⟨rfl, rfl, rfl⟩
    | cons ev events ih =>
      intro m
      obtain ⟨hlinks, hscripts, hclient⟩ :=
        ih (fun x hx => hevents x (List.mem_cons_of_mem _ hx)) (m.noteServer ev)
      have hnote : (m.noteServer ev).links = m.links ∧ (m.noteServer ev).scripts = m.scripts ∧
          (m.noteServer ev).client = m.client := by
        unfold noteServer
        split
        · exact ⟨rfl, rfl, rfl⟩
        · exact absurd List.mem_cons_self (hevents _)
        · exact ⟨rfl, rfl, rfl⟩
        · exact ⟨rfl, rfl, rfl⟩
      exact ⟨hlinks.trans hnote.1, hscripts.trans hnote.2.1, hclient.trans hnote.2.2⟩
  exact hnotes { n with server }

/-- The server's connection is at a new place on its stream; all else is as it was. -/
structure Tended (n n' : Network) (k : Server.Connection) (d : Duplex) : Prop where
  links : n'.links = n.links.set k.stream d.flip
  scripts : n'.scripts = n.scripts
  client : n'.client = n.client
  surroundings : n'.surroundings = { n.surroundings with server := n.server.setConnection k }

theorem tended_serverDid (n : Network) (k : Server.Connection) (d : Duplex) (events : List Event)
    (hevents : ∀ x, .dropped x ∉ events) :
    Tended n ((n.setView k.stream false d).serverDid (n.server.setConnection k, events)) k d := by
  obtain ⟨hlinks, hscripts, hclient⟩ :=
    quiet_serverDid (n.setView k.stream false d) (n.server.setConnection k) hevents
  exact ⟨hlinks, hscripts, hclient, surroundings_serverDid ..⟩

theorem Tended.server (h : Tended n n' k d) : n'.server = n.server.setConnection k :=
  congrArg Surroundings.server h.surroundings

theorem Tended.running (h : Tended n n' k d) : n'.running? own = n.running? own := by
  rw [running?, h.scripts]
  rfl

theorem Tended.apart (h : Tended n n' k d) (ha : n.Apart own (.connection k.guard) s) :
    n'.Apart own (.connection k.guard) s where
  client := h.client ▸ ha.client
  scripts := h.scripts ▸ ha.scripts
  plains := by
    rw [show n'.plains = n.plains from congrArg Surroundings.plains h.surroundings]
    exact ha.plains
  server := h.server ▸ ha.server.setConnection fun hne => absurd rfl hne

theorem Tended.found {x : Server.Connection} (h : Tended n n' k d)
    (hx : n.server.connections.find? (·.guard == k.guard) = some x) :
    n'.server.connections.find? (·.guard == k.guard) = some k := by
  rw [h.server]
  exact Keyed.find?_set (k := Server.Connection.guard) hx rfl

/-- What a step of the handshake of a server's connection comes to. -/
inductive Shook (n : Network) (g : Nat) (s : StreamId) (h : Handshake) (d : Duplex) :
    Network → Prop where
  | goes {n' : Network} {h' : Handshake} {d' : Duplex}
      (hp : h.step .server n.now d.flip = some (.going h' d'))
      (ht : Tended n n' { guard := g, stream := s, progress := .shaking h' } d') :
      Shook n g s h d n'
  | agrees {n' : Network} {key : SessionKey}
      (hp : h.step .server n.now d.flip = some (.agreed key))
      (ht : Tended n n'
        { guard := g, stream := s, progress := .engaged (n.server.engage n.now key) } d.flip) :
      Shook n g s h d n'
  | fails {n' : Network} {e : Error} (hp : h.step .server n.now d.flip = some (.failed e)) :
      Shook n g s h d n'

theorem ready_onServerStream {f : Duplex → Option (Server × Duplex × List Event)}
    (hk : n.server.connections.find? (·.guard == g) = some k)
    (hf : f (n.view k.stream false) ≠ none) : n.onServerStream g f ≠ none := by
  unfold onServerStream
  rw [hk]
  dsimp only
  rw [ne_eq, Option.map_eq_none_iff]
  exact hf

theorem Steady.guards_nodup {connection : Config.Connection} (h : Steady connection n) :
    (n.server.connections.map (·.guard)).Nodup := by
  obtain ⟨log, hlog⟩ := h.reachable
  exact (List.nodup_append.mp (Server.kept_of_reachable hlog).guards).2.1

/-- A connection that has begun its handshake needs no secret. -/
theorem Steady.wantsSecret_eq_false {connection : Config.Connection} (h : Steady connection n)
    (hk : n.server.connections.find? (·.guard == g) = some k) (hbegun : k.progress ≠ .arriving) :
    n.server.wantsSecret g = false := by
  obtain ⟨hmem, hguard⟩ := Keyed.mem_of_find? (k := Server.Connection.guard) hk
  have hnone : ∀ c ∈ n.server.connections, c.guard = g → c = k := fun c hc hcg =>
    Keyed.eq_of_mem h.guards_nodup hc hmem (hcg.trans hguard.symm)
  rw [Server.wantsSecret, Bool.and_eq_false_iff]
  refine .inr (List.any_eq_false.mpr fun c hc => ?_)
  by_cases hcg : c.guard = g
  · obtain rfl := hnone c hc hcg
    cases hp : c.progress with
    | arriving => exact absurd hp hbegun
    | shaking => simp
    | engaged => simp
  · simp [hcg]

/-- **While it makes its handshake, a server's connection can do nothing else.** -/
theorem shook_of_step {connection : Config.Connection} (hsteady : Steady connection n)
    (hk : n.server.connections.find? (·.guard == g) =
      some { guard := g, stream := s, progress := .shaking h })
    (hlink : n.links[s]? = some d) (ht : t.spot = .connection g) (hstep : step t n = some n') :
    Shook n g s h d n' := by
  cases serverStepped_of_step (ht ▸ Server.Spot.noConfusion) hstep with
  | loop | idle => cases ht
  | begins hwants =>
    obtain rfl := Server.Spot.connection.inj ht
    rw [hsteady.wantsSecret_eq_false hk Server.Progress.noConfusion] at hwants
    cases hwants
  | handshake _ hk' hs =>
    obtain rfl := Server.Spot.connection.inj ht
    obtain rfl := Option.some.inj (hk'.symm.trans hk)
    rw [view_of_link hlink, if_neg Bool.false_ne_true] at hs
    unfold Server.stepHandshake at hs
    rw [hk] at hs
    dsimp only at hs
    rw [hsteady.running, if_neg Bool.false_ne_true] at hs
    split at hs
    · cases hs
    · rename_i h' _ hp
      cases hs
      exact .goes hp
        (tended_serverDid n { guard := _, stream := s, progress := .shaking h' } _ [] (by simp))
    · rename_i key hp
      cases hs
      exact .agrees hp (tended_serverDid n
        { guard := _, stream := s, progress := .engaged (n.server.engage n.now key) } _ []
        (by simp))
    · rename_i hp
      exact .fails hp
  | engine hk' hs =>
    obtain rfl := Server.Spot.connection.inj ht
    unfold Server.stepEngine at hs
    rw [hk] at hs
    cases hs

/-- An engine that drives its stream on has not reported the end of it. -/
theorem ends_eq_false {env : Engine.Env} {e' : Engine} {k : Engine.Task}
    {events : List Engine.Event} (hstep : e.step env k d = some (e', d', events))
    (hdriven : e'.drive ≠ none) : Server.ends events = false := by
  have hending : Client.ending events = none := by
    rcases Client.ending_eq (Engine.stepped_of_step hstep) with ⟨hnone, -⟩ | ⟨-, -, hover⟩
    · exact hnone
    · exact absurd hover hdriven
  rw [Server.ends, List.any_eq_false]
  intro ev hev
  have hnone := List.findSome?_eq_none_iff.mp hending ev hev
  cases ev with
  | ended r => cases hnone
  | _ => simp

/-- **While it drives its engine, a server's connection can do nothing else.** -/
theorem drove_of_step {connection : Config.Connection} (hsteady : Steady connection n)
    (hk : n.server.connections.find? (·.guard == g) =
      some { guard := g, stream := s, progress := .engaged e })
    (hlink : n.links[s]? = some d) (ht : t.spot = .connection g) (hstep : step t n = some n') :
    ∃ k e' d' events, e.step (n.serverEnv.engine n.server) k d.flip = some (e', d', events) ∧
      (e'.drive ≠ none → Tended n n' { guard := g, stream := s, progress := .engaged e' } d') := by
  cases serverStepped_of_step (ht ▸ Server.Spot.noConfusion) hstep with
  | loop | idle => cases ht
  | begins hwants =>
    obtain rfl := Server.Spot.connection.inj ht
    rw [hsteady.wantsSecret_eq_false hk Server.Progress.noConfusion] at hwants
    cases hwants
  | handshake _ _ hs =>
    obtain rfl := Server.Spot.connection.inj ht
    unfold Server.stepHandshake at hs
    rw [hk] at hs
    cases hs
  | @engine _ t _ _ _ _ hk' hs =>
    obtain rfl := Server.Spot.connection.inj ht
    obtain rfl := Option.some.inj (hk'.symm.trans hk)
    rw [view_of_link hlink, if_neg Bool.false_ne_true] at hs
    unfold Server.stepEngine at hs
    rw [hk] at hs
    dsimp only at hs
    split at hs
    · cases hs
    · rename_i e' d' events hp
      refine ⟨t, e', d', events, hp, fun hdriven => ?_⟩
      rw [ends_eq_false hp hdriven, if_neg Bool.false_ne_true] at hs
      cases hs
      exact tended_serverDid n { guard := _, stream := s, progress := .engaged e' } _
        (events.map .engine) (by simp)

/-- A handshake that can go on is not waited for. -/
theorem serverHandshake_ready {connection : Config.Connection} (hsteady : Steady connection n)
    (hk : n.server.connections.find? (·.guard == g) =
      some { guard := g, stream := s, progress := .shaking h })
    (hlink : n.links[s]? = some d)
    (hready : (∃ key, h.exchange = .agreed key) ∨ h.exchange.advance .server d.flip ≠ none) :
    step (.serverHandshake g) n ≠ none := by
  show n.stepServerHandshake g ≠ none
  unfold stepServerHandshake
  rw [hsteady.wantsSecret_eq_false hk Server.Progress.noConfusion, if_neg Bool.false_ne_true]
  refine ready_onServerStream hk ?_
  rw [view_of_link hlink, if_neg Bool.false_ne_true]
  unfold Server.stepHandshake
  rw [hk]
  dsimp only
  rw [hsteady.running, if_neg Bool.false_ne_true]
  split
  · rename_i hnone
    exact absurd hnone (Handshake.step_ready hready _)
  · exact Option.some_ne_none _
  · exact Option.some_ne_none _
  · exact Option.some_ne_none _

/-- An engine that can make a step is not waited for. -/
theorem serverEngine_ready {k : Engine.Task}
    (hk : n.server.connections.find? (·.guard == g) =
      some { guard := g, stream := s, progress := .engaged e })
    (hlink : n.links[s]? = some d)
    (hready : e.step (n.serverEnv.engine n.server) k d.flip ≠ none) :
    step (.serverEngine g k) n ≠ none := by
  refine ready_onServerStream hk ?_
  rw [view_of_link hlink, if_neg Bool.false_ne_true]
  unfold Server.stepEngine
  rw [hk]
  dsimp only
  split
  · rename_i hnone
    exact absurd hnone hready
  · split <;> exact Option.some_ne_none _

end Sim.Network
end Parley
