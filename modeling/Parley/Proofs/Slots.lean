import Parley.Proofs.Client.Lossless
import Parley.Proofs.Server.Deeds

/-! Slots are conserved.

However connections and connect calls come and go, and however they end, the slots that are spare
and those in use are as many as there ever were (`slots_are_conserved`). So no more connections
are handled at once than there are slots, and each gives its slot back once. -/
namespace Parley
open Channel

/-- What becomes of a server's slots. -/
structure Server.World.Conserves (w : Server.World) : Prop where
  /-- Where no task can go on, every slot is free or a connection's. -/
  settled : ∀ env view, Server.Settled env view w.server →
    w.server.freeSlots + w.server.connections.length = w.server.config.slots
  /-- Elsewhere some may be on their way to loops in line. -/
  always : w.server.freeSlots + w.server.admission.granted + w.server.connections.length =
    w.server.config.slots
  bounded : w.server.connections.length ≤ w.server.config.slots
  /-- Whatever happens, as many slots are given back as connections end. -/
  once : ∀ w', Server.World.Leads w w' →
    w'.server.admission.spare + w'.server.connections.length =
      w.server.admission.spare + w.server.connections.length

/-- What becomes of a client's slots. -/
structure Client.World.Conserves (w : Client.World) : Prop where
  /-- Where no task can go on, every slot is free, a connect call's that dials or makes its
  handshake, or a connection's that has not ended. -/
  settled : ∀ env view, Client.Settled env view w.client →
    w.client.admission.free + Client.connecting w.client.dials + Client.live w.client.connections =
      w.client.config.slots
  /-- Elsewhere some may be on their way to connect calls in line. -/
  always : w.client.admission.free + w.client.admission.granted +
    Client.connecting w.client.dials + Client.live w.client.connections = w.client.config.slots
  bounded : Client.connecting w.client.dials + Client.live w.client.connections ≤
    w.client.config.slots
  /-- Whatever happens, as many slots are given back as connect calls and connections end. -/
  once : ∀ w', Client.World.Leads w w' →
    w'.client.admission.spare + Client.connecting w'.client.dials +
        Client.live w'.client.connections =
      w.client.admission.spare + Client.connecting w.client.dials +
        Client.live w.client.connections

theorem Server.World.Reachable.conserves {w : Server.World} (h : w.Reachable) : w.Conserves := by
  have hslots := Server.slots_of_kept (Server.kept_of_reachable h)
  exact {
    settled := by
      intro env view hsettled
      have hnone := Server.granted_of_settled (Server.kept_of_reachable h) hsettled
      rwa [Admission.spare, hnone, Nat.add_zero] at hslots
    always := hslots
    bounded := Nat.le.intro ((Nat.add_comm _ _).trans hslots)
    once := by
      intro w' hlater
      have hslots' := Server.slots_of_kept (Server.kept_of_reachable (h.leads hlater))
      rw [hslots', hslots, (Server.World.lasts_leads hlater).config] }

theorem Client.World.Reachable.conserves {w : Client.World} (h : w.Reachable) : w.Conserves := by
  have hslots := Client.slots_of_kept (Client.kept_of_reachable h)
  exact {
    settled := by
      intro env view hsettled
      have hnone := Client.granted_of_settled (Client.kept_of_reachable h) hsettled
      rwa [Admission.spare, hnone, Nat.add_zero] at hslots
    always := hslots
    bounded := by omega
    once := by
      intro w' hlater
      have hslots' := Client.slots_of_kept (Client.kept_of_reachable (h.leads hlater))
      rw [hslots', hslots, (Client.World.lasts_leads hlater).config] }

/-- **Slots are conserved**, at every server and every client, in every run. -/
theorem slots_are_conserved {s : Server.World} {c : Client.World} (hs : s.Reachable)
    (hc : c.Reachable) : s.Conserves ∧ c.Conserves :=
  ⟨hs.conserves, hc.conserves⟩

/-- A server's connection is in its handshake, and its deadline passes. -/
theorem Server.exists_expired : ∃ w w' : Server.World, w.Reachable ∧ Server.World.Leads w w' ∧
    w.server = Server.handshaking ∧ w'.server.connections = [] := by
  obtain ⟨⟨server, log⟩, hw, rfl, rfl⟩ := Server.exists_handshaking
  have hlate := Server.stepHandshake_late ⟨3000, true, fun _ => none⟩ _
    (rfl : Server.handshaking.connections.find? (·.guard == 0) = some _) rfl rfl (Nat.le_refl 3000)
  exact ⟨_, _, hw, .single (.handshake hlate), rfl, rfl⟩

/-- A client's connect call dials, and becomes a connection, which its holder lets go of. -/
theorem Client.exists_released : ∃ w w' w'' : Client.World, w.Reachable ∧
    Client.World.Leads w w' ∧ Client.World.Leads w' w'' ∧ w.client = Client.dialingOne ∧
    (w'.client.dials = [] ∧ Client.live w'.client.connections = 1) ∧
    w''.client.dials = [] ∧ Client.live w''.client.connections = 0 := by
  obtain ⟨key, hagree⟩ := Channel.Shaking.exists_agreed .client
  obtain ⟨⟨client, log⟩, hw, rfl, rfl⟩ := Client.exists_dialing
  let made : Client.World := {
    client := Client.Connection.alone
      ⟨0, 0, Client.dialingOne.engage 0 key, {}, true, none, none⟩ {}
    log := { calls := [0], returned := [(0, .done)], opened := 1 } }
  let env : Client.Env := ⟨0, true, fun _ => none⟩
  have hdialed := Relation.ReflTransGen.single
    (@Client.World.Move.dialed ⟨Client.dialingOne, { calls := [0] }⟩ 0 0 [1] rfl)
  have hagreed := hdialed.trans
    (Client.leads_agreed (Bytes.length_ofNatLE ..) hagree { calls := [0] })
  have hopened := hagreed.tail (@Client.World.Move.handshake _ 0 0 (.ofCapacity 1) _ _ _ rfl)
  have hmade : Client.World.Leads _ made := hopened
  have hleft := Relation.ReflTransGen.single (@Client.World.Move.letGo made 0)
  have htold := hleft.tail (@Client.World.Move.engine _ env 0 .cancel (.ofCapacity 1) _ _ _ rfl)
  have hemptied := htold.tail (@Client.World.Move.engine _ env 0 .write (.ofCapacity 1) _ _ _ rfl)
  have hended := hemptied.tail (@Client.World.Move.engine _ env 0 .close (.ofCapacity 1) _ _ _ rfl)
  exact ⟨_, made, _, hw, hmade, hended, rfl, ⟨rfl, rfl⟩, rfl, rfl⟩

/-- A connection in its handshake has one of the server's slots until its deadline has passed. A
connect call that dials has one of the client's, which its connection keeps until it is over. -/
theorem slots_come_back : ∃ (s s' : Server.World) (c c' c'' : Client.World),
    (Server.World.Leads s s' ∧ Client.World.Leads c c' ∧ Client.World.Leads c' c'') ∧
    (s.server.connections.length = 1 ∧ s.server.freeSlots + 1 = 1024) ∧
    (s'.server.connections.length = 0 ∧ s'.server.admission.spare = 1024) ∧
    (Client.connecting c.client.dials = 1 ∧ c.client.admission.free + 1 + 0 = 16) ∧
    (Client.live c'.client.connections = 1 ∧ c'.client.admission.spare + 0 + 1 = 16) ∧
    Client.live c''.client.connections = 0 ∧ c''.client.admission.spare + 0 + 0 = 16 := by
  obtain ⟨s, s', hs, hlater, hserver, hnone⟩ := Server.exists_expired
  obtain ⟨c, c', c'', hc, hmade, hover, hclient, ⟨hdials', hlive'⟩, hdials'', hlive''⟩ :=
    Client.exists_released
  obtain ⟨hserves, hconnects⟩ := slots_are_conserved hs hc
  have hsettled := hserves.settled _ _ (hserver ▸ Server.settled_handshaking)
  have hsettled' := hconnects.settled ⟨0, true, fun _ => none⟩ (fun _ => .ofCapacity 0)
    (hclient ▸ Client.settled_dialing _ _ _ _)
  have honce := hserves.once s' hlater
  have honce' := hconnects.once c' hmade
  have honce'' := hconnects.once c'' (hmade.trans hover)
  rw [hserver] at hsettled honce
  rw [hclient] at hsettled' honce' honce''
  rw [hnone] at honce
  rw [hdials', hlive'] at honce'
  rw [hdials'', hlive''] at honce''
  exact ⟨s, s', c, c', c'', ⟨hlater, hmade, hover⟩,
    ⟨by rw [hserver]; rfl, by rw [hserver]; exact hsettled⟩, ⟨by rw [hnone]; rfl, honce⟩,
    ⟨by rw [hclient]; rfl, by rw [hclient]; exact hsettled'⟩, ⟨hlive', honce'⟩, hlive'', honce''⟩

end Parley
