import Parley.Sim.Network.Step

/-! What one step of a network's tasks can do.

A step is the server's, a client's or a plain peer's, and `ServerStepped`, `ClientStepped` and
`Stepped` have one rule for each thing that can happen: what has to hold before, what the part that
steps makes of it, and the network that is left. Every step is by one of the rules
(`stepped_of_step`). -/
namespace Parley.Sim.Network
open Channel

/-- One step of the server's. -/
inductive ServerStepped (n : Network) : Task → Network → Prop where
  | loop {id s events} (h : n.server.stepLoop n.now id = some (s, events)) :
      ServerStepped n (.loop id) (n.serverDid (s, events))
  /-- A connection that has arrived has a secret. -/
  | begins {guard} (hwants : n.server.wantsSecret guard = true) :
      ServerStepped n (.serverHandshake guard) { n with
        entropy := (n.entropy.draw Exchange.keyLength).2
        server := n.server.beginHandshake n.now guard (n.entropy.draw Exchange.keyLength).1 }
  | handshake {guard k s d events} (hwants : n.server.wantsSecret guard = false)
      (hk : n.server.connections.find? (·.guard == guard) = some k)
      (h : n.server.stepHandshake n.serverEnv guard (n.view k.stream false) =
        some (s, d, events)) :
      ServerStepped n (.serverHandshake guard)
        ((n.setView k.stream false d).serverDid (s, events))
  | engine {guard t k s d events}
      (hk : n.server.connections.find? (·.guard == guard) = some k)
      (h : n.server.stepEngine n.serverEnv guard t (n.view k.stream false) =
        some (s, d, events)) :
      ServerStepped n (.serverEngine guard t) ((n.setView k.stream false d).serverDid (s, events))
  | idle {id s events} (h : n.server.stepIdle id = some (s, events)) :
      ServerStepped n (.serverIdle id) (n.serverDid (s, events))

/-- One step of a client's. -/
inductive ClientStepped (n : Network) (ref : ClientRef) (c : Client) : Task → Network → Prop where
  /-- A connect call moves on without a stream: it does not dial, or nobody will answer. -/
  | waits {id c' events}
      (hdialing : ∀ address, c.dialing id = some address → n.blackHoles.contains address = true)
      (h : c.stepDial n.now id = some (c', events)) :
      ClientStepped n ref c (.dial ref id) (n.clientDid ref (c', events))
  | refused {id address} (hdialing : c.dialing id = some address)
      (hanswers : n.blackHoles.contains address = false)
      (hlistening : n.isListening address = false) :
      ClientStepped n ref c (.dial ref id) (n.clientDid ref (c.refused id connectionRefused))
  /-- Somebody listens: there is a stream, and the handshake has a secret. -/
  | dials {id address m} (hdialing : c.dialing id = some address)
      (hanswers : n.blackHoles.contains address = false)
      (hlistening : n.isListening address = true)
      (hm : m = n.link.2.deliver address n.links.length) :
      ClientStepped n ref c (.dial ref id)
        ({ m with entropy := (m.entropy.draw Exchange.keyLength).2 }.setClient ref
          (c.dialed id n.links.length (m.entropy.draw Exchange.keyLength).1))
  | handshake {x stream h c' d events} (hx : x ∈ c.dials) (hstage : x.stage = .shaking stream h)
      (hstep : c.stepHandshake n.now x.id (n.view stream true) = some (c', d, events)) :
      ClientStepped n ref c (.clientHandshake ref x.id)
        ((n.setView stream true d).clientDid ref (c', events))
  | engine {id t k c' d events} (hk : c.connections.find? (·.id == id) = some k)
      (h : c.stepEngine (n.clientEnv ref) id t (n.view k.stream true) = some (c', d, events)) :
      ClientStepped n ref c (.clientEngine ref id t)
        ((n.setView k.stream true d).clientDid ref (c', events))
  | relay {id c' events} (h : c.stepRelay id = some (c', events)) :
      ClientStepped n ref c (.relay ref id) (n.clientDid ref (c', events))
  | ends {id c' events} (h : c.stepEnd id = some (c', events)) :
      ClientStepped n ref c (.connectionEnd ref id) (n.clientDid ref (c', events))
  | idle {id c' events} (h : c.stepIdle id = some (c', events)) :
      ClientStepped n ref c (.clientIdle ref id) (n.clientDid ref (c', events))

/-- One step of a network. -/
inductive Stepped (n : Network) : Task → Network → Prop where
  | server {t n'} (h : ServerStepped n t n') : Stepped n t n'
  | client {ref c t n'} (hc : n.clientAt ref = some c) (h : ClientStepped n ref c t n') :
      Stepped n t n'
  | send {i p peer d} (hp : n.plains[i]? = some p)
      (h : p.peer.stepSend (n.view p.stream p.dialed) = some (peer, d)) :
      Stepped n (.send i)
        { n.setView p.stream p.dialed d with plains := n.plains.set i { p with peer } }
  | hear {i p peer d} (hp : n.plains[i]? = some p)
      (h : p.peer.stepRead (n.view p.stream p.dialed) = some (peer, d)) :
      Stepped n (.hear i)
        { n.setView p.stream p.dialed d with plains := n.plains.set i { p with peer } }

variable {n n' : Network} {ref : ClientRef} {guard : Nat} {id : CallId}

/-! ### The parts of a step -/

theorem exists_of_onServerStream {f : Duplex → Option (Server × Duplex × List Event)}
    (h : n.onServerStream guard f = some n') :
    ∃ k s d events, n.server.connections.find? (·.guard == guard) = some k ∧
      f (n.view k.stream false) = some (s, d, events) ∧
      n' = (n.setView k.stream false d).serverDid (s, events) := by
  unfold onServerStream at h
  split at h
  · cases h
  · rename_i k hk
    obtain ⟨⟨s, d, events⟩, hf, rfl⟩ := Option.map_eq_some_iff.mp h
    exact ⟨k, s, d, events, hk, hf, rfl⟩

theorem exists_of_onClient {f : Client → Option (Client × List Event)}
    (h : n.onClient ref f = some n') :
    ∃ c c' events, n.clientAt ref = some c ∧ f c = some (c', events) ∧
      n' = n.clientDid ref (c', events) := by
  unfold onClient at h
  split at h
  · cases h
  · rename_i c hc
    obtain ⟨⟨c', events⟩, hf, rfl⟩ := Option.map_eq_some_iff.mp h
    exact ⟨c, c', events, hc, hf, rfl⟩

theorem exists_of_onClientStream {stream : Client → Option StreamId}
    {f : Client → Duplex → Option (Client × Duplex × List Event)}
    (h : n.onClientStream ref stream f = some n') :
    ∃ c s c' d events, n.clientAt ref = some c ∧ stream c = some s ∧
      f c (n.view s true) = some (c', d, events) ∧
      n' = (n.setView s true d).clientDid ref (c', events) := by
  unfold onClientStream at h
  split at h
  · cases h
  · rename_i c hc
    split at h
    · cases h
    · rename_i s hs
      obtain ⟨⟨c', d, events⟩, hf, rfl⟩ := Option.map_eq_some_iff.mp h
      exact ⟨c, s, c', d, events, hc, hs, hf, rfl⟩

theorem exists_of_stepPlain {f : Peer → Duplex → Option (Peer × Duplex)} {i : Nat}
    (h : n.stepPlain f i = some n') :
    ∃ p peer d, n.plains[i]? = some p ∧ f p.peer (n.view p.stream p.dialed) = some (peer, d) ∧
      n' = { n.setView p.stream p.dialed d with plains := n.plains.set i { p with peer } } := by
  unfold stepPlain at h
  split at h
  · cases h
  · rename_i p hp
    obtain ⟨⟨peer, d⟩, hf, rfl⟩ := Option.map_eq_some_iff.mp h
    exact ⟨p, peer, d, hp, hf, rfl⟩

theorem stepped_of_stepServerHandshake (h : n.stepServerHandshake guard = some n') :
    ServerStepped n (.serverHandshake guard) n' := by
  unfold stepServerHandshake at h
  split at h
  · rename_i hwants
    cases h
    exact .begins hwants
  · rename_i hwants
    obtain ⟨k, s, d, events, hk, hf, rfl⟩ := exists_of_onServerStream h
    exact .handshake (Bool.eq_false_iff.mpr hwants) hk hf

theorem stepped_of_stepDial (h : n.stepDial ref id = some n') :
    ∃ c, n.clientAt ref = some c ∧ ClientStepped n ref c (.dial ref id) n' := by
  unfold stepDial at h
  split at h
  · cases h
  · rename_i c hc
    refine ⟨c, hc, ?_⟩
    split at h
    · rename_i hdialing
      obtain ⟨⟨c', events⟩, hf, rfl⟩ := Option.map_eq_some_iff.mp h
      exact .waits (fun address heq => by rw [hdialing] at heq; cases heq) hf
    · rename_i address hdialing
      split at h
      · rename_i hblack
        obtain ⟨⟨c', events⟩, hf, rfl⟩ := Option.map_eq_some_iff.mp h
        exact .waits (fun a heq => by rw [hdialing] at heq; cases heq; exact hblack) hf
      · rename_i hanswers
        have hanswers := Bool.eq_false_iff.mpr hanswers
        unfold dial at h
        by_cases hlistening : n.isListening address = true
        · rw [if_pos hlistening] at h
          cases h
          exact .dials hdialing hanswers hlistening rfl
        · rw [if_neg hlistening] at h
          cases h
          exact .refused hdialing hanswers (Bool.eq_false_iff.mpr hlistening)

/-- The handshake that a task looks after is of a connect call. -/
theorem stepped_of_stepClientHandshake (h : n.stepClientHandshake ref id = some n') :
    ∃ c, n.clientAt ref = some c ∧ ClientStepped n ref c (.clientHandshake ref id) n' := by
  obtain ⟨c, s, c', d, events, hc, hs, hf, rfl⟩ := exists_of_onClientStream h
  obtain ⟨x, hx, hx'⟩ := List.exists_of_findSome?_eq_some hs
  split at hx'
  · rename_i stream _ hstage
    split at hx'
    · rename_i hid
      cases hx'
      cases hid
      exact ⟨c, hc, .handshake hx hstage hf⟩
    · cases hx'
  · cases hx'

theorem stepped_of_stepClientEngine {t : Engine.Task}
    (h : n.stepClientEngine ref id t = some n') :
    ∃ c, n.clientAt ref = some c ∧ ClientStepped n ref c (.clientEngine ref id t) n' := by
  obtain ⟨c, s, c', d, events, hc, hs, hf, rfl⟩ := exists_of_onClientStream h
  obtain ⟨k, hk, rfl⟩ := Option.map_eq_some_iff.mp hs
  exact ⟨c, hc, .engine hk hf⟩

/-! ### Every step -/

theorem stepped_of_step {t : Task} (h : step t n = some n') : Stepped n t n' := by
  cases t with
  | loop id =>
    obtain ⟨⟨s, events⟩, hs, rfl⟩ := Option.map_eq_some_iff.mp h
    exact .server (.loop hs)
  | serverHandshake guard => exact .server (stepped_of_stepServerHandshake h)
  | serverEngine guard t =>
    obtain ⟨k, s, d, events, hk, hf, rfl⟩ := exists_of_onServerStream h
    exact .server (.engine hk hf)
  | serverIdle id =>
    obtain ⟨⟨s, events⟩, hs, rfl⟩ := Option.map_eq_some_iff.mp h
    exact .server (.idle hs)
  | dial ref id =>
    obtain ⟨c, hc, hstepped⟩ := stepped_of_stepDial h
    exact .client hc hstepped
  | clientHandshake ref id =>
    obtain ⟨c, hc, hstepped⟩ := stepped_of_stepClientHandshake h
    exact .client hc hstepped
  | clientEngine ref id t =>
    obtain ⟨c, hc, hstepped⟩ := stepped_of_stepClientEngine h
    exact .client hc hstepped
  | relay ref id =>
    obtain ⟨c, c', events, hc, hf, rfl⟩ := exists_of_onClient h
    exact .client hc (.relay hf)
  | connectionEnd ref id =>
    obtain ⟨c, c', events, hc, hf, rfl⟩ := exists_of_onClient h
    exact .client hc (.ends hf)
  | clientIdle ref id =>
    obtain ⟨c, c', events, hc, hf, rfl⟩ := exists_of_onClient h
    exact .client hc (.idle hf)
  | send i =>
    obtain ⟨p, peer, d, hp, hf, rfl⟩ := exists_of_stepPlain h
    exact .send hp hf
  | hear i =>
    obtain ⟨p, peer, d, hp, hf, rfl⟩ := exists_of_stepPlain h
    exact .hear hp hf

end Parley.Sim.Network
