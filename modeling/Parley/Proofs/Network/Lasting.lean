import Parley.Proofs.Network.Beside
import Parley.Proofs.Server.Books
import Parley.Proofs.Server.Faults

/-! What lasts in a network, whichever task makes a step.

A client's steps touch nothing but clients, streams and reports (`surroundings_clientDid`). No step
changes the configuration of the server, its application or its signal, nor who listens or is not
reached at an address; secrets come from one source (`Lasts`). -/
namespace Parley.Sim.Network
open Channel

variable {n n' : Network} {ref : ClientRef} {r : Running} {c : Client} {events : List Event}

/-! ### Around the clients -/

/-- All but clients, streams and reports. -/
structure Surroundings where
  now : Nat
  entropy : Entropy
  capacity : Nat
  listeners : List PlainListener
  blackHoles : List String
  plains : List Plain
  server : Server
  serverApplication : Application
  serverAttentive : Bool

def surroundings (n : Network) : Surroundings where
  now := n.now
  entropy := n.entropy
  capacity := n.capacity
  listeners := n.listeners
  blackHoles := n.blackHoles
  plains := n.plains
  server := n.server
  serverApplication := n.serverApplication
  serverAttentive := n.serverAttentive

theorem surroundings_foldl {α : Type} {f : Network → α → Network}
    (h : ∀ n a, (f n a).surroundings = n.surroundings) (as : List α) (n : Network) :
    (as.foldl f n).surroundings = n.surroundings := by
  induction as generalizing n with
  | nil => rfl
  | cons a as ih => exact (ih (f n a)).trans (h n a)

@[simp] theorem surroundings_noteClientPlain (n : Network) (ref : ClientRef) (ev : Event) :
    (n.noteClientPlain ref ev).surroundings = n.surroundings := by
  unfold noteClientPlain
  split <;> rfl

@[simp] theorem surroundings_moveScript (n : Network) (r : Running) (o : Engine.Outcome) :
    (n.moveScript r o).surroundings = n.surroundings := by
  unfold moveScript
  generalize r.script.next n.now o = moved
  obtain ⟨script, events, out⟩ := moved
  have hnotes := surroundings_foldl
    (fun n ev => surroundings_noteClientPlain n (.script script.id) ev) events n
  dsimp only
  split <;> exact hnotes

@[simp] theorem surroundings_noteClient (n : Network) (ref : ClientRef) (ev : Event) :
    (n.noteClient ref ev).surroundings = n.surroundings := by
  have hreturns : ∀ (m : Network) id o, (m.callReturns ref id o).surroundings = m.surroundings := by
    intro m id o
    unfold callReturns
    split
    · rfl
    · split
      · split
        · rfl
        · exact surroundings_moveScript ..
      · rfl
  unfold noteClient
  split
  · exact (hreturns ..).trans (surroundings_noteClientPlain ..)
  · exact (hreturns ..).trans (surroundings_noteClientPlain ..)
  · exact surroundings_noteClientPlain ..

@[simp] theorem surroundings_setClient (n : Network) (ref : ClientRef) (c : Client) :
    (n.setClient ref c).surroundings = n.surroundings := by
  cases ref <;> rfl

@[simp] theorem surroundings_clientDid (n : Network) (ref : ClientRef) (c : Client)
    (events : List Event) : (n.clientDid ref (c, events)).surroundings = n.surroundings :=
  (surroundings_foldl (fun n ev => surroundings_noteClient n ref ev) events _).trans
    (surroundings_setClient n ref c)

@[simp] theorem server_setClient (n : Network) (ref : ClientRef) (c : Client) :
    (n.setClient ref c).server = n.server :=
  congrArg Surroundings.server (surroundings_setClient n ref c)

theorem surroundings_serverDid (n : Network) (s : Server) (events : List Event) :
    (n.serverDid (s, events)).surroundings = { n.surroundings with server := s } := by
  refine (surroundings_foldl (fun n ev => ?_) events _).trans rfl
  unfold noteServer
  split <;> rfl

@[simp] theorem server_serverDid (n : Network) (s : Server) (events : List Event) :
    (n.serverDid (s, events)).server = s :=
  congrArg Surroundings.server (surroundings_serverDid n s events)

/-! ### What lasts of the server -/

/-- The server has come from one to the other, and its settings and its signal are as they were. -/
structure Served (s s' : Server) : Prop where
  leads : ∀ log, ∃ log', Server.World.Leads { server := s, log } { server := s', log := log' }
  config : s'.config = s.config
  connection : s'.connection = s.connection
  shutdown : s'.shutdown = s.shutdown

theorem Served.refl (s : Server) : Served s s := ⟨fun log => ⟨log, .refl⟩, rfl, rfl, rfl⟩

section
variable {s s' : Server} {id guard now : Nat}

theorem connection_loopStepped {l : Server.Loop} (h : Server.LoopStepped s now l s' events) :
    s'.connection = s.connection := by
  cases h <;> rfl

theorem connection_connectionStepped {k : Server.Connection}
    (h : Server.ConnectionStepped s k s' events) : s'.connection = s.connection := by
  cases h <;> rfl

theorem served_stepLoop (h : s.stepLoop now id = some (s', events)) : Served s s' := by
  obtain ⟨l, -, -, hstepped⟩ := Server.loopStepped_of_stepLoop h
  exact ⟨fun _ => ⟨_, .single (.loop h)⟩, hstepped.same.1, connection_loopStepped hstepped,
    hstepped.same.2⟩

theorem served_stepHandshake {env : Server.Env} {d d' : Duplex}
    (h : s.stepHandshake env guard d = some (s', d', events)) : Served s s' := by
  obtain ⟨k, -, -, hstepped⟩ := Server.connectionStepped_of_stepHandshake h
  exact ⟨fun _ => ⟨_, .single (.handshake h)⟩, hstepped.same.1,
    connection_connectionStepped hstepped, hstepped.same.2⟩

theorem served_stepEngine {env : Server.Env} {t : Engine.Task} {d d' : Duplex}
    (h : s.stepEngine env guard t d = some (s', d', events)) : Served s s' := by
  obtain ⟨k, -, -, hstepped⟩ := Server.connectionStepped_of_stepEngine h
  exact ⟨fun _ => ⟨_, .single (.engine h)⟩, hstepped.same.1,
    connection_connectionStepped hstepped, hstepped.same.2⟩

theorem served_stepIdle (h : s.stepIdle id = some (s', events)) : Served s s' := by
  obtain ⟨-, -, rfl, -⟩ := Server.stepIdle_eq_some h
  exact ⟨fun _ => ⟨_, .single (.idle h)⟩, rfl, rfl, rfl⟩

theorem served_beginHandshake (h : s.wantsSecret guard = true) (now : Nat) (secret : Bytes) :
    Served s (s.beginHandshake now guard secret) :=
  ⟨fun _ => ⟨_, .single (.begin h)⟩, rfl, rfl, rfl⟩

theorem served_offer (s : Server) (address : String) (stream : StreamId) :
    Served s (s.offer address stream) := ⟨fun _ => ⟨_, .single .offer⟩, rfl, rfl, rfl⟩

end

/-! ### What lasts of the network -/

/-- What no step changes. -/
structure Lasts (n n' : Network) : Prop where
  now : n'.now = n.now
  capacity : n'.capacity = n.capacity
  application : n'.serverApplication = n.serverApplication
  attentive : n'.serverAttentive = n.serverAttentive
  blackHoles : n'.blackHoles = n.blackHoles
  listeners : n'.listeners.map (·.address) = n.listeners.map (·.address)
  entropy : ∃ k, n'.entropy.given = n.entropy.given.drop k
  server : Served n.server n'.server

/-- A step of the server, which may have drawn a secret. -/
theorem lasts_of_server {s : Server} {e : Entropy} (hs : Served n.server s)
    (he : ∃ k, e.given = n.entropy.given.drop k)
    (h : n'.surroundings = { n.surroundings with server := s, entropy := e }) : Lasts n n' where
  now := congrArg Surroundings.now h
  capacity := congrArg Surroundings.capacity h
  application := congrArg Surroundings.serverApplication h
  attentive := congrArg Surroundings.serverAttentive h
  blackHoles := congrArg Surroundings.blackHoles h
  listeners := congrArg (·.map (·.address)) (congrArg Surroundings.listeners h)
  entropy := by
    rw [show n'.entropy = e from congrArg Surroundings.entropy h]
    exact he
  server := by
    rw [show n'.server = s from congrArg Surroundings.server h]
    exact hs

theorem lasts_of_same (h : n'.surroundings = n.surroundings) : Lasts n n' :=
  lasts_of_server (.refl _) ⟨0, rfl⟩ h

theorem lasts_deliver (n : Network) (address : String) (stream : StreamId) :
    Lasts n (n.link.2.deliver address stream) := by
  unfold deliver
  split
  · refine ⟨rfl, rfl, rfl, rfl, rfl, ?_, ⟨0, rfl⟩, .refl _⟩
    rw [List.map_map]
    refine List.map_congr_left fun l _ => ?_
    dsimp only [Function.comp]
    split <;> rfl
  · exact ⟨rfl, rfl, rfl, rfl, rfl, rfl, ⟨0, rfl⟩, served_offer _ _ _⟩

/-- A draw takes from the front of what is given. -/
theorem Lasts.draws (h : Lasts n n') (length : Nat) :
    Lasts n { n' with entropy := (n'.entropy.draw length).2 } := by
  obtain ⟨k, hk⟩ := h.entropy
  refine ⟨h.now, h.capacity, h.application, h.attentive, h.blackHoles, h.listeners, ?_, h.server⟩
  exact ⟨k + length, by rw [← List.drop_drop, ← hk]; rfl⟩

theorem Lasts.setClient (h : Lasts n n') (ref : ClientRef) (c : Client) :
    Lasts n (n'.setClient ref c) := by
  cases ref <;> exact ⟨h.now, h.capacity, h.application, h.attentive, h.blackHoles, h.listeners,
    h.entropy, h.server⟩

theorem lasts_serverDid {m : Network} {s : Server} {events : List Event}
    (hs : Served n.server s) (hm : m.surroundings = n.surroundings) :
    Lasts n (m.serverDid (s, events)) :=
  lasts_of_server (e := n.entropy) hs ⟨0, rfl⟩
    ((surroundings_serverDid m s events).trans (by rw [hm]; rfl))

/-- **Whichever task makes a step, this lasts.** -/
theorem lasts_step {t : Task} (h : step t n = some n') : Lasts n n' := by
  cases stepped_of_step h with
  | server hs =>
    cases hs with
    | loop hs => exact lasts_serverDid (served_stepLoop hs) rfl
    | begins hwants => exact lasts_of_server (served_beginHandshake hwants _ _) ⟨_, rfl⟩ rfl
    | handshake _ _ hs => exact lasts_serverDid (served_stepHandshake hs) rfl
    | engine _ hs => exact lasts_serverDid (served_stepEngine hs) rfl
    | idle hs => exact lasts_serverDid (served_stepIdle hs) rfl
  | client _ hs =>
    cases hs with
    | dials _ _ _ hm =>
      subst hm
      exact ((lasts_deliver n _ _).draws _).setClient _ _
    | waits | refused | handshake | engine | relay | ends | idle =>
      exact lasts_of_same ((surroundings_clientDid ..).trans rfl)
  | send | hear => exact ⟨rfl, rfl, rfl, rfl, rfl, rfl, ⟨0, rfl⟩, .refl _⟩

end Parley.Sim.Network
