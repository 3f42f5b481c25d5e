import Parley.Config.Validation
import Parley.Proofs.Network.Lasting

/-! A server that can be reached.

The server of a network runs its settings and has not been told to stop, and one of its loops
listens on an address without waiting for anything (`Server.Listens`). That loop takes up what
arrives in order: with every step it comes closer to the last stream in its line, and it makes a
connection of each (`Server.Listens.stepLoop`). -/
namespace Parley
open Channel

namespace Server
variable {s s' : Server} {l : Loop} {id now : Nat} {address : String} {stream : StreamId}
  {events : List Event}

/-- How many steps a loop is from its next stream. -/
def Stage.rank : Stage → Nat
  | .accepting => 4
  | .taken _ => 3
  | .tracked .. => 2
  | .cleared .. => 1
  | .pausing _ | .queued .. => 0

/-- The loop listens on an address, is told of no errors and waits for nothing. -/
structure Loop.Serves (address : String) (l : Loop) : Prop where
  address : l.address = address
  faults : l.faults = []
  stage : l.stage.rank ≠ 0

/-- One loop, and no other, listens on an address. -/
structure Listens (id : CallId) (address : String) (s : Server) : Prop where
  alone : ∀ l ∈ s.loops, l.address = address → l.id = id
  loop : ∃ l, s.loops.find? (·.id == id) = some l ∧ l.Serves address

theorem Listens.congr (h : s.Listens id address) (hloops : s'.loops = s.loops) :
    s'.Listens id address := ⟨hloops ▸ h.alone, hloops ▸ h.loop⟩

theorem Listens.offer (h : s.Listens id address) (other : String) (stream : StreamId) :
    (s.offer other stream).Listens id address := by
  constructor
  · intro m hm
    obtain ⟨l, hl, rfl⟩ := List.mem_map.mp hm
    split <;> exact h.alone l hl
  · obtain ⟨l, hl, hserves⟩ := h.loop
    have hfind : (s.offer other stream).loops.find? (·.id == id) =
        (s.loops.find? (·.id == id)).map fun l =>
          if l.address = other then { l with backlog := l.backlog ++ [stream] } else l :=
      Keyed.find?_map (k := Loop.id) fun x => by split <;> rfl
    rw [hl, Option.map_some] at hfind
    refine ⟨_, hfind, ?_⟩
    split
    · exact ⟨hserves.address, hserves.faults, hserves.stage⟩
    · exact hserves

/-- What a step of the loop comes to: it comes closer to its next stream, or has made a connection
of it. -/
inductive Loop.Goes (s : Server) (l : Loop) (s' : Server) (l' : Loop) : Prop where
  | on (hstreams : l'.streams = l.streams) (hrank : l'.stage.rank < l.stage.rank)
      (hconnections : s'.connections = s.connections)
  | takesIn {stream : StreamId} {guard : Nat} (hstreams : l.streams = stream :: l'.streams)
      (hguard : l.stage.guard? = some guard) (hrank : l'.stage.rank ≤ 4)
      (hconnections : s'.connections = s.connections ++ [{ guard := guard, stream := stream }])

theorem find?_setLoop (hl : s.loops.find? (·.id == id) = some l) {l' : Loop} (hid : l'.id = l.id) :
    (s.setLoop l').loops.find? (·.id == id) = some l' :=
  Keyed.find?_set (k := Loop.id) hl (hid.trans (Keyed.mem_of_find? (k := Loop.id) hl).2)

/-- A free slot is there whenever the loop asks for one. -/
def Loop.Roomy (s : Server) (l : Loop) : Prop :=
  ∀ stream guard, l.stage = .cleared stream guard → 0 < s.admission.free

theorem acquire_of_free {a : Admission} (h : 0 < a.free) (id now : Nat) :
    a.acquire id now = (true, { a with free := a.free - 1 }) := if_pos h

theorem Loop.Serves.stepLoop (hl : s.loops.find? (·.id == id) = some l)
    (hserves : l.Serves address) (hopen : s.shutdown.fired = false) (hroom : l.Roomy s)
    (h : s.stepLoop now id = some (s', events)) :
    ∃ l', s'.loops.find? (·.id == id) = some l' ∧ l'.Serves address ∧ l.Goes s s' l' ∧
      ∀ x, .dropped x ∉ events := by
  have hstage := hserves.stage
  have hset : ∀ (s₁ : Server) stage, s₁.loops = s.loops →
      (s₁.setLoop { l with stage }).loops.find? (·.id == id) = some { l with stage } :=
    fun s₁ stage hloops => by
      rw [← hloops] at hl
      exact find?_setLoop hl rfl
  have hserve : ∀ stage, Stage.rank stage ≠ 0 → Loop.Serves address { l with stage } :=
    fun _ hrank => ⟨hserves.address, hserves.faults, hrank⟩
  unfold Server.stepLoop at h
  rw [hl] at h
  dsimp only at h
  split at h
  · rename_i hs
    rw [if_neg (by simp [hopen])] at h
    unfold accept at h
    rw [hserves.faults] at h
    split at h
    · rename_i hnil
      cases hnil
    · rename_i b bs _ hb
      cases h
      refine ⟨_, find?_setLoop hl rfl, ⟨hserves.address, rfl, Nat.succ_ne_zero _⟩, .on ?_ ?_ rfl,
        by simp⟩
      · rw [Loop.streams, Loop.streams, hs, hb]
        rfl
      · rw [hs]
        exact Nat.lt_succ_self 3
    · cases h
  · rename_i hs
    exact absurd (by rw [hs]; rfl) hstage
  · rename_i stream hs
    cases h
    refine ⟨_, hset _ _ rfl, hserve (.tracked stream s.tracker.next) (Nat.succ_ne_zero _),
      .on ?_ ?_ rfl, by simp⟩
    · exact streams_congr (by rw [hs]; rfl) rfl
    · rw [hs]
      exact Nat.lt_succ_self 2
  · rename_i stream guard hs
    rw [if_neg (by simp [hopen])] at h
    cases h
    refine ⟨_, hset _ _ rfl, hserve (.cleared stream guard) (Nat.succ_ne_zero _),
      .on ?_ ?_ rfl, by simp⟩
    · exact streams_congr (by rw [hs]; rfl) rfl
    · rw [hs]
      exact Nat.lt_succ_self 1
  · rename_i stream guard hs
    rw [acquire_of_free (hroom stream guard hs)] at h
    cases h
    have hstreams : l.streams = stream :: Loop.streams { l with stage := .accepting } := by
      rw [Loop.streams, hs]
      rfl
    exact ⟨_, hset _ _ rfl, hserve .accepting (Nat.succ_ne_zero _),
      .takesIn hstreams (by rw [hs]; rfl) (Nat.le_refl 4) rfl, by simp⟩
  · rename_i hs
    exact absurd (by rw [hs]; rfl) hstage

/-- A loop that has a stream goes on. -/
theorem Loop.Serves.ready (hl : s.loops.find? (·.id == id) = some l) (hserves : l.Serves address)
    (hopen : s.shutdown.fired = false) (hsome : l.streams ≠ []) (now : Nat) :
    s.stepLoop now id ≠ none := by
  have hstage := hserves.stage
  have hfaults := hserves.faults
  unfold Server.stepLoop
  rw [hl]
  dsimp only
  split
  · rename_i hs
    rw [if_neg (by simp [hopen])]
    unfold accept
    have hb : l.backlog ≠ [] := by
      intro hb
      rw [Loop.streams, hs, hb] at hsome
      exact hsome rfl
    rw [hfaults]
    split
    · rename_i hnil
      cases hnil
    · simp
    · rename_i _ hnil
      exact absurd hnil hb
  · rename_i hs
    exact absurd (by rw [hs]; rfl) hstage
  · simp
  · rw [if_neg (by simp [hopen])]
    simp
  · split <;> simp
  · rename_i hs
    exact absurd (by rw [hs]; rfl) hstage

/-- **The loop goes on listening.** -/
theorem Listens.stepLoop (h : s.Listens id address) (hopen : s.shutdown.fired = false)
    (hroom : ∀ l, s.loops.find? (·.id == id) = some l → l.Roomy s) {other : CallId}
    (hstep : s.stepLoop now other = some (s', events)) : s'.Listens id address := by
  obtain ⟨m, hm, hmid, hmeets⟩ := meets_stepLoop hstep
  obtain ⟨m', hm', hmid', hloops⟩ := loops_of_stepLoop hstep
  obtain ⟨l, hl, hserves⟩ := h.loop
  refine ⟨fun x hx hax => ?_, ?_⟩
  · obtain hx | ⟨hid, haddress, -⟩ := hmeets.loops x hx
    · exact h.alone x hx hax
    · exact hid.trans (h.alone m hm (haddress.symm.trans hax))
  · by_cases hother : other = id
    · subst hother
      obtain ⟨l', hl', hserves', -⟩ := hserves.stepLoop hl hopen (hroom l hl) hstep
      exact ⟨l', hl', hserves'⟩
    · exact ⟨l, (hloops.others id (hmid'.trans_ne hother)).trans hl, hserves⟩

end Server

namespace Sim

/-- A secret that the source may yet yield. -/
def Entropy.Yields (e : Entropy) (secret : Bytes) : Prop :=
  ∃ k, secret = (Entropy.draw ⟨e.given.drop k⟩ Exchange.keyLength).1

/-- Two handshakes with secrets from the source come to one key. -/
def Entropy.Fair (e : Entropy) : Prop :=
  ∀ a b, e.Yields a → e.Yields b →
    Crypto.X25519.multiply a (Crypto.X25519.publicKey b) =
      Crypto.X25519.multiply b (Crypto.X25519.publicKey a) ∧
    Crypto.X25519.contributory (Crypto.X25519.multiply a (Crypto.X25519.publicKey b)) = true

theorem Entropy.Yields.of_drop {e e' : Entropy} {secret : Bytes} (h : e'.Yields secret)
    (hdrop : ∃ k, e'.given = e.given.drop k) : e.Yields secret := by
  obtain ⟨k, hk⟩ := hdrop
  obtain ⟨j, rfl⟩ := h
  exact ⟨k + j, by rw [hk, List.drop_drop]⟩

theorem Entropy.yields_draw (e : Entropy) : e.Yields (e.draw Exchange.keyLength).1 := ⟨0, rfl⟩

namespace Network
variable {connection : Config.Connection} {address : String} {own li : CallId} {n n' : Network}
  {t : Task}

/-- A network whose server echoes under these settings and has not been told to stop. -/
structure Steady (connection : Config.Connection) (n : Network) : Prop where
  reachable : ∃ log, Server.World.Reachable { server := n.server, log }
  connection : n.server.connection = connection
  running : n.server.shutdown.fired = false
  echo : n.serverApplication = .echo
  attentive : n.serverAttentive = true
  capacity : Exchange.keyLength ≤ n.capacity
  fair : n.entropy.Fair

theorem Steady.lasts (h : Steady connection n) (hlasts : Lasts n n') : Steady connection n' where
  reachable := by
    obtain ⟨log, hlog⟩ := h.reachable
    obtain ⟨log', hleads⟩ := hlasts.server.leads log
    exact ⟨log', hlog.leads hleads⟩
  connection := hlasts.server.connection.trans h.connection
  running := (congrArg Shutdown.fired hlasts.server.shutdown).trans h.running
  echo := hlasts.application.trans h.echo
  attentive := hlasts.attentive.trans h.attentive
  capacity := hlasts.capacity ▸ h.capacity
  fair a b ha hb := h.fair a b (ha.of_drop hlasts.entropy) (hb.of_drop hlasts.entropy)

/-- No deadline has passed, and there is a free slot for whoever the server has just accepted at an
address. -/
structure Calm (address : String) (n : Network) : Prop where
  early : ∀ due ∈ n.dues, n.now < due
  roomy : ∀ l ∈ n.server.loops, l.address = address → l.Roomy n.server

/-! ### Listening -/

/-- What a step does to the server's loops. -/
inductive ServerGoes (n : Network) (t : Task) (s : Server) : Prop where
  | aside (h : s.loops = n.server.loops)
  | loop {id : CallId} {events : List Event} (ht : t = .loop id)
      (h : n.server.stepLoop n.now id = some (s, events))
  | offers {address : String} {stream : StreamId} (h : s = n.server.offer address stream)

theorem ServerGoes.of_same (h : n'.surroundings = n.surroundings) : ServerGoes n t n'.server :=
  .aside (congrArg (Server.loops ∘ Surroundings.server) h)

theorem server_deliver (n : Network) (address : String) (stream : StreamId) :
    (n.deliver address stream).server = n.server ∨
      (n.deliver address stream).server = n.server.offer address stream := by
  unfold deliver
  split
  · exact .inl rfl
  · exact .inr rfl

theorem ServerStepped.goes (h : ServerStepped n t n') : ServerGoes n t n'.server := by
  cases h with
  | loop hs =>
    rw [server_serverDid]
    exact .loop rfl hs
  | begins => exact .aside rfl
  | handshake _ _ hs =>
    obtain ⟨_, -, -, hstepped⟩ := Server.connectionStepped_of_stepHandshake hs
    rw [server_serverDid]
    exact .aside hstepped.loops_eq
  | engine _ hs =>
    obtain ⟨_, -, -, hstepped⟩ := Server.connectionStepped_of_stepEngine hs
    rw [server_serverDid]
    exact .aside hstepped.loops_eq
  | idle hs =>
    obtain ⟨-, -, rfl, -⟩ := Server.stepIdle_eq_some hs
    rw [server_serverDid]
    exact .aside rfl

theorem serverGoes_step (h : step t n = some n') : ServerGoes n t n'.server := by
  cases stepped_of_step h with
  | server hs => exact hs.goes
  | client _ hs =>
    cases hs with
    | dials _ _ _ hm =>
      rw [server_setClient, hm]
      rcases server_deliver n.link.2 _ n.links.length with hserver | hserver
      · exact .aside (congrArg Server.loops hserver)
      · exact .offers hserver
    | waits | refused | handshake | engine | relay | ends | idle =>
      exact .of_same ((surroundings_clientDid ..).trans rfl)
  | send | hear => exact .aside rfl

/-- **As long as all is calm, the loop goes on listening.** -/
theorem listens_step (h : n.server.Listens li address) (hopen : n.server.shutdown.fired = false)
    (hcalm : n.Calm address) (hstep : step t n = some n') : n'.server.Listens li address := by
  obtain ⟨l, hl, hserves⟩ := h.loop
  cases serverGoes_step hstep with
  | aside hloops => exact h.congr hloops
  | offers hs =>
    rw [hs]
    exact h.offer _ _
  | loop ht hs =>
    refine h.stepLoop hopen (fun m hm => ?_) hs
    obtain rfl := Option.some.inj (hl.symm.trans hm)
    exact hcalm.roomy l (Keyed.mem_of_find? (k := Server.Loop.id) hl).1 hserves.address

end Network
end Sim
end Parley
