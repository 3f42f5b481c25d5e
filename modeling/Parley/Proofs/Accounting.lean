import Parley.Proofs.Client.Deeds
import Parley.Proofs.Server.Deeds

/-! The counters of a host.

A `Host` runs any number of servers and clients, which come when they like and take steps in any
order, and what they report goes into counters that all of them share. The counters say what has
been done (`Accounts`): the gauge of the active connections is the number of connection tasks that
have not ended; what is counted as accepted are the streams that connections were started on, and
as rejected those that have waited for a slot until their time was out; and handshakes are counted
as failed that servers or clients gave up with an error or at their deadline, but neither those
that the signal interrupted nor calls that were turned away at admission. Every step of every
server and client keeps it so (`accounts_step`). -/
namespace Parley

/-- Servers and clients, and the counters that they share. -/
structure Host where
  servers : List Server.Story := []
  clients : List Client.Story := []
  metrics : Metrics := {}
  /-- The active connections, by what was added and taken away. -/
  gauge : Int := 0

namespace Host

/-- What is reported goes into the counters. -/
def report (p : Host) (events : List Event) : Host :=
  { p with
    metrics := events.foldl Event.count p.metrics
    gauge := events.foldl Event.weigh p.gauge }

/-- One thing that happens. -/
inductive Step (p : Host) : Host → Prop where
  | newServer (config : Config.Server) (connection : Config.Connection) :
      Step p { p with servers := p.servers ++ [⟨{ server := .create config connection }, {}⟩] }
  | newClient (config : Config.Client) (connection : Config.Connection) :
      Step p { p with clients := p.clients ++ [⟨{ client := .create config connection }, {}⟩] }
  | server {before after x y events} (hp : p.servers = before ++ x :: after)
      (h : x.Next y events) : Step p ({ p with servers := before ++ y :: after }.report events)
  | client {before after x y events} (hp : p.clients = before ++ x :: after)
      (h : x.Next y events) : Step p ({ p with clients := before ++ y :: after }.report events)

/-- A host that has come to be from one with nothing on it, its counters at zero. -/
def Reachable (p : Host) : Prop := Relation.ReflTransGen Step {} p

/-! What the only server or the only client of a host does, the host does. -/

section
variable {p : Host} {events : List Event}

theorem Reachable.serves {x : Server.Story} {w : Server.World} {δ : Server.Deeds}
    (hp : p.Reachable) (hx : p.servers = [x]) (h : x.world.Does w events δ) :
    Reachable ({ p with servers := [⟨w, x.deeds ++ δ⟩] }.report events) :=
  hp.tail (@Step.server p [] [] x _ events hx (.does h))

theorem Reachable.dials {x : Client.Story} {w : Client.World} (hp : p.Reachable)
    (hx : p.clients = [x]) (h : x.world.Reports w events) :
    Reachable ({ p with clients := [⟨w, x.deeds ++ x.world.deeds w⟩] }.report events) :=
  hp.tail (@Step.client p [] [] x _ events hx (.reports h))

end

/-! ### What the counters say -/

/-- How many connection tasks have not ended. -/
def tasks (p : Host) : Nat :=
  (p.servers.flatMap (·.world.server.connections)).length +
    (p.clients.flatMap fun x => x.world.client.connections.filter (·.isLive)).length

/-- The streams that servers have started connections on. -/
def started (p : Host) : List StreamId := p.servers.flatMap (·.deeds.started)

/-- The streams whose time was out while they waited for a slot. -/
def timedOut (p : Host) : List StreamId := p.servers.flatMap (·.deeds.timedOut)

/-- How the handshakes of servers and the dialing and handshakes of clients have failed. -/
def failures (p : Host) : List Error :=
  p.servers.flatMap (·.deeds.failed.map (·.2)) ++ p.clients.flatMap (·.deeds.failed.map (·.2))

/-- The counters say what was done, of which nothing is lost. -/
structure Accounts (p : Host) : Prop where
  gauge : p.gauge = p.tasks
  active : p.metrics.active = p.tasks
  accepted : p.metrics.accepted = p.started.length
  rejected : p.metrics.rejected = p.timedOut.length
  failed : p.metrics.handshakeFailures = p.failures.length
  servers : ∀ x ∈ p.servers, x.Balanced
  clients : ∀ x ∈ p.clients, x.Balanced

variable {p q : Host} {events : List Event} {live live' a b c : Nat}

/-- What one of many does is done by all together. -/
theorem length_flatMap_middle {α β : Type} (f : α → List β) (before after : List α) (x : α) :
    ((before ++ x :: after).flatMap f).length =
      ((before ++ after).flatMap f).length + (f x).length := by
  simp only [List.flatMap_append, List.flatMap_cons, List.length_append]
  omega

/-- Where as much is reported as is done, the counters still say what was done. -/
theorem Accounts.report (h : p.Accounts) (hmetrics : q.metrics = p.metrics)
    (hgauge : q.gauge = p.gauge) (hcounted : Counted events live live' a b c)
    (hlive : live ≤ p.tasks) (htasks : q.tasks + live = p.tasks + live')
    (hstarted : q.started.length = p.started.length + a)
    (htimedOut : q.timedOut.length = p.timedOut.length + b)
    (hfailures : q.failures.length = p.failures.length + c)
    (hservers : ∀ x ∈ q.servers, x.Balanced) (hclients : ∀ x ∈ q.clients, x.Balanced) :
    (q.report events).Accounts where
  gauge := by
    have hreported := hcounted.gauge p.gauge
    have hbefore := h.gauge
    show events.foldl Event.weigh q.gauge = (q.tasks : Int)
    rw [hgauge]
    omega
  active := by
    have hreported := hcounted.active p.metrics (h.active ▸ hlive)
    have hbefore := h.active
    show (events.foldl Event.count q.metrics).active = q.tasks
    rw [hmetrics]
    omega
  accepted := by
    show (events.foldl Event.count q.metrics).accepted = q.started.length
    rw [hmetrics, hcounted.accepted, h.accepted, hstarted]
  rejected := by
    show (events.foldl Event.count q.metrics).rejected = q.timedOut.length
    rw [hmetrics, hcounted.rejected, h.rejected, htimedOut]
  failed := by
    show (events.foldl Event.count q.metrics).handshakeFailures = q.failures.length
    rw [hmetrics, hcounted.failures, h.failed, hfailures]
  servers := hservers
  clients := hclients

/-- Who takes a step in a row is as good as before, and so are the others. -/
theorem forall_mem_middle {α : Type} {P : α → Prop} {before after : List α} {x y : α}
    (h : ∀ z ∈ before ++ x :: after, P z) (hy : P y) : ∀ z ∈ before ++ y :: after, P z := by
  simp only [List.mem_append, List.mem_cons] at h ⊢
  rintro z (hz | rfl | hz)
  · exact h z (.inl hz)
  · exact hy
  · exact h z (.inr (.inr hz))

theorem accounts_server (h : p.Accounts) {before after : List Server.Story} {x y : Server.Story}
    (hp : p.servers = before ++ x :: after) (hnext : x.Next y events) :
    ({ p with servers := before ++ y :: after }.report events).Accounts := by
  have hx : x.Balanced := h.servers x (hp ▸ List.mem_append_right _ List.mem_cons_self)
  have hy : y.Balanced := Server.balanced_next hx hnext
  cases hnext with
  | @does w events δ hdoes =>
    have hcounted := (Server.adds_does hx.kept hdoes).counted
    refine h.report rfl rfl hcounted ?_ ?_ ?_ ?_ ?_ (forall_mem_middle (hp ▸ h.servers) hy)
      h.clients
    · rw [tasks, hp, length_flatMap_middle]
      omega
    · simp only [tasks, hp, length_flatMap_middle]
      omega
    · simp only [started, hp, length_flatMap_middle]
      show _ + (x.deeds.started ++ δ.started).length = _
      rw [List.length_append, Nat.add_assoc]
    · simp only [timedOut, hp, length_flatMap_middle]
      show _ + (x.deeds.timedOut ++ δ.timedOut).length = _
      rw [List.length_append, Nat.add_assoc]
    · simp only [failures, List.length_append, hp, length_flatMap_middle, List.length_map]
      show _ + (x.deeds.failed ++ δ.failed).length + _ = _
      rw [List.length_append]
      omega

theorem accounts_client (h : p.Accounts) {before after : List Client.Story} {x y : Client.Story}
    (hp : p.clients = before ++ x :: after) (hnext : x.Next y events) :
    ({ p with clients := before ++ y :: after }.report events).Accounts := by
  have hx : x.Balanced := h.clients x (hp ▸ List.mem_append_right _ List.mem_cons_self)
  have hy : y.Balanced := Client.balanced_next hx hnext
  cases hnext with
  | @reports w events hreports =>
    have hcounted := (Client.adds_reports hx.kept hreports).counted
    simp only [Client.live, List.countP_eq_length_filter] at hcounted
    refine h.report rfl rfl hcounted ?_ ?_ rfl rfl ?_ h.servers
      (forall_mem_middle (hp ▸ h.clients) hy)
    · rw [tasks, hp, length_flatMap_middle]
      omega
    · simp only [tasks, hp, length_flatMap_middle]
      omega
    · simp only [failures, List.length_append, hp, length_flatMap_middle, List.length_map]
      show _ + (_ + (x.deeds.failed ++ (x.world.deeds w).failed).length) = _
      rw [List.length_append]
      omega

/-- **No step makes the counters wrong.** -/
theorem accounts_step (h : p.Accounts) (hstep : p.Step q) : q.Accounts := by
  cases hstep with
  | newServer config connection =>
    have hservers : ∀ x ∈ p.servers ++ [⟨{ server := .create config connection }, {}⟩],
        x.Balanced := fun x hx => (List.mem_append.mp hx).elim (h.servers x) fun hx =>
      List.mem_singleton.mp hx ▸ Server.balanced_create config connection
    refine h.report (q := { p with servers := p.servers ++ _ }) rfl rfl (.nil 0) (Nat.zero_le _)
      ?_ ?_ ?_ ?_ hservers h.clients
    · simp [tasks, Server.create]
    · simp [started]
    · simp [timedOut]
    · simp [failures]
  | newClient config connection =>
    have hclients : ∀ x ∈ p.clients ++ [⟨{ client := .create config connection }, {}⟩],
        x.Balanced := fun x hx => (List.mem_append.mp hx).elim (h.clients x) fun hx =>
      List.mem_singleton.mp hx ▸ Client.balanced_create config connection
    refine h.report (q := { p with clients := p.clients ++ _ }) rfl rfl (.nil 0) (Nat.zero_le _)
      ?_ rfl rfl ?_ h.servers hclients
    · simp [tasks, Client.create]
    · simp [failures]
  | server hp hnext => exact accounts_server h hp hnext
  | client hp hnext => exact accounts_client h hp hnext

theorem accounts_of_reachable (h : p.Reachable) : p.Accounts := by
  induction h with
  | refl =>
    exact ⟨rfl, rfl, rfl, rfl, rfl, fun _ hx => absurd hx List.not_mem_nil,
      fun _ hx => absurd hx List.not_mem_nil⟩
  | tail _ hstep ih => exact accounts_step ih hstep

/-- **The counters tell what was done.** The gauge of the active connections, and the counter, are
the number of connection tasks that have not ended. Every stream that an accept loop has taken was
counted once, as accepted when a connection was started on it or as rejected when its time was out,
or it was given up because of the signal or with its call, or its loop holds it still, which where
no task can go on is only so while it waits for a slot. Of the handshakes and the dialing those
are counted as failed that ended with an error or at their deadline. -/
theorem counters_tell (h : p.Reachable) :
    p.Accounts ∧ ∀ x ∈ p.servers, ∀ env view, Server.Settled env view x.world.server →
      x.deeds.taken.Perm (x.deeds.started ++ x.deeds.timedOut ++ x.deeds.shutOut ++
        x.deeds.abandoned ++ Server.inLine x.world.server.loops) := by
  have haccounts := accounts_of_reachable h
  refine ⟨haccounts, fun x hx env view hsettled => ?_⟩
  obtain ⟨hkept, hstreams, -⟩ := haccounts.servers x hx
  rwa [Server.held_of_settled hkept hsettled] at hstreams

/-! A host with one server, which has one slot, and one client. The handshake of the first stream
runs out of time, and so does the second stream, which waits for the slot; the third gets it. The
dialing of the client is refused. -/

open Server.World in
theorem exists_busy : ∃ p : Host, p.Reachable ∧ p.gauge = 1 ∧
    p.metrics = { active := 1, accepted := 2, rejected := 1, handshakeFailures := 2 } := by
  have hcreated : Host.Reachable _ := .single (.newServer { maxConnections := 1 } {})
  have hserves := hcreated.serves rfl (@Does.serve _ 0 "a" List.not_mem_nil)
  have hfirst := hserves.serves rfl (@Does.offer _ "a" 7)
  have hsecond := hfirst.serves rfl (@Does.offer _ "a" 8)
  have hthird := hsecond.serves rfl (@Does.offer _ "a" 9)
  -- The first stream gets the slot.
  have htaken := hthird.serves rfl (@Does.loop _ 0 0 _ _ rfl)
  have htracked := htaken.serves rfl (@Does.loop _ 0 0 _ _ rfl)
  have hcleared := htracked.serves rfl (@Does.loop _ 0 0 _ _ rfl)
  have hstarted := hcleared.serves rfl (@Does.loop _ 0 0 _ _ rfl)
  have hbegun := hstarted.serves rfl (@Does.begin _ 0 0 [] rfl)
  -- The second waits in line.
  have htaken := hbegun.serves rfl (@Does.loop _ 0 0 _ _ rfl)
  have htracked := htaken.serves rfl (@Does.loop _ 0 0 _ _ rfl)
  have hcleared := htracked.serves rfl (@Does.loop _ 0 0 _ _ rfl)
  have hqueued := hcleared.serves rfl (@Does.loop _ 0 0 _ _ rfl)
  -- Both run out of time.
  have hrejected := hqueued.serves rfl (@Does.loop _ 3000 0 _ _ rfl)
  have hfailed := hrejected.serves rfl (@Does.handshake _ ⟨3000, true, fun _ => none⟩ 0 _ _ _ _
    (Server.stepHandshake_late _ ⟨0, 7, .shaking (.start [] (some 3000))⟩ rfl rfl rfl
      (Nat.le_refl 3000)))
  -- The third gets the slot.
  have htaken := hfailed.serves rfl (@Does.loop _ 3000 0 _ _ rfl)
  have htracked := htaken.serves rfl (@Does.loop _ 3000 0 _ _ rfl)
  have hcleared := htracked.serves rfl (@Does.loop _ 3000 0 _ _ rfl)
  have hstarted := hcleared.serves rfl (@Does.loop _ 3000 0 _ _ rfl)
  -- The client is refused.
  have hclient := Reachable.dials (hstarted.tail (.newClient {} {})) rfl
    (@Client.World.Reports.connect _ 0 "b" List.not_mem_nil)
  have htracked := hclient.dials rfl (@Client.World.Reports.dial _ 0 0 _ _ rfl)
  have hcleared := htracked.dials rfl (@Client.World.Reports.dial _ 0 0 _ _ rfl)
  have hdialing := hcleared.dials rfl (@Client.World.Reports.dial _ 0 0 _ _ rfl)
  have hrefused := hdialing.dials rfl (@Client.World.Reports.refused _ 0 .brokenPipe rfl)
  exact ⟨_, hrefused, rfl, rfl⟩

theorem busy_counters_tell : ∃ p : Host, p.Reachable ∧ p.gauge = 1 ∧
    p.metrics = { active := 1, accepted := 2, rejected := 1, handshakeFailures := 2 } ∧
    p.Accounts ∧ ∀ x ∈ p.servers, ∀ env view, Server.Settled env view x.world.server →
      x.deeds.taken.Perm (x.deeds.started ++ x.deeds.timedOut ++ x.deeds.shutOut ++
        x.deeds.abandoned ++ Server.inLine x.world.server.loops) := by
  obtain ⟨p, hp, hgauge, hmetrics⟩ := exists_busy
  exact ⟨p, hp, hgauge, hmetrics, counters_tell hp⟩

end Host
end Parley
