import Parley.Proofs.Network.Talking

/-! A command-line call that the server has not got round to.

The call has a stream and makes its handshake. First one of the server's loops has the stream in
its line (`Errand.Lined`), then the stream is a connection that has not begun its handshake
(`Errand.Arrives`). Of the secret that the server is going to draw nothing is known, so what holds
of the two ends holds for all that it may draw (`Errand.Waits`). -/
namespace Parley
open Channel Meeting

/-! ### The server takes the stream in -/

namespace Sim.Network
variable {own li : CallId} {connection : Config.Connection} {s : StreamId} {r : Running}
  {d : Duplex} {n n' : Network} {t : Task} {l : Server.Loop} {address : String}

/-- How far a stream is from being taken in. -/
def ahead (s : StreamId) (l : Server.Loop) : Nat := 5 * l.streams.idxOf s + l.stage.rank

/-- What a step of the loop comes to that has the call's stream. -/
inductive LoopGoes (own li : CallId) (connection : Config.Connection) (address : String)
    (s : StreamId) (r : Running) (d : Duplex) (l : Server.Loop) (n' : Network) : Prop where
  | on {l' : Server.Loop} (hl : n'.server.loops.find? (·.id == li) = some l')
      (hserves : l'.Serves address) (hcount : l'.streams.count s = 1)
      (hless : ahead s l' < ahead s l)
      (h : Stands own connection (.loop li) s r d n') :
      LoopGoes own li connection address s r d l n'
  | takesIn {g : Nat} (hfound : n'.server.connections.find? (·.guard == g) =
        some { guard := g, stream := s })
      (h : Stands own connection (.connection g) s r d n') :
      LoopGoes own li connection address s r d l n'

theorem Steady.loops_nodup (h : Steady connection n) : (n.server.loops.map (·.id)).Nodup := by
  obtain ⟨log, hlog⟩ := h.reachable
  exact (Server.kept_of_reachable hlog).loops_nodup

/-- The guard of a loop is no connection's. -/
theorem Steady.guard_fresh (h : Steady connection n) (hl : l ∈ n.server.loops) {g : Nat}
    (hguard : l.stage.guard? = some g) : ∀ c ∈ n.server.connections, c.guard ≠ g := by
  obtain ⟨log, hlog⟩ := h.reachable
  have hguards := (List.nodup_append.mp (Server.kept_of_reachable hlog).guards).2.2
  intro c hc heq
  refine hguards g (List.mem_filterMap.mpr ⟨l, hl, hguard⟩) c.guard ?_ heq.symm
  exact List.mem_map_of_mem hc

/-- The loops at other places do not come to hold the stream. -/
theorem Stands.loops_of_stepLoop {server : Server} {events : List Event}
    (h : Stands own connection (.loop li) s r d n)
    (hs : n.server.stepLoop n.now li = some (server, events)) :
    ∀ x ∈ server.loops, x.id ≠ li → s ∉ x.streams := by
  obtain ⟨m, -, hid, hloops⟩ := Server.loops_of_stepLoop hs
  intro x hx hne
  obtain hx | ⟨hxid, -⟩ := hloops.loops x hx
  · exact h.apart.server.loops x hx fun heq => hne (Server.Spot.loop.inj heq).symm
  · exact absurd (hxid.trans hid) hne

/-- The call stands where the loop has left its stream. -/
theorem Stands.of_stepLoop {server : Server} {events : List Event} {spot : Server.Spot}
    (h : Stands own connection (.loop li) s r d n)
    (hs : n.server.stepLoop n.now li = some (server, events))
    (hquiet : ∀ x, .dropped x ∉ events) (hlacks : server.Lacks spot s) :
    Stands own connection spot s r d (n.serverDid (server, events)) := by
  obtain ⟨hlinks, hscripts, hclient⟩ := quiet_serverDid n server hquiet
  have hplains : (n.serverDid (server, events)).plains = n.plains :=
    congrArg Surroundings.plains (surroundings_serverDid n server events)
  refine ⟨h.steady.lasts (lasts_serverDid (served_stepLoop hs) rfl), ⟨hclient ▸ h.apart.client,
    hscripts ▸ h.apart.scripts, hplains ▸ h.apart.plains, ?_⟩, ?_, hlinks ▸ h.link⟩
  · rw [server_serverDid]
    exact hlacks
  · rw [running?, hscripts]
    exact h.running

theorem loopGoes_of_step (h : Stands own connection (.loop li) s r d n)
    (hl : n.server.loops.find? (·.id == li) = some l) (hserves : l.Serves address)
    (hcount : l.streams.count s = 1) (hcalm : n.Calm address) (ht : t.spot = .loop li)
    (hstep : step t n = some n') : LoopGoes own li connection address s r d l n' := by
  cases serverStepped_of_step (ht ▸ Server.Spot.noConfusion) hstep with
  | begins | handshake | engine | idle => cases ht
  | @loop id server events hs =>
    obtain rfl : id = li := Server.Spot.loop.inj ht
    obtain ⟨hmem, -⟩ := Keyed.mem_of_find? (k := Server.Loop.id) hl
    obtain ⟨l', hl', hserves', hgoes, hquiet⟩ :=
      hserves.stepLoop hl h.steady.running (hcalm.roomy l hmem hserves.address) hs
    have hothers := h.loops_of_stepLoop hs
    have hserver : (n.serverDid (server, events)).server = server := server_serverDid ..
    cases hgoes with
    | on hstreams hrank hconnections =>
      refine .on (by rw [hserver]; exact hl') hserves' (hstreams ▸ hcount) ?_
        (h.of_stepLoop hs hquiet ⟨fun x hx hne => ?_, fun c hc _ => ?_⟩)
      · rw [ahead, ahead, hstreams]
        exact Nat.add_lt_add_left hrank _
      · exact hothers x hx fun heq => hne (by rw [heq])
      · rw [hconnections] at hc
        exact h.apart.server.connections c hc Server.Spot.noConfusion
    | @takesIn stream guard hstreams hguard hrank hconnections =>
      by_cases heq : stream = s
      · subst heq
        have hgone : stream ∉ l'.streams := by
          rw [hstreams, List.count_cons_self] at hcount
          exact List.count_eq_zero.mp (Nat.succ.inj hcount)
        refine .takesIn (g := guard) ?_
          (h.of_stepLoop hs hquiet ⟨fun x hx _ => ?_, fun c hc hne => ?_⟩)
        · have hfind : n.server.connections.find? (·.guard == guard) = none :=
            List.find?_eq_none.mpr fun c hc => by simpa using h.steady.guard_fresh hmem hguard c hc
          rw [hserver, hconnections, List.find?_append, hfind]
          simp
        · by_cases hxid : x.id = id
          · have hnodup := (h.steady.lasts (lasts_step hstep)).loops_nodup
            rw [hserver] at hnodup
            obtain ⟨hmem', hid'⟩ := Keyed.mem_of_find? (k := Server.Loop.id) hl'
            rw [Keyed.eq_of_mem hnodup hx hmem' (hxid.trans hid'.symm)]
            exact hgone
          · exact hothers x hx hxid
        · rw [hconnections] at hc
          obtain hc | hc := List.mem_append.mp hc
          · exact h.apart.server.connections c hc Server.Spot.noConfusion
          · obtain rfl := List.mem_singleton.mp hc
            exact absurd rfl hne
      · refine .on (by rw [hserver]; exact hl') hserves' ?_ ?_
          (h.of_stepLoop hs hquiet ⟨fun x hx hne => ?_, fun c hc _ => ?_⟩)
        · rw [hstreams, List.count_cons_of_ne heq] at hcount
          exact hcount
        · have hserved := hserves.stage
          rw [ahead, ahead, hstreams, List.idxOf_cons_ne _ heq]
          omega
        · exact hothers x hx fun heq => hne (by rw [heq])
        · rw [hconnections] at hc
          obtain hc | hc := List.mem_append.mp hc
          · exact h.apart.server.connections c hc Server.Spot.noConfusion
          · obtain rfl := List.mem_singleton.mp hc
            exact heq

theorem Steady.wantsSecret {g : Nat} (h : Steady connection n)
    (hk : n.server.connections.find? (·.guard == g) = some { guard := g, stream := s }) :
    n.server.wantsSecret g = true := by
  obtain ⟨hmem, -⟩ := Keyed.mem_of_find? (k := Server.Connection.guard) hk
  rw [Server.wantsSecret, h.running, Bool.not_false, Bool.true_and]
  exact List.any_eq_true.mpr ⟨_, hmem, by simp⟩

/-- **A connection that has arrived can only begin its handshake**, with a secret of its own. -/
theorem begun_of_step {g : Nat} (h : Stands own connection (.connection g) s r d n)
    (hk : n.server.connections.find? (·.guard == g) = some { guard := g, stream := s })
    (ht : t.spot = .connection g) (hstep : step t n = some n') :
    ∃ secret limit, n.entropy.Yields secret ∧ Stands own connection (.connection g) s r d n' ∧
      n'.server.connections.find? (·.guard == g) =
        some { guard := g, stream := s, progress := .shaking (.start secret limit) } := by
  cases serverStepped_of_step (ht ▸ Server.Spot.noConfusion) hstep with
  | loop | idle => cases ht
  | begins =>
    obtain rfl := Server.Spot.connection.inj ht
    refine ⟨_, dueAfter n.server.config.handshakeTimeout n.now, n.entropy.yields_draw,
      ⟨h.steady.lasts (lasts_step hstep), ⟨h.apart.client, h.apart.scripts, h.apart.plains,
        h.apart.server.beginHandshake ..⟩, h.running, h.link⟩, ?_⟩
    refine (Keyed.find?_map (k := Server.Connection.guard) fun c => ?_).trans ?_
    · split <;> rfl
    · rw [hk, Option.map_some, if_pos rfl]
  | handshake hwants =>
    obtain rfl := Server.Spot.connection.inj ht
    rw [h.steady.wantsSecret hk] at hwants
    cases hwants
  | engine _ hs =>
    obtain rfl := Server.Spot.connection.inj ht
    unfold Server.stepEngine at hs
    rw [hk] at hs
    cases hs

/-- A connection that has arrived is not waited for. -/
theorem begin_ready {g : Nat} (h : Steady connection n)
    (hk : n.server.connections.find? (·.guard == g) = some { guard := g, stream := s }) :
    step (.serverHandshake g) n ≠ none := by
  show n.stepServerHandshake g ≠ none
  unfold stepServerHandshake
  rw [if_pos (h.wantsSecret hk)]
  exact Option.some_ne_none _

end Sim.Network

/-! ### The call waits -/

namespace Errand
open Sim Network

variable (j : Errand)

/-- What the two ends are to send if these are their secrets. -/
def plan (secret secret' : Bytes) : Role → Plan
  | .client => { secret
                 maxRead := j.config.connection.maxRead
                 maxWrite := j.config.connection.maxWrite
                 frames := [(j.query 0).outgoing.frame] }
  | .server => { secret := secret'
                 maxRead := j.config.connection.maxRead
                 maxWrite := j.config.connection.maxWrite
                 frames := (j.query 0).back }

/-- The talk while the server has not begun its handshake, for which it will have this secret. -/
def opening (x : Exchange) (secret' : Bytes) (d : Duplex) : Talk where
  ends
    | .client => .shaking x []
    | .server => .shaking (.start secret') []
  pipes
    | .client => d.outgoing
    | .server => d.incoming

/-- The call makes its handshake, and the server has not begun it. -/
structure Waits (secret : Bytes) (spot : Server.Spot) (s : StreamId) (x : Exchange) (d : Duplex)
    (u : Watch) : Prop where
  stands : ∃ tracker admission limit, tracker.active = 1 ∧
    u.network.Stands j.own j.config.connection spot s
      (j.running .connecting (j.shaking s ⟨x, limit⟩ tracker admission)) d
  reports : u.reports = []
  printed : u.printed = []
  taken : u.taken s = []
  sound : ∃ bs, u.sent = (fun x => if x = s then bs else []) ∧
    ∀ secret', u.network.entropy.Yields secret' →
      Fair (j.plan secret secret') ∧
      (opening x secret' d).Sound (j.plan secret secret')
        (Talk.Speaks (j.plan secret secret') j.config.connection (j.query 0) .waiting) ∧
      bs ++ (opening x secret' d).unsent (j.plan secret secret') .client =
        greeting (j.plan secret secret') .client ++ speech (j.plan secret secret') .client

variable {j} {secret secret' : Bytes} {spot : Server.Spot} {s : StreamId} {x x' : Exchange}
  {d d' : Duplex} {u v w : Watch} {k : Task} {n : Network} {calm : Network → Prop}
  {P : Role → Engine.Attended → Prop}

theorem Waits.pending (h : j.Waits secret spot s x d u) : j.Pending u := ⟨h.reports, .inl h.printed⟩

theorem network_after (t : Task) (n : Network) : (u.after j.own t n).network = n := by
  unfold Watch.after
  split <;> rfl

theorem entropy_others {mine : Task → Prop} (h : Watch.Others j.own calm mine u v) :
    ∃ k, v.network.entropy.given = u.network.entropy.given.drop k := by
  induction h with
  | refl => exact ⟨0, rfl⟩
  | @tail v w _ hstep ih =>
    obtain ⟨-, t, -, hstep⟩ := hstep
    obtain ⟨k, hk⟩ := ih
    cases hstep with
    | passes => exact ⟨k, hk⟩
    | @task t n hn =>
      obtain ⟨k', hk'⟩ := (lasts_step hn).entropy
      exact ⟨k + k', by rw [network_after, hk', hk, List.drop_drop]⟩

theorem Waits.others (h : j.Waits secret spot s x d u)
    (hothers : Watch.Others j.own calm (·.Ours j.own spot) u v) :
    j.Waits secret spot s x d v ∧ Server.Spares spot s u.network.server v.network.server := by
  obtain ⟨tracker, admission, limit, hactive, hstands⟩ := h.stands
  obtain ⟨hv, hspares, heq⟩ := hstands.others hothers
  obtain ⟨bs, hbs, hsound⟩ := h.sound
  refine ⟨⟨⟨tracker, admission, limit, hactive, hv⟩, ?_, ?_, ?_, bs, ?_, fun secret' hsecret =>
    hsound secret' (hsecret.of_drop (entropy_others hothers))⟩, hspares⟩
  · rw [heq]
    exact h.reports
  · rw [heq]
    exact h.printed
  · rw [heq]
    exact h.taken
  · rw [heq]
    exact hbs

/-- The server has sent nothing. -/
theorem held_opening {taken : Bytes}
    (h : Talk.Sound (j.plan secret secret') P
      ((opening x secret' d).put .client (.shaking x' taken) d')) :
    taken = [] ∧ d'.incoming.held = [] := by
  have htotal : taken ++ (d'.incoming.held ++
      (greeting (j.plan secret secret') .server ++ speech (j.plan secret secret') .server)) =
      greeting (j.plan secret secret') .server ++ speech (j.plan secret secret') .server :=
    h.total .client
  rw [← List.append_assoc] at htotal
  exact List.append_eq_nil_iff.mp (List.append_left_eq_self.mp htotal)

theorem put_opening :
    (opening x secret' d).put .client (.shaking x' []) d' = opening x' secret' d' := by
  unfold Talk.put opening
  congr 1
  · funext r
    cases r <;> rfl
  · funext r
    cases r <;> rfl

/-- **A step of the call's handshake.** -/
theorem Waits.shakes (hsuits : ∀ secret', Talk.Suits (j.plan secret secret') j.config.connection
      (j.query 0)) (h : j.Waits secret spot s x d u)
    (hearly : ∀ due ∈ u.network.dues, u.network.now < due) (hk : Watch.mine j.own k)
    (hn : Network.step k u.network = some n) :
    ∃ x' d', (End.shaking x' []).rank < (End.shaking x []).rank ∧
      j.Waits secret spot s x' d' (u.after j.own k n) ∧ n.server = u.network.server := by
  obtain ⟨tracker, admission, limit, hactive, hstands⟩ := h.stands
  obtain ⟨bs, hbs, hsound⟩ := h.sound
  obtain ⟨hfair, hsome, -⟩ := hsound _ u.network.entropy.yields_draw
  have hm := Talk.manner_speaks (hsuits (u.network.entropy.draw Exchange.keyLength).1) .waiting
  have hlate : ∀ due ∈ limit.toList, u.network.now < due := fun due hdue =>
    hearly due (mem_dues_running hstands.running (dues_shaking hdue))
  have hset : ∀ d', (u.network.setView s true d').running? j.own =
      some (j.running .connecting (j.shaking s ⟨x, limit⟩ tracker admission)) :=
    fun _ => hstands.running
  cases shook_of_step hstands.running hstands.link hk hn with
  | @goes h' d' hp =>
    obtain ⟨_, -, hp'⟩ | ⟨x', d'', hadv, hp'⟩ | ⟨_, -, hp'⟩ := Handshake.step_early hlate hp
    · cases hp'
    · cases hp'
      have hmoved := moved_clientDid (hset d') (j.shaking s ⟨x', limit⟩ tracker admission)
        fun _ hx => absurd hx List.not_mem_nil
      obtain ⟨new, hnew⟩ := Exchange.held_advance hadv
      have hserver := congrArg Surroundings.server hmoved.surroundings
      have hentropy := congrArg Surroundings.entropy hmoved.surroundings
      refine ⟨x', d', Talk.rank_advance hadv [], ?_, hserver⟩
      have htook : [] ++ d'.incoming.held = d.incoming.held := by
        obtain ⟨_, _, taken, hres, htook, hsound, -⟩ :=
          hsome.shakes (r := .client) hfair hm rfl hadv
        obtain ⟨rfl, rfl⟩ := Prod.mk.inj (Except.ok.inj hres)
        obtain ⟨htaken, -⟩ := held_opening hsound
        exact htaken ▸ htook
      refine of_moved_on hk hstands.link hnew.symm htook hmoved ?_
      refine ⟨⟨tracker, admission, limit, hactive, hstands.moves hn hmoved⟩, ?_, ?_, ?_,
        bs ++ new, ?_, fun secret' hsecret => ?_⟩
      · rw [h.reports]
        rfl
      · rw [h.printed]
        rfl
      · dsimp only
        rw [h.taken, ite_self]
        rfl
      · rw [hbs]
        funext x
        dsimp only
        split <;> rfl
      · obtain ⟨hfair, hsound, hunsent⟩ :=
          hsound secret' (Eq.mp (congrArg (Entropy.Yields · secret') hentropy) hsecret)
        obtain ⟨_, _, taken, hres, -, hsound, hgoes⟩ := hsound.shakes (r := .client) hfair
          (Talk.manner_speaks (hsuits secret') .waiting) rfl hadv
        obtain ⟨rfl, rfl⟩ := Prod.mk.inj (Except.ok.inj hres)
        obtain ⟨htaken, -⟩ := held_opening hsound
        rw [htaken, put_opening] at hsound hgoes
        refine ⟨hfair, hsound, ?_⟩
        have hwrote : d'.outgoing.held ++ _ = d.outgoing.held ++ _ := hgoes.wrote
        rw [← hnew, List.append_assoc] at hwrote
        rw [List.append_assoc, List.append_cancel_left hwrote]
        exact hunsent
    · cases hp'
  | agrees hp =>
    obtain ⟨_, hx, -⟩ | ⟨_, _, -, hp'⟩ | ⟨_, -, hp'⟩ := Handshake.step_early hlate hp
    · obtain rfl : x = .agreed _ := hx
      have htaken := (hsome.agreed (r := .client) rfl).2.1
      cases htaken
    · cases hp'
    · cases hp'
  | fails hp =>
    obtain ⟨_, -, hp'⟩ | ⟨_, _, -, hp'⟩ | ⟨_, hadv, -⟩ := Handshake.step_early hlate hp
    · cases hp'
    · cases hp'
    · obtain ⟨_, _, _, hres, -⟩ := hsome.shakes (r := .client) hfair hm rfl hadv
      cases hres

/-! ### As a connection -/

/-- The call's stream is a connection of the server's. -/
structure Arrives (j : Errand) (secret : Bytes) (g : Nat) (s : StreamId) (x : Exchange) (d : Duplex)
    (u : Watch) : Prop where
  waits : j.Waits secret (.connection g) s x d u
  server : u.network.server.connections.find? (·.guard == g) = some { guard := g, stream := s }

/-- **A call whom the server has taken in comes to its end.** -/
theorem Arrives.until {g : Nat} (hsuits : ∀ secret' due, Talk.Suits (j.plan secret secret')
      j.config.connection (j.query due)) (h : j.Arrives secret g s x d u) :
    Watch.Until j.own (Calm j.config.client.address) j.Pending j.Over u := by
  refine Watch.until_of_measure
    (r := InvImage (· < ·) fun i : Exchange × Duplex => (End.shaking i.1 []).rank)
    (InvImage.wf _ Nat.lt_wfRel.wf) (fun i u => j.Arrives secret g s i.1 i.2 u)
    (fun _ => (·.Ours j.own (.connection g))) (fun i u v h hv => ?_)
    (fun i u h => h.waits.pending) (fun i u h _ => ?_) (fun i u v k h hcalm hk hstep => ?_)
    (a := (x, d)) h
  · obtain ⟨hwaits, hspares⟩ := h.waits.others hv
    exact ⟨hwaits, hspares.connection g _ rfl h.server⟩
  · refine ⟨.serverHandshake g, .inr ⟨rfl, Server.Spot.noConfusion⟩, fun v hv _ => ?_⟩
    obtain ⟨_, _, _, -, hstands⟩ := hv.waits.stands
    exact begin_ready hstands.steady hv.server
  · obtain ⟨x, d⟩ := i
    cases hstep with | @task _ n hn => ?_
    rcases hk with hk | ⟨hspot, -⟩
    · obtain ⟨x', d', hless, hwaits, hserver⟩ :=
        h.waits.shakes (fun secret' => hsuits secret' 0) hcalm.early hk hn
      refine .inl ⟨(x', d'), hless, hwaits, ?_⟩
      rw [network_after, hserver]
      exact h.server
    · obtain ⟨tracker, admission, limit, hactive, hstands⟩ := h.waits.stands
      obtain ⟨bs, hbs, hsound⟩ := h.waits.sound
      obtain ⟨secret', limit', hyields, hstands', hserver⟩ :=
        begun_of_step hstands h.server hspot hn
      obtain ⟨hfair, hsound, hunsent⟩ := hsound secret' hyields
      rw [Watch.after_of_not_mine (not_mine_of_spot (hspot ▸ Server.Spot.noConfusion))]
      have htalks : j.Talks (j.plan secret secret') s g 0 .waiting (opening x secret' d)
          { u with network := n } :=
        ⟨⟨tracker, admission, limit, hactive, hstands'⟩, ⟨limit', hserver⟩, hsound,
          fun _ _ _ => rfl, h.waits.reports, h.waits.printed, ⟨bs, hbs, hunsent⟩, h.waits.taken⟩
      exact .inr (htalks.until hfair (hsuits secret'))

/-! ### In a loop's line -/

/-- The call's stream is in the line of one of the server's loops, so far from being taken in. -/
structure Lined (j : Errand) (secret : Bytes) (li : CallId) (m : Nat) (s : StreamId) (x : Exchange)
    (d : Duplex) (u : Watch) : Prop where
  waits : j.Waits secret (.loop li) s x d u
  loop : ∃ l, u.network.server.loops.find? (·.id == li) = some l ∧
    l.Serves j.config.client.address ∧ l.streams.count s = 1 ∧ ahead s l = m

theorem Lined.others {li m : Nat} (h : j.Lined secret li m s x d u)
    (hothers : Watch.Others j.own calm (·.Ours j.own (.loop li)) u v) :
    j.Lined secret li m s x d v := by
  obtain ⟨hwaits, hspares⟩ := h.waits.others hothers
  obtain ⟨l, hl, hserves, hcount, hm⟩ := h.loop
  obtain ⟨more, hmore, hl'⟩ := hspares.loop li l rfl hl
  have hstreams : Server.Loop.streams { l with backlog := l.backlog ++ more } = l.streams ++ more :=
    (List.append_assoc ..).symm
  have hin : s ∈ l.streams := List.count_pos_iff.mp (by omega)
  refine ⟨hwaits, _, hl', ⟨hserves.address, hserves.faults, hserves.stage⟩, ?_, ?_⟩
  · rw [hstreams, List.count_append, List.count_eq_zero_of_not_mem hmore, hcount]
  · rw [← hm, ahead, ahead, hstreams, List.idxOf_append_of_mem hin]

/-- **A call whose stream a loop has comes to its end.** -/
theorem Lined.until {li m : Nat} (hsuits : ∀ secret' due, Talk.Suits (j.plan secret secret')
      j.config.connection (j.query due)) (h : j.Lined secret li m s x d u) :
    Watch.Until j.own (Calm j.config.client.address) j.Pending j.Over u := by
  refine Watch.until_of_measure
    (r := InvImage (· < ·) fun i : Nat × Exchange × Duplex => i.1 + (End.shaking i.2.1 []).rank)
    (InvImage.wf _ Nat.lt_wfRel.wf) (fun i u => j.Lined secret li i.1 s i.2.1 i.2.2 u)
    (fun _ => (·.Ours j.own (.loop li))) (fun i u v h hv => h.others hv)
    (fun i u h => h.waits.pending) (fun i u h _ => ?_) (fun i u v k h hcalm hk hstep => ?_)
    (a := (m, x, d)) h
  · refine ⟨.loop li, .inr ⟨rfl, Server.Spot.noConfusion⟩, fun v hv _ => ?_⟩
    obtain ⟨l, hl, hserves, hcount, -⟩ := hv.loop
    obtain ⟨_, _, _, -, hstands⟩ := hv.waits.stands
    have hin : s ∈ l.streams := List.count_pos_iff.mp (by omega)
    have hready := hserves.ready hl hstands.steady.running (List.ne_nil_of_mem hin) v.network.now
    show (v.network.server.stepLoop v.network.now li).map _ ≠ none
    rw [ne_eq, Option.map_eq_none_iff]
    exact hready
  · obtain ⟨m, x, d⟩ := i
    obtain ⟨l, hl, hserves, hcount, hm⟩ := h.loop
    cases hstep with | @task _ n hn => ?_
    rcases hk with hk | ⟨hspot, -⟩
    · obtain ⟨x', d', hless, hwaits, hserver⟩ :=
        h.waits.shakes (fun secret' => hsuits secret' 0) hcalm.early hk hn
      refine .inl ⟨(m, x', d'), Nat.add_lt_add_left hless m, hwaits, l, ?_, hserves, hcount, hm⟩
      rw [network_after, hserver]
      exact hl
    · obtain ⟨tracker, admission, limit, hactive, hstands⟩ := h.waits.stands
      obtain ⟨bs, hbs, hsound⟩ := h.waits.sound
      have hyields : ∀ secret', n.entropy.Yields secret' → u.network.entropy.Yields secret' :=
        fun _ hsecret => hsecret.of_drop (lasts_step hn).entropy
      rw [Watch.after_of_not_mine (not_mine_of_spot (hspot ▸ Server.Spot.noConfusion))]
      cases loopGoes_of_step hstands hl hserves hcount hcalm hspot hn with
      | @on l' hl' hserves' hcount' hless hstands' =>
        exact .inl ⟨(ahead s l', x, d), Nat.add_lt_add_right (hm ▸ hless) _,
          ⟨⟨tracker, admission, limit, hactive, hstands'⟩, h.waits.reports, h.waits.printed,
            h.waits.taken, bs, hbs,
            fun secret' hsecret => hsound secret' (hyields secret' hsecret)⟩,
          l', hl', hserves', hcount', rfl⟩
      | takesIn hfound hstands' =>
        exact .inr (Arrives.until hsuits (x := x) (d := d)
          ⟨⟨⟨tracker, admission, limit, hactive, hstands'⟩, h.waits.reports, h.waits.printed,
            h.waits.taken, bs, hbs,
            fun secret' hsecret => hsound secret' (hyields secret' hsecret)⟩, hfound⟩)

end Errand
end Parley
