import Parley.Proofs.Network.Tending
import Parley.Proofs.Utf8

/-! A command-line call while its stream is open.

The server has begun its handshake on the call's stream, and the two ends are where they can be
(`Errand.Talks`, over `Talk.Sound`). Each step of the call's client or of the server's connection
keeps this and leaves less to do, until the client's drive has ended; one of them can always make a
step. -/
namespace Parley
open Channel Meeting

/-- How far the server's connection is when this is its end of the talk. -/
def End.progress (due : Option Nat) : End → Server.Progress
  | .shaking x _ => .shaking ⟨x, due⟩
  | .engaged e _ => .engaged e

namespace Sim.Network
variable {own : CallId} {connection : Config.Connection} {spot : Server.Spot} {s : StreamId}
  {r r' : Running} {d d' : Duplex} {n n' : Network} {t : Task} {k : Server.Connection} {due : Nat}

/-- Where a call of the command line stands that has a stream: nobody else of the client's side
holds it, and of the server's side nobody at another place. -/
structure Stands (own : CallId) (connection : Config.Connection) (spot : Server.Spot) (s : StreamId)
    (r : Running) (d : Duplex) (n : Network) : Prop where
  steady : Steady connection n
  apart : n.Apart own spot s
  running : n.running? own = some r
  link : n.links[s]? = some d

theorem Stands.length (h : Stands own connection spot s r d n) : s < n.links.length :=
  (List.getElem?_eq_some_iff.mp h.link).1

theorem Stands.passes (h : Stands own connection spot s r d n) (now : Nat) :
    Stands own connection spot s r d { n with now } where
  steady := ⟨h.steady.reachable, h.steady.connection, h.steady.running, h.steady.echo,
    h.steady.attentive, h.steady.capacity, h.steady.fair⟩
  apart := ⟨h.apart.client, h.apart.scripts, h.apart.plains, h.apart.server⟩
  running := h.running
  link := h.link

/-- The steps of others leave the call where it is, and its place at the server. -/
theorem Stands.others {calm : Network → Prop} {u v : Watch}
    (h : Stands own connection spot s r d u.network)
    (hothers : Watch.Others own calm (·.Ours own spot) u v) :
    Stands own connection spot s r d v.network ∧
      Server.Spares spot s u.network.server v.network.server ∧
      v = { u with network := v.network } := by
  induction hothers with
  | refl => exact ⟨h, .refl _ _ _, rfl⟩
  | @tail v w _ hstep ih =>
    obtain ⟨hv, hspares, heq⟩ := ih
    obtain ⟨-, t, hnone, hstep⟩ := hstep
    cases hstep with
    | passes =>
      refine ⟨hv.passes _, hspares, ?_⟩
      rw [heq]
    | @task t n hn =>
      have ht : ¬ t.Ours own spot := hnone t rfl
      have hbeside := Beside.step hv.apart ht (.inl hv.length) hn
      rw [Watch.after_of_not_mine fun hmine => ht (.inl hmine)]
      refine ⟨⟨hv.steady.lasts (lasts_step hn), hbeside.apart, hbeside.running.trans hv.running,
        (hbeside.link hv.length).trans hv.link⟩, hspares.trans hbeside.server, ?_⟩
      rw [heq]

/-- The call stands where a step of its own has led it. -/
theorem Stands.moves {printed : List String} {reports : List (CallId × Report)}
    (h : Stands own connection spot s r d n) (hn : step t n = some n')
    (hmoved : Moved own (n.setView s true d') n' r' printed reports) :
    Stands own connection spot s r' d' n' where
  steady := h.steady.lasts (lasts_step hn)
  apart := hmoved.apart ⟨h.apart.client, h.apart.scripts, h.apart.plains, h.apart.server⟩
  running := hmoved.running
  link := by
    rw [hmoved.links]
    exact link_setView h.link true d'

/-- The call stands where it stood when the server's connection has made a step. -/
theorem Stands.tended (h : Stands own connection (.connection k.guard) k.stream r d n)
    (hn : step t n = some n') (htended : Tended n n' k d') :
    Stands own connection (.connection k.guard) k.stream r d'.flip n' where
  steady := h.steady.lasts (lasts_step hn)
  apart := htended.apart h.apart
  running := htended.running.trans h.running
  link := by
    rw [htended.links, List.getElem?_set_self h.length]

/-! ### Deadlines -/

theorem mem_dues_running (h : n.running? own = some r) (hdue : due ∈ r.script.client.dues) :
    due ∈ n.dues :=
  List.mem_append_right _ (List.mem_flatMap.mpr
    ⟨r, (Keyed.mem_of_find? (k := fun r : Running => r.script.id) h).1, hdue⟩)

theorem mem_dues_connection {g : Nat}
    (h : n.server.connections.find? (·.guard == g) = some k) (hdue : due ∈ k.progress.dues) :
    due ∈ n.dues :=
  List.mem_append_left _ (List.mem_append_left _ (List.mem_append_right _ (List.mem_flatMap.mpr
    ⟨k, (Keyed.mem_of_find? (k := Server.Connection.guard) h).1, hdue⟩)))

end Sim.Network

/-! ### The talk of the call -/

namespace Errand
open Sim Network

variable (j : Errand)

/-- Where the call is when this is its end of the talk. -/
def place (s : StreamId) (a : Engine.Asked) (tracker : Tracker) (admission : Admission)
    (due : Option Nat) : End → Running
  | .shaking x _ => j.running .connecting (j.shaking s ⟨x, due⟩ tracker admission)
  | .engaged e _ => j.running (if a = .returned then .closing else .sending)
      (j.engaged (j.linked s e a) tracker admission {} [])

/-- What the call has taken in when this is its end of the talk: first of all the public key of the
other end. -/
def Took (plan : Role → Plan) (bs : Bytes) : End → Prop
  | .shaking _ taken => bs = taken
  | .engaged .. => greeting plan .server <+: bs

/-- The call and the server's connection talk over a stream. -/
structure Talks (plan : Role → Plan) (s : StreamId) (g : Nat) (due : Nat) (a : Engine.Asked)
    (t : Talk) (u : Watch) : Prop where
  stands : ∃ tracker admission limit, tracker.active = 1 ∧
    u.network.Stands j.own j.config.connection (.connection g) s
      (j.place s a tracker admission limit (t.ends .client)) (t.stream .client)
  server : ∃ limit, u.network.server.connections.find? (·.guard == g) =
    some { guard := g, stream := s, progress := (t.ends .server).progress limit }
  sound : t.Sound plan (Talk.Speaks plan j.config.connection (j.query due) a)
  begun : ∀ x taken, t.ends .client = .shaking x taken → a = .waiting
  reports : u.reports = []
  printed : u.printed = if a = .returned then j.answer else []
  sent : ∃ bs, u.sent = (fun x => if x = s then bs else []) ∧
    bs ++ t.unsent plan .client = greeting plan .client ++ speech plan .client
  taken : Took plan (u.taken s) (t.ends .client)

variable {j} {plan : Role → Plan} {s : StreamId} {g due due' : Nat} {a a' : Engine.Asked}
  {t : Talk} {u v w : Watch} {k : Task} {n : Network} {q : End} {d d' : Duplex}
  {calm : Network → Prop} {x : Exchange} {taken : Bytes} {e : Engine} {l : Engine.Log}

theorem Talks.pending (h : j.Talks plan s g due a t u) : j.Pending u := by
  refine ⟨h.reports, ?_⟩
  rw [h.printed]
  split
  · exact .inr rfl
  · exact .inl rfl

theorem Talks.others (h : j.Talks plan s g due a t u)
    (hothers : Watch.Others j.own calm (·.Ours j.own (.connection g)) u v) :
    j.Talks plan s g due a t v := by
  obtain ⟨tracker, admission, limit, hactive, hstands⟩ := h.stands
  obtain ⟨hlimit, hserver⟩ := h.server
  obtain ⟨hv, hspares, heq⟩ := hstands.others hothers
  refine ⟨⟨tracker, admission, limit, hactive, hv⟩,
    ⟨hlimit, hspares.connection g _ rfl hserver⟩, h.sound, h.begun, ?_, ?_, ?_, ?_⟩
  · rw [heq]
    exact h.reports
  · rw [heq]
    exact h.printed
  · rw [heq]
    exact h.sent
  · rw [heq]
    exact h.taken

/-! ### The call's steps -/

/-- What a step of the call's on its stream adds. -/
theorem of_moved_on {P : Watch → Prop} {r : Running} {printed : List String}
    {reports : List (CallId × Report)} {new took : Bytes} (hk : Watch.mine j.own k)
    (hlink : u.network.links[s]? = some d) (hheld : d'.outgoing.held = d.outgoing.held ++ new)
    (htook : took ++ d'.incoming.held = d.incoming.held)
    (h : Moved j.own (u.network.setView s true d') n r printed reports)
    (hP : P { network := n
              printed := u.printed ++ printed
              reports := u.reports ++ reports
              sent := fun x => u.sent x ++ if x = s then new else []
              taken := fun x => u.taken x ++ if x = s then took else [] }) :
    P (u.after j.own k n) := by
  have hview : n.view s true = d' := by
    have hs : n.links[s]? = some d' := by
      rw [show n.links = u.network.links.set s d' from h.links, List.getElem?_set_self
        (List.getElem?_eq_some_iff.mp hlink).1]
    rw [view_of_link hs, if_pos rfl]
  have hview' : u.network.view s true = d := by rw [view_of_link hlink, if_pos rfl]
  have hothers : ∀ x, x ≠ s → n.view x true = u.network.view x true := by
    intro x hx
    rw [view, view, List.getD_eq_getElem?_getD, List.getD_eq_getElem?_getD,
      show n.links = u.network.links.set s d' from h.links, List.getElem?_set_ne (Ne.symm hx)]
  have hsent : ∀ x, (n.view x true).outgoing.held =
      (u.network.view x true).outgoing.held ++ if x = s then new else [] := by
    intro x
    by_cases hx : x = s
    · rw [hx, hview, hview', if_pos rfl, hheld]
    · rw [hothers x hx, if_neg hx, List.append_nil]
  have htaken : ∀ x, (u.network.view x true).incoming.held =
      (if x = s then took else []) ++ (n.view x true).incoming.held := by
    intro x
    by_cases hx : x = s
    · rw [hx, hview, hview', if_pos rfl, htook]
    · rw [hothers x hx, if_neg hx, List.nil_append]
  rw [Watch.after_of_mine hk h.printed h.reports hsent htaken]
  exact hP

/-- The call's end of the talk has made a step. -/
theorem Talks.moves {printed : List String} {took : Bytes} (h : j.Talks plan s g due a t u)
    (tracker : Tracker) (admission : Admission) (limit : Option Nat) (hk : Watch.mine j.own k)
    (hn : Network.step k u.network = some n)
    (hmoved : Moved j.own (u.network.setView s true d') n
      (j.place s a' tracker admission limit q) printed [])
    (hactive : tracker.active = 1)
    (hsound : (t.put .client q d').Sound plan
      (Talk.Speaks plan j.config.connection (j.query due') a'))
    (hgoes : Talk.Goes plan .client t (t.put .client q d'))
    (hheld : (t.pipes .client).held <+: d'.outgoing.held)
    (htook : took ++ d'.incoming.held = (t.pipes .server).held)
    (htaken : Took plan (u.taken s ++ took) q)
    (hbegun : ∀ x taken, q = .shaking x taken → a' = .waiting)
    (hprinted : (if a = .returned then j.answer else []) ++ printed =
      if a' = .returned then j.answer else []) :
    j.Talks plan s g due' a' (t.put .client q d') (u.after j.own k n) := by
  obtain ⟨_, _, _, -, hstands⟩ := h.stands
  obtain ⟨hlimit, hserver⟩ := h.server
  obtain ⟨new, hnew⟩ := hheld
  obtain ⟨bs, hbs, hunsent⟩ := h.sent
  refine of_moved_on hk hstands.link hnew.symm htook hmoved ?_
  refine ⟨⟨tracker, admission, limit, hactive, ?_⟩, ⟨hlimit, ?_⟩, hsound, ?_, ?_, ?_, ?_, ?_⟩
  · rw [Talk.ends_put, Talk.stream_put]
    exact hstands.moves hn hmoved
  · rw [show (u.network).server = n.server from
      (congrArg Surroundings.server hmoved.surroundings).symm] at hserver
    exact hserver
  · intro x taken hx
    exact hbegun x taken ((Talk.ends_put ..).symm.trans hx)
  · rw [h.reports]
    rfl
  · rw [h.printed]
    exact hprinted
  · refine ⟨bs ++ new, ?_, ?_⟩
    · funext x
      rw [hbs]
      dsimp only
      split <;> rfl
    · have hwrote := hgoes.wrote
      rw [Talk.pipes_put, ← hnew, List.append_assoc] at hwrote
      rw [List.append_assoc, List.append_cancel_left hwrote]
      exact hunsent
  · rw [Talk.ends_put]
    dsimp only
    rw [if_pos rfl]
    exact htaken

theorem dues_shaking {h : Handshake} {tracker : Tracker} {admission : Admission} {limit : Nat}
    (hlimit : limit ∈ h.due.toList) : limit ∈ (j.shaking s h tracker admission).dues := by
  simp only [Client.dues, shaking, List.flatMap_cons, List.flatMap_nil, Client.Stage.dues,
    List.append_nil, List.mem_append]
  exact .inl (.inr hlimit)

theorem dues_engaged {k : Client.Connection} {tracker : Tracker} {admission : Admission}
    {limit : Nat} (hlimit : limit ∈ k.engine.dues) :
    limit ∈ (j.engaged k tracker admission {} []).dues := by
  simp only [Client.dues, engaged, List.flatMap_cons, List.flatMap_nil, List.append_nil,
    List.mem_append]
  exact .inr hlimit

/-- The script sends the message when its client is connected. -/
theorem next_connected {now : Nat} {e e' : Engine} (s : StreamId) (tracker : Tracker)
    (admission : Admission)
    (hask : (j.query (now + j.config.connection.requestTimeout)).ask e = .ok e') :
    (j.running .connecting (j.engaged (j.linked s e .waiting) tracker admission {} [])).script.next
        now .done =
      ((j.running .sending
        (j.engaged (j.linked s e' .waiting) tracker admission {} [])).script, [], {}) := by
  have hengine : Client.engine? (j.engaged (j.linked s e .waiting) tracker admission {} []) j.own =
      some e := by
    simp [Client.engine?, engaged, linked]
  have hset :
      Client.setEngine (j.engaged (j.linked s e .waiting) tracker admission {} []) j.own e' =
        j.engaged (j.linked s e' .waiting) tracker admission {} [] := by
    simp [Client.setEngine, engaged, linked]
  have hasked : (if j.notify = true then e.write j.own j.payload
      else e.request j.own j.payload j.config.connection.maxRead
        (now + j.config.connection.requestTimeout)) = .ok e' := by
    rw [← hask, query]
    split <;> rfl
  have hsend : (j.running .connecting
      (j.engaged (j.linked s e .waiting) tracker admission {} [])).script.send now =
      .ok (j.running .sending
        (j.engaged (j.linked s e' .waiting) tracker admission {} [])).script := by
    rw [← hset]
    unfold Client.Script.send
    dsimp only [running]
    rw [hengine]
    exact congrArg (Except.map _) hasked
  unfold Client.Script.next
  dsimp only [running] at hsend ⊢
  rw [hsend]

/-- The script closes its connection when the call of its engine has returned. -/
theorem next_returned (now : Nat) (s : StreamId) (e : Engine) (tracker : Tracker)
    (admission : Admission) (due : Nat) :
    ∃ out : Client.Script.Output, out.result = none ∧ out.printed.toList = j.answer ∧
      (j.running .sending (j.engaged (j.linked s e .told) tracker admission {} [])).script.next now
        (j.query due).outcome =
      ((j.running .closing
        (j.engaged (j.linked s e .returned) tracker admission {} [])).script, [], out) := by
  have hclose : (Client.close (j.engaged (j.linked s e .told) tracker admission {} []) j.own
      j.own).2 = j.engaged (j.linked s e .returned) tracker admission {} [] := by
    simp [Client.close, Client.join, Client.cancel, Client.setConnection, engaged, linked,
      Shutdown.trigger]
  unfold query answer
  cases hn : j.notify with
  | true =>
    refine ⟨{}, rfl, rfl, ?_⟩
    rw [← hclose]
    rfl
  | false =>
    refine ⟨{ printed := some (Utf8.decodeLossy j.payload) }, rfl, ?_, ?_⟩
    · simp [payload, Utf8.decodeLossy_encode]
    · rw [← hclose]
      rfl

/-- What a talk has come to that has gone on. -/
def GoesOn (j : Errand) (plan : Role → Plan) (s : StreamId) (g : Nat) (t : Talk) (w : Watch) :
    Prop :=
  ∃ due a t', Talk.Less plan t' t ∧ j.Talks plan s g due a t' w

/-- **A step of the call's handshake.** -/
theorem Talks.shakes (hfair : Fair plan)
    (hsuits : ∀ due, Talk.Suits plan j.config.connection (j.query due))
    (h : j.Talks plan s g due a t u) (hr : t.ends .client = .shaking x taken)
    (hearly : ∀ due ∈ u.network.dues, u.network.now < due) (hk : Watch.mine j.own k)
    (hn : Network.step k u.network = some n) : j.GoesOn plan s g t (u.after j.own k n) := by
  obtain ⟨tracker, admission, limit, hactive, hstands⟩ := h.stands
  have hm := Talk.manner_speaks (hsuits due) a
  obtain rfl := h.begun x taken hr
  have htaken := h.taken
  rw [hr] at hstands htaken
  have hlate : ∀ due ∈ limit.toList, u.network.now < due := fun due hdue =>
    hearly due (mem_dues_running hstands.running (dues_shaking hdue))
  have hset : ∀ d', (u.network.setView s true d').running? j.own =
      some (j.running .connecting (j.shaking s ⟨x, limit⟩ tracker admission)) :=
    fun _ => hstands.running
  have hgone := fun x' d' => moved_clientDid (hset d') (j.shaking s ⟨x', limit⟩ tracker admission)
    fun _ hx => absurd hx List.not_mem_nil
  cases shook_of_step hstands.running hstands.link hk hn with
  | goes hp =>
    obtain ⟨_, -, hp'⟩ | ⟨x', d', hadv, hp'⟩ | ⟨_, -, hp'⟩ := Handshake.step_early hlate hp
    · cases hp'
    · obtain ⟨_, _, bs, hres, htook, hsound, hgoes⟩ := h.sound.shakes hfair hm hr hadv
      obtain ⟨rfl, rfl⟩ := Prod.mk.inj (Except.ok.inj hres)
      obtain ⟨rfl, rfl⟩ := Handshake.Progress.going.inj hp'
      exact ⟨due, .waiting, _, hgoes.less, h.moves tracker admission limit hk hn (hgone _ _) hactive
        hsound hgoes (Exchange.held_advance hadv) htook (congrArg (· ++ bs) htaken)
        (fun _ _ _ => rfl) rfl⟩
    · cases hp'
  | agrees hp =>
    obtain ⟨_, hx, hp'⟩ | ⟨_, _, -, hp'⟩ | ⟨_, -, hp'⟩ := Handshake.step_early hlate hp
    · cases hp'
      obtain rfl : x = .agreed _ := hx
      obtain ⟨rfl, hgreeting, -⟩ := h.sound.agreed hr
      obtain ⟨e, l, hask, hsound, hgoes⟩ := Talk.Sound.client_engages (d := t.stream .client)
        (hsuits due) (hsuits (u.network.now + j.config.connection.requestTimeout)) h.sound hr
        { now := u.network.now, cancelled := false, attentive := true, reply := some }
      have hmoved := moved_running (hset (t.stream .client))
        (rfl : _ = [Event.opened] ++ [Event.returned j.own .done]) (by simp [Event.isPlain]) rfl
        (next_connected s tracker admission hask)
      exact ⟨_, .waiting, _, hgoes.less, h.moves tracker admission none hk hn hmoved hactive hsound
        hgoes List.prefix_rfl (List.nil_append _)
        (by rw [Took, List.append_nil, htaken, hgreeting]; exact List.prefix_rfl)
        (by rintro _ _ ⟨⟩) rfl⟩
    · cases hp'
    · cases hp'
  | fails hp =>
    obtain ⟨_, -, hp'⟩ | ⟨_, _, -, hp'⟩ | ⟨_, hadv, -⟩ := Handshake.step_early hlate hp
    · cases hp'
    · cases hp'
    · obtain ⟨_, _, _, hres, -⟩ := h.sound.shakes hfair hm hr hadv
      cases hres

theorem quiet_plain {events : List Engine.Event} (hquiet : ∀ ev ∈ events, ev.isQuiet = true) :
    Client.ending events = none ∧ ∀ x ∈ events.map Event.engine, x.isPlain = true := by
  refine ⟨List.findSome?_eq_none_iff.mpr fun ev hev => ?_, fun x hx => ?_⟩
  · have := hquiet ev hev
    cases ev with
    | ended => cases this
    | _ => rfl
  · obtain ⟨ev, hev, rfl⟩ := List.mem_map.mp hx
    have := hquiet ev hev
    cases ev with
    | returned => cases this
    | _ => rfl

/-- What a call sends is a public key and its message. -/
theorem said (hfair : Fair plan) (hsuits : Talk.Suits plan j.config.connection (j.query due)) :
    greeting plan .client ++ speech plan .client = Crypto.X25519.publicKey (plan .client).secret ++
      wire (Exchange.sessionKey .server (plan .server).secret
        (Crypto.X25519.publicKey (plan .client).secret)) .clientToServer 0
        [⟨if j.notify then 0 else 1, j.payload⟩] := by
  have hframe : (j.query due).outgoing.frame = ⟨if j.notify then 0 else 1, j.payload⟩ := by
    unfold query
    split <;> rfl
  have hkey : key plan = Exchange.sessionKey .server (plan .server).secret
      (Crypto.X25519.publicKey (plan .client).secret) := by
    rw [key, hfair.commutes]
    rfl
  rw [speech, hsuits.asks, hframe, hkey]
  rfl

/-- **A step of the call's engine.** -/
theorem Talks.drives (hfair : Fair plan)
    (hsuits : ∀ due, Talk.Suits plan j.config.connection (j.query due))
    (h : j.Talks plan s g due a t u) (hr : t.ends .client = .engaged e l)
    (hearly : ∀ due ∈ u.network.dues, u.network.now < due) (hk : Watch.mine j.own k)
    (hn : Network.step k u.network = some n) :
    j.GoesOn plan s g t (u.after j.own k n) ∨ ∃ e', j.Parts false e' (u.after j.own k n) := by
  obtain ⟨tracker, admission, limit, hactive, hstands⟩ := h.stands
  have htaken := h.taken
  rw [hr] at hstands htaken
  have hlate : ∀ due ∈ e.dues, u.network.now < due := fun due hdue =>
    hearly due (mem_dues_running hstands.running (dues_engaged hdue))
  have hset : ∀ d', (u.network.setView s true d').running? j.own =
      some (j.place s a tracker admission limit (.engaged e l)) :=
    fun _ => hstands.running
  have hcancelled : ((u.network.clientEnv (.script j.own)).engine (j.linked s e a)).cancelled =
      true → a = .returned := by
    intro hfired
    simpa [Client.Env.engine, Signal.isCancelled, linked] using hfired
  obtain ⟨k', hdrove⟩ := drove_of_step hstands.running hstands.link hk hn
  cases hdrove with
  | @goes e' d' events hp hending =>
    have hheld := Engine.held_stepped (Engine.stepped_of_step hp)
    obtain ⟨took, htook⟩ :=
      Engine.incoming_stepped (s := ⟨e, t.stream .client, {}⟩) (Engine.stepped_of_step hp)
    have htaken' : greeting plan .server <+: u.taken s ++ took :=
      List.IsPrefix.trans htaken (List.prefix_append ..)
    cases h.sound.asks (hsuits due) hr hlate hcancelled hp with
    | @on a' l' ha hquiet hsound hgoes =>
      have hplace : j.place s a' tracker admission limit (.engaged e' l') =
          j.place s a tracker admission limit (.engaged e' l') := by
        rcases ha with rfl | ⟨rfl, rfl⟩ <;> rfl
      have hreturned : (a = .returned) = (a' = .returned) := by
        rcases ha with rfl | ⟨rfl, rfl⟩ <;> simp
      refine .inl ⟨due, a', _, hgoes.less, h.moves tracker admission limit hk hn ?_ hactive hsound
        hgoes hheld htook htaken' (by rintro _ _ ⟨⟩)
        ((List.append_nil _).trans (by simp only [hreturned]))⟩
      rw [hplace]
      exact moved_clientDid (hset d') _ (quiet_plain hquiet).2
    | @returns l' ha hevents hsound hgoes =>
      subst ha hevents
      obtain ⟨out, hresult, hprinted, hnext⟩ :=
        next_returned u.network.now s e' tracker admission due
      have hmoved := moved_running (hset d')
        (rfl : _ = [] ++ [Event.engine (.returned (j.query due).id (j.query due).outcome)])
        (fun _ hx => absurd hx List.not_mem_nil) rfl hnext
      rw [hresult, hprinted] at hmoved
      exact .inl ⟨due, .returned, _, hgoes.less, h.moves tracker admission limit hk hn hmoved
        hactive hsound hgoes hheld htook htaken' (by rintro _ _ ⟨⟩) rfl⟩
    | ends ha hevents =>
      rw [hevents] at hending
      cases hending
  | @ends e' d' events r hp hending =>
    cases h.sound.asks (hsuits due) hr hlate hcancelled hp with
    | on ha hquiet =>
      rw [(quiet_plain hquiet).1] at hending
      cases hending
    | returns ha hevents =>
      rw [hevents] at hending
      cases hending
    | ends ha hevents hdrive hcalls hwrote =>
      subst ha hevents
      cases hending
      obtain ⟨bs, hbs, hunsent⟩ := h.sent
      obtain ⟨took, htook⟩ :=
        Engine.incoming_stepped (s := ⟨e, t.stream .client, {}⟩) (Engine.stepped_of_step hp)
      have hplain : ∀ x ∈ [Event.engine (.ended (.ok ())), .closed], x.isPlain = true := by
        simp [Event.isPlain]
      have hmoved := moved_clientDid (hset d') (j.engaged (j.parted false s e') tracker.release
        admission.release {} []) hplain
      refine .inr ⟨e', of_moved_on hk hstands.link hwrote htook hmoved ?_⟩
      refine ⟨⟨s, tracker.release, admission.release, ?_, hmoved.running⟩, hdrive, hcalls, ?_, ?_,
        ⟨s, (plan .client).secret, (plan .server).secret, ?_, ?_⟩⟩
      · rw [Tracker.release, hactive]
      · rw [h.reports]
        rfl
      · rw [h.printed]
        exact List.append_nil _
      · dsimp only
        rw [if_pos rfl]
        exact List.IsPrefix.trans htaken (List.prefix_append ..)
      · rw [← said hfair (hsuits due), ← hunsent, hbs]
        funext x
        dsimp only
        split <;> rfl

/-! ### The server's steps -/

/-- The server's end of the talk has made a step. -/
theorem Talks.tends (h : j.Talks plan s g due a t u) (limit : Option Nat)
    (hk : ¬ Watch.mine j.own k) (hn : Network.step k u.network = some n)
    (htended : Tended u.network n
      { guard := g, stream := s, progress := q.progress limit } d')
    (hsound : (t.put .server q d').Sound plan
      (Talk.Speaks plan j.config.connection (j.query due) a))
    (hgoes : Talk.Goes plan .server t (t.put .server q d')) :
    j.Talks plan s g due a (t.put .server q d') (u.after j.own k n) := by
  obtain ⟨tracker, admission, _, hactive, hstands⟩ := h.stands
  obtain ⟨_, hserver⟩ := h.server
  obtain ⟨bs, hbs, hunsent⟩ := h.sent
  rw [Watch.after_of_not_mine hk]
  exact ⟨⟨tracker, admission, _, hactive, hstands.tended hn htended⟩,
    ⟨limit, htended.found hserver⟩, hsound, h.begun, h.reports, h.printed,
    ⟨bs, hbs, hgoes.kept ▸ hunsent⟩, h.taken⟩

/-- **A step of the server's connection.** -/
theorem Talks.serves (hfair : Fair plan)
    (hsuits : Talk.Suits plan j.config.connection (j.query due))
    (h : j.Talks plan s g due a t u) (hearly : ∀ due ∈ u.network.dues, u.network.now < due)
    (hspot : k.spot = .connection g) (hn : Network.step k u.network = some n) :
    j.GoesOn plan s g t (u.after j.own k n) := by
  obtain ⟨_, _, _, -, hstands⟩ := h.stands
  obtain ⟨limit, hserver⟩ := h.server
  have hsteady := hstands.steady
  have hm := Talk.manner_speaks hsuits a
  have hk : ¬ Watch.mine j.own k := not_mine_of_spot (hspot ▸ Server.Spot.noConfusion)
  cases hr : t.ends .server with
  | shaking x taken =>
    rw [hr] at hserver
    have hlate : ∀ due ∈ limit.toList, u.network.now < due := fun due hdue =>
      hearly due (mem_dues_connection hserver hdue)
    cases Network.shook_of_step hsteady hserver hstands.link hspot hn with
    | goes hp ht =>
      obtain ⟨_, -, hp'⟩ | ⟨x', d', hadv, hp'⟩ | ⟨_, -, hp'⟩ := Handshake.step_early hlate hp
      · cases hp'
      · obtain ⟨_, _, bs, hres, -, hsound, hgoes⟩ := h.sound.shakes hfair hm hr hadv
        obtain ⟨rfl, rfl⟩ := Prod.mk.inj (Except.ok.inj hres)
        obtain ⟨rfl, rfl⟩ := Handshake.Progress.going.inj hp'
        exact ⟨due, a, _, hgoes.less, h.tends limit hk hn ht hsound hgoes⟩
      · cases hp'
    | agrees hp ht =>
      obtain ⟨_, hx, hp'⟩ | ⟨_, _, -, hp'⟩ | ⟨_, -, hp'⟩ := Handshake.step_early hlate hp
      · cases hp'
        obtain rfl : x = .agreed _ := hx
        obtain ⟨rfl, -⟩ := h.sound.agreed hr
        obtain ⟨e, l, he, hsound, hgoes⟩ := Talk.Sound.server_engages (d := t.stream .server)
          hsuits h.sound hr
          { now := u.network.now, cancelled := false, attentive := true, reply := some }
        have hengage : u.network.server.engage u.network.now (key plan) = e := by
          rw [he, Server.engage, hsteady.connection]
          rfl
        rw [hengage] at ht
        exact ⟨due, a, _, hgoes.less, h.tends limit hk hn ht hsound hgoes⟩
      · cases hp'
      · cases hp'
    | fails hp =>
      obtain ⟨_, -, hp'⟩ | ⟨_, _, -, hp'⟩ | ⟨_, hadv, -⟩ := Handshake.step_early hlate hp
      · cases hp'
      · cases hp'
      · obtain ⟨_, _, _, hres, -⟩ := h.sound.shakes hfair hm hr hadv
        cases hres
  | engaged e l =>
    rw [hr] at hserver
    have hcalm : Engine.Calm some (u.network.serverEnv.engine u.network.server) e := by
      refine ⟨?_, hsteady.running, fun due hdue => hearly due (mem_dues_connection hserver hdue)⟩
      show u.network.serverApplication.reply = some
      rw [hsteady.echo]
      rfl
    obtain ⟨_, e', d', events, hp, ht⟩ :=
      Network.drove_of_step hsteady hserver hstands.link hspot hn
    obtain ⟨l', hdriven, hsound, hgoes⟩ := h.sound.answers hsuits hr hcalm hp
    exact ⟨due, a, _, hgoes.less, h.tends limit hk hn (ht hdriven) hsound hgoes⟩

/-! ### Something can always be done -/

/-- What the engines depend on, at a time. -/
def talkEnv (a : Engine.Asked) (now : Nat) (r : Role) : Engine.Env where
  now
  cancelled := r = .client ∧ a = .returned
  attentive := true
  reply := some

/-- One of the two ends has a task that is ready, and stays so. -/
theorem Talks.ready (hsuits : Talk.Suits plan j.config.connection (j.query due))
    (h : j.Talks plan s g due a t u) : ∃ k, k.Ours j.own (.connection g) ∧
      ∀ v, j.Talks plan s g due a t v → u.network.now ≤ v.network.now →
        Network.step k v.network ≠ none := by
  obtain ⟨r, hready⟩ := h.sound.ready hsuits (talkEnv a u.network.now) (fun _ => rfl)
    (fun ha => by simp [talkEnv, ha])
  unfold Talk.Ready at hready
  cases r with
  | client =>
    cases hr : t.ends .client with
    | shaking x taken =>
      rw [hr] at hready
      refine ⟨.clientHandshake (.script j.own) j.own, .inl rfl, fun v hv _ => ?_⟩
      obtain ⟨_, _, _, -, hstands⟩ := hv.stands
      rw [hr] at hstands
      exact clientHandshake_ready hstands.running hstands.link hready
    | engaged e l =>
      rw [hr] at hready
      obtain ⟨k, hk⟩ := hready
      refine ⟨.clientEngine (.script j.own) j.own k, .inl rfl, fun v hv hnow => ?_⟩
      obtain ⟨_, _, _, -, hstands⟩ := hv.stands
      rw [hr] at hstands
      refine clientEngine_ready hstands.running hstands.link
        (Engine.step_later hk hnow ?_ rfl)
      simp [talkEnv, Client.Env.engine, linked, Signal.isCancelled]
  | server =>
    cases hr : t.ends .server with
    | shaking x taken =>
      rw [hr] at hready
      refine ⟨.serverHandshake g, .inr ⟨rfl, Server.Spot.noConfusion⟩, fun v hv _ => ?_⟩
      obtain ⟨_, _, _, -, hstands⟩ := hv.stands
      obtain ⟨_, hserver⟩ := hv.server
      rw [hr] at hserver
      exact serverHandshake_ready hstands.steady hserver hstands.link hready
    | engaged e l =>
      rw [hr] at hready
      obtain ⟨k, hk⟩ := hready
      refine ⟨.serverEngine g k, .inr ⟨rfl, Server.Spot.noConfusion⟩, fun v hv hnow => ?_⟩
      obtain ⟨_, _, _, -, hstands⟩ := hv.stands
      obtain ⟨_, hserver⟩ := hv.server
      rw [hr] at hserver
      refine serverEngine_ready hserver hstands.link (Engine.step_later hk hnow ?_ ?_)
      · rw [show (talkEnv a u.network.now .server).cancelled = false by simp [talkEnv]]
        exact hstands.steady.running
      · exact hstands.steady.attentive

/-- **A call whose stream is open, and whom the server has taken in, comes to its end.** -/
theorem Talks.until (hfair : Fair plan)
    (hsuits : ∀ due, Talk.Suits plan j.config.connection (j.query due))
    (h : j.Talks plan s g due a t u) :
    Watch.Until j.own (Calm j.config.client.address) j.Pending j.Over u := by
  have hwf : WellFounded (Talk.Less plan) :=
    InvImage.wf (Talk.weight plan)
      (Prod.lex Nat.lt_wfRel (Prod.lex Nat.lt_wfRel Nat.lt_wfRel)).wf
  refine Watch.until_of_measure (r := InvImage (Talk.Less plan) fun i : Nat × Engine.Asked × Talk =>
      i.2.2) (InvImage.wf _ hwf)
    (fun i u => j.Talks plan s g i.1 i.2.1 i.2.2 u) (fun _ => (·.Ours j.own (.connection g)))
    (fun i u v h hv => h.others hv) (fun i u h => h.pending)
    (fun i u h _ => h.ready (hsuits i.1)) (fun i u v k h hcalm hk hstep => ?_)
    (a := (due, a, t)) h
  obtain ⟨due, a, t⟩ := i
  have hgoes : ∀ {v}, j.GoesOn plan s g t v → ∃ i : Nat × Engine.Asked × Talk,
      Talk.Less plan i.2.2 t ∧ j.Talks plan s g i.1 i.2.1 i.2.2 v :=
    fun ⟨due, a, t', hless, hv⟩ => ⟨(due, a, t'), hless, hv⟩
  cases hstep with | @task _ n hn => ?_
  rcases hk with hk | ⟨hk, -⟩
  · cases hr : t.ends .client with
    | shaking x taken => exact .inl (hgoes (h.shakes hfair hsuits hr hcalm.early hk hn))
    | engaged e l =>
      rcases h.drives hfair hsuits hr hcalm.early hk hn with hgo | ⟨e', hparts⟩
      · exact .inl (hgoes hgo)
      · exact .inr hparts.until
  · exact .inl (hgoes (h.serves hfair (hsuits due) hcalm.early hk hn))

end Errand
end Parley
