import Parley.Proofs.Client.Ending
import Parley.Proofs.Engine.Dealings
import Parley.Proofs.Engine.Parting
import Parley.Proofs.Engine.Running

/-! A client of which one connection is watched.

A client is told nothing of what goes over the streams of its connections, and an engine nothing
of the client that it belongs to. A `Watched` world is both: a client, and the site of one of its
connections from the handshake on, whose outgoing pipe may still hold some of the client's public
key. What happens at the client is one thing that happens at that site, or nothing, and the client
has the engine of the site and knows how its drive has ended (`Agrees`). So all that is known of
clients and of sites is known of it (`sound_of_leads`). -/
namespace Parley.Client
open Channel

variable {key : SessionKey} {c c' : Client} {id call : CallId} {k k' : Connection}
  {s : Engine.Site} {r : Except Error Unit}

/-- How a connection has ended, once its task is over. -/
def ended? (c : Client) (id : CallId) : Option (Except Error Unit) :=
  (c.connections.find? (·.id == id)).bind (·.result)

/-- A client and the site of one of its connections: it has the site's engine, and knows how its
drive has ended. -/
structure Agrees (c : Client) (id : CallId) (s : Engine.Site) : Prop where
  engine : c.engine? id = some s.engine
  ended : (c.ended? id).toList = s.log.ended

theorem agrees_iff (hk : c.connections.find? (·.id == id) = some k) :
    Agrees c id s ↔ k.engine = s.engine ∧ k.result.toList = s.log.ended := by
  constructor
  · rintro ⟨hengine, hended⟩
    rw [engine?, hk] at hengine
    rw [ended?, hk] at hended
    exact ⟨Option.some.inj hengine, hended⟩
  · rintro ⟨hengine, hended⟩
    refine ⟨?_, ?_⟩
    · rw [engine?, hk, Option.map_some, hengine]
    · rw [ended?, hk, Option.bind_some, hended]

theorem Agrees.find (h : Agrees c id s) : ∃ k, c.connections.find? (·.id == id) = some k := by
  have hengine := h.engine
  unfold engine? at hengine
  obtain ⟨k, hk, -⟩ := Option.map_eq_some_iff.mp hengine
  exact ⟨k, hk⟩

theorem find_setConnection (hk : c.connections.find? (·.id == id) = some k) (hid : k'.id = k.id) :
    (c.setConnection k').connections.find? (·.id == id) = some k' :=
  Keyed.find?_set (k := Connection.id) hk (hid.trans (Keyed.mem_of_find? hk).2)

/-- A connection that is held is closed. -/
theorem exists_close (hk : c.connections.find? (·.id == id) = some k) (hheld : k.held = true)
    (call : CallId) :
    ∃ c', c.close id call = (true, c') ∧ c'.connections.find? (·.id == id) =
      some { k with own := k.own.trigger.2, held := false, awaiting := some call } := by
  let joined : Connection := { k with held := false, awaiting := some call }
  have hjoin : c.join id call = (true, c.setConnection joined) := by
    simp only [join, hk, hheld, if_true]
    rfl
  have hfound : (c.setConnection joined).connections.find? (·.id == id) = some joined :=
    find_setConnection hk rfl
  refine ⟨(c.setConnection joined).cancel id, by rw [Client.close, hjoin], ?_⟩
  simp only [Client.cancel, hfound]
  exact find_setConnection hfound rfl

theorem find_setEngine (hk : c.connections.find? (·.id == id) = some k) (e : Engine) :
    (c.setEngine id e).connections.find? (·.id == id) = some { k with engine := e } := by
  have hid := (Keyed.mem_of_find? hk).2
  have hkeys : ((·.id == id) ∘ fun k : Connection =>
      if k.id = id then { k with engine := e } else k) = (·.id == id) := by
    funext m
    simp only [Function.comp_apply]
    split <;> rfl
  rw [setEngine, List.find?_map, hkeys, hk, Option.map_some, if_pos hid]

/-- Who holds a connection, and who waits for its end, is nothing to its engine. -/
theorem Agrees.setConnection (h : Agrees c id s) (hk : c.connections.find? (·.id == id) = some k)
    (hid : k'.id = k.id) (hengine : k'.engine = k.engine) (hresult : k'.result = k.result) :
    Agrees (c.setConnection k') id s := by
  rw [agrees_iff (find_setConnection hk hid), hengine, hresult]
  exact (agrees_iff hk).mp h

theorem Agrees.cancel (h : Agrees c id s) : Agrees (c.cancel id) id s := by
  obtain ⟨k, hk⟩ := h.find
  simp only [Client.cancel, hk]
  exact h.setConnection hk rfl rfl rfl

theorem Agrees.close (h : Agrees c id s) (hclose : c.close id call = (true, c')) :
    Agrees c' id s := by
  obtain ⟨c₁, hjoin, rfl⟩ := close_eq_true hclose
  refine Agrees.cancel ?_
  obtain ⟨k, hk⟩ := h.find
  simp only [join, hk] at hjoin
  split at hjoin
  · cases hjoin
    exact h.setConnection hk rfl rfl rfl
  · cases hjoin

/-! ### Watched worlds -/

/-- A client and the site of one of its connections. -/
structure Watched extends World where
  site : Engine.Greeted

namespace Watched
variable {x y z : Watched} {w : World}

/-- A handshake is over, and its connection is watched from now on, whatever is still in its
stream. -/
inductive Opens (key : SessionKey) (id : CallId) : Watched → Prop where
  | intro {w : World} {now : Nat} {d d' : Duplex} {c : Client} {events : List Event}
      (hw : w.Reachable) (h : w.client.stepHandshake now id d = some (c, d', events))
      (hopen : c.engine? id = some (w.client.engage now key)) :
      Opens key id
        { w.after c events with
          site := {
            engine := w.client.engage now key
            stream := d'
            greeting := d'.outgoing.held } }

/-- Something happens at the client and at the watched site, or only at the client, or the far
end of the stream does something. -/
inductive Step (key : SessionKey) (id : CallId) (x : Watched) : Watched → Prop where
  | near {w : World} {env : Engine.Env} {s : Engine.Site} (hw : x.toWorld.Move w)
      (hm : Engine.Move key .client env x.site.toSite s) (hagrees : Agrees w.client id s) :
      Step key id x { w with site := { x.site with toSite := s } }
  | beside {w : World} (hw : x.toWorld.Move w) (hagrees : Agrees w.client id x.site.toSite) :
      Step key id x { w with site := x.site }
  | far {d : Duplex} {bytes : Bytes}
      (h : bytes ++ d.outgoing.held = x.site.stream.outgoing.held) :
      Step key id x { x with site := { x.site with stream := d, heard := x.site.heard ++ bytes } }

/-- One watched world comes to be another. -/
abbrev Leads (key : SessionKey) (id : CallId) : Watched → Watched → Prop :=
  Relation.ReflTransGen (Step key id)

/-- What a watched world is: worlds that a client and a site come to be, which agree. -/
structure Sound (key : SessionKey) (id : CallId) (x : Watched) : Prop where
  client : x.toWorld.Reachable
  site : x.site.Reachable key .client
  agrees : Agrees x.client id x.site.toSite

theorem client_of_step (h : Step key id x y) : World.Leads x.toWorld y.toWorld := by
  cases h with
  | near hw => exact .single hw
  | beside hw => exact .single hw
  | far => exact .refl

theorem site_of_step (h : Step key id x y) : Engine.Greeted.Leads key .client x.site y.site := by
  cases h with
  | near _ hm => exact .single (.near hm)
  | beside => exact .refl
  | far hheld => exact .single (.far hheld)

theorem client_of_leads (h : Leads key id x y) : World.Leads x.toWorld y.toWorld := by
  induction h with
  | refl => exact .refl
  | tail _ hstep ih => exact ih.trans (client_of_step hstep)

theorem site_of_leads (h : Leads key id x y) : Engine.Greeted.Leads key .client x.site y.site := by
  induction h with
  | refl => exact .refl
  | tail _ hstep ih => exact ih.trans (site_of_step hstep)

theorem agrees_step (hagrees : Agrees x.client id x.site.toSite) (h : Step key id x y) :
    Agrees y.client id y.site.toSite := by
  cases h with
  | near _ _ h => exact h
  | beside _ h => exact h
  | far => exact ⟨hagrees.engine, hagrees.ended⟩

theorem sound_of_leads (h : Sound key id x) (hlater : Leads key id x y) : Sound key id y where
  client := h.client.leads (client_of_leads hlater)
  site := h.site.leads (site_of_leads hlater)
  agrees := by
    induction hlater with
    | refl => exact h.agrees
    | tail _ hstep ih => exact agrees_step ih hstep

/-- A connection that starts has the engine it is given, and has not ended. -/
theorem agrees_of_opens (h : Opens key id x) :
    Agrees x.client id x.site.toSite ∧ x.site.log.ended = [] := by
  obtain @⟨w, now, d, d', c, events, hw, h, hopen⟩ := h
  obtain ⟨m, hm, rfl, hstep⟩ := dialStepped_of_stepHandshake h
  have hkept := kept_of_reachable hw
  -- No connection has the name of a call that is still under way.
  have hnew : w.client.connections.find? (·.id == m.id) = none := by
    refine List.find?_eq_none.mpr fun k hk hid => ?_
    exact hkept.not_finished hm (eq_of_beq hid ▸ hkept.known k hk)
  have hnone : w.client.engine? m.id = none := by rw [engine?, hnew]; rfl
  cases hstep with
  | @opens stream key' =>
    let made : Connection := { id := m.id, stream, engine := w.client.engage now key' }
    have hmade : (w.client.connections ++ [made]).find? (·.id == m.id) = some made := by
      rw [List.find?_append, hnew, Option.none_or]
      exact List.find?_cons_of_pos (beq_self_eq_true m.id)
    refine ⟨⟨hopen, ?_⟩, rfl⟩
    show ((List.find? (·.id == m.id) (w.client.connections ++ [made])).bind (·.result)).toList = []
    rw [hmade]
    rfl
  | _ => exact absurd (hopen.symm.trans hnone) (Option.some_ne_none _)

theorem sound_of_opens (h : Opens key id x) : Sound key id x where
  client := by
    obtain @⟨w, now, d, d', c, events, hw, h, hopen⟩ := h
    exact hw.leads (.single (.handshake h))
  site := by
    obtain @⟨w, now, d, d', c, events, hw, h, hopen⟩ := h
    let x₀ : Engine.Greeted := .fresh w.client.connection.settings d'
    let env : Engine.Env := ⟨now, false, false, fun _ => none⟩
    have hstart : Engine.Move key .client env x₀.toSite
        (x₀.toSite.after (w.client.engage now key) d' []) := .start rfl
    have hsite : x₀.toSite.after (w.client.engage now key) d' [] =
        { engine := w.client.engage now key, stream := d' } := by
      have hgone : x₀.toSite.gone d' = [] := Engine.Site.gone_self x₀.toSite
      simp only [Engine.Site.after, Engine.Site.logged, hgone]
      rfl
    exact ⟨w.client.connection, d', .single (.near (hsite ▸ hstart))⟩
  agrees := (agrees_of_opens h).1

/-- A call into the engine is taken. -/
theorem step_of_taken {env : Engine.Env} {s : Engine.Site} (hx : Sound key id x)
    (htaken : Taken x.site.engine s.engine)
    (hm : Engine.Move key .client env x.site.toSite s) (hended : s.log.ended = x.site.log.ended) :
    Step key id x { x.toWorld.become (x.client.setEngine id s.engine) with
      site := { x.site with toSite := s } } := by
  obtain ⟨k, hk⟩ := hx.agrees.find
  refine .near (.call hx.agrees.engine htaken) hm ?_
  refine (agrees_iff (find_setEngine hk _)).mpr ⟨rfl, ?_⟩
  exact ((agrees_iff hk).mp hx.agrees).2.trans hended.symm

/-- The call that waits for the end of the connection returns. -/
theorem exists_returned {r : Except Error Unit} (hx : Sound key id x)
    (hk : x.client.connections.find? (·.id == id) = some k) (hcall : k.awaiting = some call)
    (hresult : k.result = some r) :
    ∃ y, Step key id x y ∧ y.site = x.site ∧ (call, .ofResult r) ∈ y.log.returned := by
  have hstep : x.client.stepEnd id = some
      (x.client.setConnection { k with awaiting := none }, [.returned call (.ofResult r)]) := by
    simp only [stepEnd, hk, hcall, hresult]
  refine ⟨_, .beside (.ending hstep) (hx.agrees.setConnection hk rfl rfl rfl), rfl, ?_⟩
  exact List.mem_append_right _ (List.mem_singleton_self _)

/-! ### The task of the watched connection -/

/-- What a step says of the end of the drive. -/
theorem ended_ending {env : Engine.Env} {s : Engine.Site} {e : Engine} {d : Duplex}
    {events : List Engine.Event} (h : Engine.Stepped env s.engine s.stream e d events) :
    (s.logged e d events).ended = s.log.ended ++ (ending events).toList := by
  cases h with
  | closed
  | closeFailed
  | writeFailed => rfl
  | _ => exact (List.append_nil _).symm

/-- A step of the engine is one of the connection's task, of which the client records nothing. -/
theorem exists_step {env : Env} {t : Engine.Task} {e : Engine} {d : Duplex}
    {events : List Engine.Event} (hx : Sound key id x)
    (hk : x.client.connections.find? (·.id == id) = some k)
    (h : x.site.engine.step (env.engine k) t x.site.stream = some (e, d, events)) :
    ∃ y, Step key id x y ∧ y.site = { x.site with toSite := x.site.after e d events } ∧
      y.log = x.log ∧
      ∃ r, y.client.connections.find? (·.id == id) = some { k with engine := e, result := r } := by
  obtain ⟨hmem, -⟩ := Keyed.mem_of_find? hk
  obtain ⟨hengine, hresult⟩ := (agrees_iff hk).mp hx.agrees
  have hstep : k.engine.step (env.engine k) t x.site.stream = some (e, d, events) := by
    rw [hengine]
    exact h
  have hmove : Engine.Move key .client (env.engine k) x.site.toSite (x.site.after e d events) :=
    .step h
  have hended := ended_ending (Engine.stepped_of_step h)
  rcases ending_eq (Engine.stepped_of_step hstep) with
    ⟨hnone, -⟩ | ⟨⟨r, hsome⟩, hdriven, -⟩
  · have hclient : x.client.stepEngine env id t x.site.stream = some
        (x.client.setConnection { k with engine := e }, d, events.map .engine) := by
      simp only [stepEngine, hk, hstep, hnone]
    have hfound : (x.client.setConnection { k with engine := e }).connections.find? (·.id == id) =
        some { k with engine := e } := find_setConnection hk rfl
    rw [hnone, Option.toList_none, List.append_nil] at hended
    refine ⟨_, .near (.engine hclient) hmove ?_, rfl, x.log.notes_engine events, k.result, hfound⟩
    exact (agrees_iff hfound).mpr ⟨rfl, hresult.trans hended.symm⟩
  · have hclient : x.client.stepEngine env id t x.site.stream = some
        ({ x.client.setConnection { k with engine := e, result := some r } with
          tracker := x.client.tracker.release
          admission := x.client.admission.release }, d, events.map .engine ++ [.closed]) := by
      simp only [stepEngine, hk, hstep, hsome]
      rfl
    have hfound :
        (x.client.setConnection { k with engine := e, result := some r }).connections.find?
          (·.id == id) = some { k with engine := e, result := some r } := find_setConnection hk rfl
    have hlive : k.result = none := Option.isNone_iff_eq_none.mp
      (((kept_of_reachable hx.client).sound k hmem).driven.mpr hdriven)
    have hlog : (events.map Event.engine ++ [Event.closed]).foldl Record.note x.log = x.log := by
      rw [List.foldl_append, x.log.notes_engine events]
      rfl
    rw [hsome, ← hresult, hlive] at hended
    have hagrees := (agrees_iff (s := x.site.after e d events) hfound).mpr ⟨rfl, hended.symm⟩
    exact ⟨_, .near (.engine hclient) hmove ⟨hagrees.engine, hagrees.ended⟩, rfl, hlog, some r,
      hfound⟩

/-- Nothing was asked of an engine. -/
structure Unasked (l l' : Engine.Log) : Prop where
  calls : l'.calls = l.calls
  dropped : l'.dropped = l.dropped
  accepted : l'.accepted = l.accepted

theorem Unasked.squeeze {l l₁ l₂ : Engine.Log} (h : Unasked l l₂) (hgrows : l.Grows l₁)
    (hgrows' : l₁.Grows l₂) : Unasked l l₁ ∧ Unasked l₁ l₂ := by
  have heq : ∀ {α : Type} {xs ys zs : List α}, zs = xs → xs <+: ys → ys <+: zs → ys = xs :=
    fun hsame hle hle' => (hle.eq_of_length_le (hsame ▸ hle'.length_le)).symm
  have hcalls := heq h.calls hgrows.calls hgrows'.calls
  have hdropped := heq h.dropped hgrows.dropped hgrows'.dropped
  have haccepted := heq h.accepted hgrows.accepted hgrows'.accepted
  exact ⟨⟨hcalls, hdropped, haccepted⟩, ⟨h.calls.trans hcalls.symm, h.dropped.trans hdropped.symm,
    h.accepted.trans haccepted.symm⟩⟩

/-- What happens at a site of which nothing is asked, and whose drive is not given up, is a step of
its engine if it is anything. -/
theorem step_of_move {env : Engine.Env} {s s' : Engine.Site}
    (hm : Engine.Move key .client env s s') (hbusy : s.engine.phase ≠ .idle)
    (hunasked : Unasked s.log s'.log)
    (hkept : s'.engine.drive = none → s'.log.ended = s.log.ended → s.engine.drive = none) :
    s' = s ∨
      ∃ t e d events, s.engine.step env t s.stream = some (e, d, events) ∧
        s' = s.after e d events := by
  have hnew : ∀ {α : Type} (xs : List α) (y : α), xs ++ [y] ≠ xs := fun xs y h =>
    absurd (List.append_cancel_left (h.trans (List.append_nil xs).symm)) (List.cons_ne_nil y [])
  cases hm with
  | @post payload e h =>
    obtain ⟨-, rfl⟩ := Engine.post_eq_ok h
    let o : Engine.Outgoing := { frame := ⟨Frame.noResponse, payload⟩ }
    have haccepted : (s.logged (s.engine.enqueue o) s.stream []).accepted =
        s.log.accepted ++ [o] := Engine.accepted_enqueue [] rfl
    exact absurd (haccepted.symm.trans hunasked.accepted) (hnew _ _)
  | write
  | request
  | refuse => exact absurd hunasked.calls (hnew _ _)
  | giveUp => exact absurd hunasked.dropped (hnew _ _)
  | start h => exact absurd (Engine.start_eq_ok h).1 hbusy
  | abandon =>
    have hnone : (s.engine.abandon s.stream).1.drive = none := by
      unfold Engine.abandon
      split
      · assumption
      · rfl
    have hover := hkept hnone rfl
    refine .inl ?_
    have hsame : s.engine.abandon s.stream = (s.engine, s.stream) := by
      rw [Engine.abandon, hover]
    rw [hsame]
    simp only [Engine.Site.after, Engine.Site.logged, Engine.Site.gone_self, List.drop_length,
      List.append_nil, List.foldl_nil]
  | step h => exact .inr ⟨_, _, _, _, h, rfl⟩

/-- An engine that has had its drive gets no other. -/
theorem undriven_move {env : Engine.Env} {s s' : Engine.Site}
    (hm : Engine.Move key .client env s s') (hbusy : s.engine.phase ≠ .idle)
    (hnone : s.engine.drive = none) : s'.engine.drive = none ∧ s'.log.ended = s.log.ended := by
  have hnever : ∀ {r}, s.engine.drive ≠ some r := fun hr => by
    rw [hnone] at hr
    cases hr
  cases hm with
  | post h => rw [(Engine.post_eq_ok h).2]; exact ⟨hnone, rfl⟩
  | write _ h => rw [(Engine.write_eq_ok h).2]; exact ⟨hnone, rfl⟩
  | request _ _ h => rw [(Engine.request_eq_ok h).2]; exact ⟨hnone, rfl⟩
  | refuse => exact ⟨hnone, rfl⟩
  | giveUp => exact ⟨(drive_giveUp _ _).trans hnone, rfl⟩
  | start h => exact absurd (Engine.start_eq_ok h).1 hbusy
  | abandon =>
    show (s.engine.abandon s.stream).1.drive = none ∧ _
    rw [Engine.abandon, hnone]
    exact ⟨hnone, rfl⟩
  | step h =>
    cases Engine.stepped_of_step h with
    | notified => exact ⟨hnone, rfl⟩
    | answered
    | expired => rw [Engine.leave_eq]; exact ⟨hnone, rfl⟩
    | _ => exact absurd ‹s.engine.drive = some _› hnever

/-- **What happens at a site of which nothing is asked is done by the connection's task.** -/
theorem leads_of_moves {env : Env} {s : Engine.Site} (hx : Sound key id x)
    (hk : x.client.connections.find? (·.id == id) = some k)
    (hmoves : Engine.Moves key .client (env.engine k) x.site.toSite s)
    (hbusy : x.site.engine.phase ≠ .idle) (hunasked : Unasked x.site.log s.log)
    (hdriven : s.engine.drive ≠ none ∨ s.log.ended ≠ x.site.log.ended) :
    ∃ y, Leads key id x y ∧ y.site = { x.site with toSite := s } ∧ y.log = x.log ∧
      ∃ r, y.client.connections.find? (·.id == id) =
        some { k with engine := s.engine, result := r } := by
  induction hmoves with
  | refl =>
    obtain ⟨hengine, -⟩ := (agrees_iff hk).mp hx.agrees
    exact ⟨x, .refl, rfl, rfl, k.result, by rw [hk, ← hengine]⟩
  | @tail s₁ s₂ hmoves hm ih =>
    have hleads : Engine.Greeted.Leads key .client x.site { x.site with toSite := s₁ } :=
      x.site.leads hmoves
    have hgrows : x.site.log.Grows s₁.log := Engine.Greeted.grows_leads hleads
    obtain ⟨hunasked₁, hunasked₂⟩ := hunasked.squeeze hgrows hm.grows
    have hbusy₁ : s₁.engine.phase ≠ .idle :=
      (Engine.onward_leads (Engine.World.leads ⟨x.site.toSite, []⟩ hmoves)).busy hbusy
    have hover (hne : s₁.log.ended ≠ x.site.log.ended) : Engine.Over s₁.engine := by
      refine Engine.Greeted.over_of_ended (hx.site.leads hleads) fun hnil => hne ?_
      have hnil' : s₁.log.ended = [] := hnil
      exact hnil'.trans (List.prefix_nil.mp (hnil' ▸ hgrows.ended)).symm
    have hdriven₁ : s₁.engine.drive ≠ none ∨ s₁.log.ended ≠ x.site.log.ended := by
      by_contra! hnone
      obtain ⟨hnone', hsame⟩ := undriven_move hm hbusy₁ hnone.1
      exact hdriven.elim (absurd hnone') (absurd (hsame.trans hnone.2))
    obtain ⟨y, hlead, hsite, hlog, r, hfound⟩ := ih hunasked₁ hdriven₁
    have hstep := step_of_move hm hbusy₁ hunasked₂ fun hnone hsame => by
      refine (hover ?_).drive
      rw [← hsame]
      exact hdriven.resolve_left (not_not_intro hnone)
    rcases hstep with rfl | ⟨t, e, d, events, hstep, rfl⟩
    · exact ⟨y, hlead, hsite, hlog, r, hfound⟩
    · have hnext : y.site.engine.step (env.engine { k with engine := s₁.engine, result := r }) t
          y.site.stream = some (e, d, events) := by
        rw [hsite]
        exact hstep
      obtain ⟨z, hz, hsite', hlog', r', hfound'⟩ :=
        exists_step (sound_of_leads hx hlead) hfound hnext
      rw [hsite] at hsite'
      exact ⟨z, hlead.tail hz, hsite', hlog'.trans hlog, r', hfound'⟩

end Watched
end Parley.Client
