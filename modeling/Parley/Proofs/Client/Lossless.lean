import Parley.Client.Script
import Parley.Proofs.Channel.Handshaking
import Parley.Proofs.Client.Watching

/-! What a call to close a connection tells.

Such a call returns how the drive of the connection's engine has ended, and a drive ends in one of
three ways (`Engine.Greeted.Parts`). Two of them are told apart by what the call returns: if the
write loop fails while the connection is being served, then its error is returned. But once the
connection drains its queue, be it that it was cancelled or that the far end has finished, a failure
of the write loop is nothing to the result. So a call that succeeds says that every frame was handed
over in full before the stream was shut down, or that draining has failed
(`close_tells_how_it_parted`), and it may be the latter (`loss_while_draining`). -/
namespace Parley.Client
open Channel Engine.Greeted

variable {key : SessionKey} {id call : CallId} {c : Client} {k : Connection} {o : Engine.Outcome}

namespace Watched
variable {x₀ x z : Watched}

/-- A call to close the connection is made. -/
def closing (x : Watched) (c : Client) (call : CallId) : Watched :=
  { (x.toWorld.become c).making call with site := x.site }

theorem step_closing (hx : Sound key id x) (hnew : call ∉ x.log.calls)
    (hclose : x.client.close id call = (true, c)) : Step key id x (x.closing c call) :=
  .beside (.close hnew hclose) (hx.agrees.close hclose)

/-- A call that waits for the end of the connection returns what the drive has come to. -/
theorem ended_of_returned (hz : Sound key id z) (h : Tracks id call z.toWorld)
    (hret : (call, o) ∈ z.log.returned) : ∃ r, o = .ofResult r ∧ z.site.log.ended = [r] := by
  obtain ⟨k, hk, rfl, r, hr, ho⟩ := returns_end hz.client h hret
  have hfound : z.client.connections.find? (·.id == k.id) = some k :=
    Keyed.find?_of_mem (k := Connection.id) (kept_of_reachable hz.client).named hk
  refine ⟨r, ho, ?_⟩
  rw [← ((agrees_iff hfound).mp hz.agrees).2, hr]
  rfl

/-- **A call that closes a connection returns what its drive came to when it parted with the
stream**, and every frame ever accepted was accepted before that. -/
theorem parts_of_close (hopen : Opens key id x₀) (hx : Leads key id x₀ x)
    (hnew : call ∉ x.log.calls) (hclose : x.client.close id call = (true, c))
    (hz : Leads key id (x.closing c call) z) (hret : (call, o) ∈ z.log.returned) :
    ∃ r u v, o = .ofResult r ∧ Engine.Greeted.Leads key .client x₀.site u ∧
      Engine.Greeted.Step key .client u v ∧ Engine.Greeted.Leads key .client v z.site ∧
      z.site.log.accepted = u.log.accepted ∧ Parts key .client u v r := by
  have hsound₀ := sound_of_opens hopen
  have hsound := sound_of_leads hsound₀ hx
  have hstep := step_closing hsound hnew hclose
  have hsound' := sound_of_leads hsound (.single hstep)
  have htracks : Tracks id call z.toWorld :=
    tracks_leads hsound'.client (tracks_close hclose _) (client_of_leads hz)
  obtain ⟨r, ho, hended⟩ := ended_of_returned (sound_of_leads hsound' hz) htracks hret
  obtain ⟨u, v, hparts⟩ := exists_parts hsound₀.site (agrees_of_opens hopen).2
    (site_of_leads ((hx.tail hstep).trans hz)) hended
  exact ⟨r, u, v, ho, hparts⟩

end Watched

/-! ### The command line's call -/

namespace Script

/-- What the calls of a script have come to, one after another, and at which stage each of them was.
In between anything may happen at its client. -/
inductive Told (s : Script) : List (Script.Stage × Engine.Outcome) → Script → Prop where
  | start : Told s [] s
  | next {told : List (Script.Stage × Engine.Outcome)} {s' : Script} {c : Client} {now : Nat}
      {o : Engine.Outcome} (h : Told s told s') :
      Told s (told ++ [(s'.stage, o)]) (Script.next { s' with client := c } now o).1

theorem stage_of_send {s s' : Script} {now : Nat} (h : s.send now = .ok s') :
    s'.stage = .sending := by
  unfold send at h
  split at h
  · cases h
  · dsimp only at h
    generalize (if s.notify = true then _ else _) = sent at h
    cases sent with
    | error => cases h
    | ok e =>
      cases h
      rfl

theorem next_leaving {s : Script} {now : Nat} {o : Engine.Outcome}
    (h : (s.next now o).1.stage = .leaving) :
    s.stage = .leaving ∨ s.stage = .closing ∧ o = .done := by
  cases o with
  | failed e => exact .inl h
  | response payload => cases h
  | done =>
    cases hstage : s.stage with
    | leaving => exact .inl rfl
    | closing => exact .inr ⟨rfl, rfl⟩
    | sending =>
      simp only [Script.next, hstage] at h
      cases h
    | connecting =>
      simp only [Script.next, hstage] at h
      split at h
      · exact .inl (hstage.symm.trans h)
      · rename_i s' hsend
        cases (stage_of_send hsend).symm.trans h

/-- A script comes to shut its client down only when it has closed its connection. -/
theorem closed_of_leaving {id : CallId} {config : Config} {notify : Bool} {message : String}
    {told : List (Script.Stage × Engine.Outcome)} {s : Script}
    (h : Told (Script.start id config notify message) told s) (hleaving : s.stage = .leaving) :
    (.closing, .done) ∈ told := by
  induction h with
  | start => cases hleaving
  | next h ih =>
    rcases next_leaving hleaving with hbefore | ⟨hstage, rfl⟩
    · exact List.mem_append_left _ (ih hbefore)
    · exact List.mem_append_right _ (by rw [List.mem_singleton, ← hstage])

theorem leaving_of_ok {s : Script} {now : Nat} {o : Engine.Outcome}
    (h : (s.next now o).2.2.result = some (.ok ())) : s.stage = .leaving := by
  cases o with
  | failed e => cases h
  | response payload => cases h
  | done =>
    cases hstage : s.stage with
    | leaving => rfl
    | closing
    | sending =>
      simp only [Script.next, hstage] at h
      cases h
    | connecting =>
      simp only [Script.next, hstage] at h
      split at h <;> cases h

end Script

/-! ### What closing tells -/

/-- **A call to close a connection tells how it parted with its stream.** What the call returns is
what the drive has come to at the step at which it ended, when everything that was ever accepted had
been accepted; and that step is by `Parts`. So if the write loop has failed while the connection was
being served, the call returns its error; and if the call succeeds then every frame that was
accepted had been sealed and handed over in full when the stream was shut down, or the write loop
has failed while draining. The call of the command line succeeds only if closing does. -/
theorem close_tells_how_it_parted :
    (∀ (key : SessionKey) (id call : CallId) (x₀ x z : Watched) (c : Client) (o : Engine.Outcome),
      Watched.Opens key id x₀ → Watched.Leads key id x₀ x → call ∉ x.log.calls →
      x.client.close id call = (true, c) → Watched.Leads key id (x.closing c call) z →
      (call, o) ∈ z.log.returned →
      ∃ r u v, o = .ofResult r ∧ Engine.Greeted.Leads key .client x₀.site u ∧
        Engine.Greeted.Step key .client u v ∧ Engine.Greeted.Leads key .client v z.site ∧
        z.site.log.accepted = u.log.accepted ∧ Parts key .client u v r) ∧
    (∀ (id : CallId) (config : Config) (notify : Bool) (message : String)
      (told : List (Script.Stage × Engine.Outcome)) (s : Script) (c : Client) (now : Nat)
      (o : Engine.Outcome),
      Script.Told (Script.start id config notify message) told s →
      (Script.next { s with client := c } now o).2.2.result = some (.ok ()) →
      (.closing, .done) ∈ told) := by
  refine ⟨?_, ?_⟩
  · intro key id call x₀ x z c o hopen hx hnew hclose hz hret
    exact Watched.parts_of_close hopen hx hnew hclose hz hret
  · intro id config notify message told s c now o htold hok
    have hleaving : s.stage = .leaving :=
      Script.leaving_of_ok (s := { s with client := c }) hok
    exact Script.closed_of_leaving htold hleaving

/-! ### A connection that is opened and closed -/

section
variable {config : Config.Connection} {exchange exchange' : Exchange} {d d' : Duplex}

/-- A client whose only call makes its handshake. -/
def shakingOne (config : Config.Connection) (exchange : Exchange) : Client :=
  { create { handshakeTimeoutMs := some 0 } config with
    admission := { max := 16, wait := 3000, free := 15 }
    tracker := ⟨1, 1⟩
    dials := [{ id := 0, address := "a", stage := .shaking 0 ⟨exchange, none⟩ }] }

/-- The one connection of a client, with what has become of it. -/
def Connection.alone (k : Connection) (config : Config.Connection) : Client :=
  { create { handshakeTimeoutMs := some 0 } config with
    admission := { max := 16, wait := 3000, free := 15 }
    tracker := ⟨1, 1⟩
    connections := [k] }

theorem exists_shaking (config : Config.Connection) (secret : Bytes) :
    ∃ w : World, w.Reachable ∧ w.client = shakingOne config (.start secret) ∧
      w.log = { calls := [0] } := by
  have hconnect : World.Leads { client := create { handshakeTimeoutMs := some 0 } config } _ :=
    .single (@World.Move.connect _ 0 "a" List.not_mem_nil)
  have htracked := hconnect.tail (@World.Move.dial _ 0 0 _ _ rfl)
  have hcleared := htracked.tail (@World.Move.dial _ 0 0 _ _ rfl)
  have hdialing := hcleared.tail (@World.Move.dial _ 0 0 _ _ rfl)
  have hshaking := hdialing.tail (@World.Move.dialed _ 0 0 secret rfl)
  exact ⟨_, ⟨{ handshakeTimeoutMs := some 0 }, config, hshaking⟩, rfl, rfl⟩

theorem shakes (h : exchange.advance .client d = some (.ok (exchange', d'))) {log : Record} :
    World.Move { client := shakingOne config exchange, log }
      { client := shakingOne config exchange', log } := by
  have hstep : (shakingOne config exchange).stepHandshake 0 0 d =
      some (shakingOne config exchange', d', []) := by
    simp only [stepHandshake, shakingOne, List.find?_cons_of_pos, beq_self_eq_true,
      Handshake.step_of_going (x := ⟨exchange, none⟩) h]
    rfl
  have hmove : World.Move { client := shakingOne config exchange, log } _ := .handshake hstep
  exact hmove

/-- A handshake comes to its key. -/
theorem leads_agreed {secret peer : Bytes} (hpeer : peer.length = Exchange.keyLength)
    (hagree : Exchange.agree .client secret peer = .ok key) (log : Record) :
    World.Leads { client := shakingOne config (.start secret), log }
      { client := shakingOne config (.agreed key), log } := by
  obtain ⟨hsends, htakes, hagrees⟩ :=
    Shaking.advances_to_key [] hpeer hagree 0 (Nat.le_refl Exchange.keyLength)
  have hsent : Exchange.advance .client (.sending secret []) (.ofCapacity 0) =
      some (.ok (.receiving secret [], .ofCapacity 0)) := rfl
  exact .head (shakes hsends) (.head (shakes hsent) (.head (shakes htakes)
    (.single (shakes (hagrees (.ofCapacity 0))))))

/-- A connection with the settings `config` is opened on the stream `d`. -/
theorem exists_opened (config : Config.Connection) {secret peer : Bytes} {key : SessionKey}
    (hpeer : peer.length = Exchange.keyLength)
    (hagree : Exchange.agree .client secret peer = .ok key) (d : Duplex) :
    ∃ x : Watched, Watched.Opens key 0 x ∧ x.log.calls = [0] ∧ x.log.returned = [(0, .done)] ∧
      x.client = Connection.alone ⟨0, 0, x.site.engine, {}, true, none, none⟩ config ∧
      x.site = ⟨.started key .client (Engine.prompt true fun _ => none) config.settings d,
        d.outgoing.held, []⟩ := by
  obtain ⟨w, hw, hclient, hlog⟩ := exists_shaking config secret
  have hleads : World.Leads w { client := shakingOne config (.agreed key), log := w.log } := by
    have h : World.Leads { client := shakingOne config (.start secret), log := w.log }
        { client := shakingOne config (.agreed key), log := w.log } :=
      leads_agreed hpeer hagree w.log
    rwa [← hclient] at h
  refine ⟨_, .intro (d := d) (hw.leads hleads) (show Client.stepHandshake _ 0 0 d = _ from rfl) rfl,
    ?_, ?_, rfl, rfl⟩
  · show w.log.calls = [0]
    rw [hlog]
  · show w.log.returned ++ [(0, .done)] = _
    rw [hlog]
    rfl

end

/-- The site of a connection on which one byte was posted. -/
def postedByte (key : SessionKey) (config : Config.Connection) (d : Duplex) : Engine.Site :=
  (Engine.Site.started key .client (Engine.prompt true fun _ => none) config.settings d).posted [1]

/-- A byte is posted on the connection that was opened on the stream `d`, and then a call closes
it, on which the connection is told to end. -/
theorem exists_closing (config : Config.Connection) (d : Duplex)
    (hlimit : Frame.checkPayload 1 config.settings.maxWrite = .ok ()) :
    ∃ (key : SessionKey) (x₀ x : Watched) (c : Client) (k : Connection),
      Watched.Opens key 0 x₀ ∧ Watched.Leads key 0 x₀ x ∧ 1 ∉ x.log.calls ∧
      x.client.close 0 1 = (true, c) ∧ c.connections.find? (·.id == 0) = some k ∧
      (∀ env : Env, (env.engine k).cancelled = true) ∧ k.awaiting = some 1 ∧
      x.site.greeting = d.outgoing.held ∧
      x.site.heard = [] ∧
      x.site.toSite = postedByte key config d := by
  obtain ⟨key, hagree⟩ := Shaking.exists_agreed .client
  obtain ⟨x₀, hopen, hcalls, hreturned, hclient, hsite⟩ :=
    exists_opened config (Bytes.length_ofNatLE ..) hagree d
  have hfound : x₀.client.connections.find? (·.id == 0) =
      some ⟨0, 0, x₀.site.engine, {}, true, none, none⟩ := by
    rw [hclient]
    rfl
  have htaken : x₀.site.engine.refusal 1 = none := by
    rw [hsite]
    simp only [Engine.refusal, Engine.Site.started, hlimit]
    rfl
  obtain ⟨hpost, hmove⟩ : x₀.site.toSite.engine.post [1] =
        .ok (x₀.site.toSite.posted [1]).engine ∧
      Engine.Move key .client (Engine.prompt true fun _ => none) x₀.site.toSite
        (x₀.site.toSite.posted [1]) :=
    Engine.posts htaken
  have hposted := Watched.step_of_taken (Watched.sound_of_opens hopen) (.post hpost) hmove rfl
  obtain ⟨c, hclose, hclosed⟩ := exists_close (find_setEngine hfound _) rfl 1
  refine ⟨key, x₀, _, c, _, hopen, .single hposted, ?_, hclose, hclosed, fun _ => rfl, rfl, ?_,
    ?_, ?_⟩
  · show 1 ∉ x₀.log.calls
    rw [hcalls]
    decide
  · show x₀.site.greeting = _
    rw [hsite]
  · show x₀.site.heard = []
    rw [hsite]
  · show x₀.site.toSite.posted [1] = _
    rw [hsite]
    rfl

/-- The task of a connection that was told to end, and what is left of it once it has ended: the
call that closes it returns. -/
theorem exists_done {key : SessionKey} {y : Watched} {k : Connection} {s : Engine.Site}
    (hy : Watched.Sound key 0 y) (hk : y.client.connections.find? (·.id == 0) = some k)
    (hcall : k.awaiting = some 1) (hsite : y.site.toSite = s) (hended : s.log.ended = [.ok ()]) :
    ∃ z, Watched.Step key 0 y z ∧ z.site = y.site ∧ (1, .done) ∈ z.log.returned := by
  have hresult : k.result.toList = [.ok ()] := by
    rw [((agrees_iff hk).mp hy.agrees).2, hsite, hended]
  exact Watched.exists_returned hy hk hcall (Option.toList_eq_singleton_iff.mp hresult)

/-- A byte that was posted is sent when there is room for it, and the stream is closed. -/
theorem exists_sent (key : SessionKey) {env : Engine.Env} (hcancelled : env.cancelled = true) :
    ∃ s, Engine.Moves key .client env (postedByte key {} Engine.roomy) s ∧
      Watched.Unasked (postedByte key {} Engine.roomy).log s.log ∧ s.log.ended = [.ok ()] := by
  let first : Engine.Drive := Engine.firstDrive key .client (Engine.prompt true fun _ => none)
    ({} : Config.Connection).settings
  let told := (postedByte key {} Engine.roomy).cancelled first
  have htold : Engine.Move key .client env (postedByte key {} Engine.roomy) told :=
    Engine.cancels rfl rfl hcancelled
  let last : Engine.Drive := { first with control := .draining (.ok ()) }
  let sent := told.sent last (wire key .clientToServer 0 [⟨0, [1]⟩])
  have hsent : Engine.Moves key .client env told sent :=
    Engine.sends_byte (r := last) rfl rfl rfl rfl rfl rfl rfl rfl rfl (by decide : 25 ≤ 100)
  obtain ⟨e, hends⟩ : ∃ e, Engine.Moves key .client env sent { sent with engine := e }.hungUp :=
    Engine.closes rfl rfl rfl rfl rfl rfl
  exact ⟨_, (Relation.ReflTransGen.single htold).trans (hsent.trans hends), ⟨rfl, rfl, rfl⟩, rfl⟩

/-- A connection that has room for its frame is closed without loss. -/
theorem closes_in_full : ∃ (key : SessionKey) (x₀ z : Watched) (u v : Engine.Greeted),
    Watched.Opens key 0 x₀ ∧ Watched.Leads key 0 x₀ z ∧ (1, .done) ∈ z.log.returned ∧
      z.site.log.accepted = [{ frame := ⟨0, [1]⟩ }] ∧ z.site.log.accepted = u.log.accepted ∧
      Parts key .client u v (.ok ()) := by
  obtain ⟨key, x₀, x, c, k, hopen, hx, hnew, hclose, hk, hcancelled, hcall, -, -, hsite⟩ :=
    exists_closing {} Engine.roomy rfl
  have hsound := Watched.sound_of_leads (Watched.sound_of_opens hopen) hx
  have hstep := Watched.step_closing hsound hnew hclose
  have hsound' := Watched.sound_of_leads hsound (.single hstep)
  obtain ⟨s, hmoves, hunasked, hended⟩ := exists_sent key (hcancelled ⟨0, true, fun _ => none⟩)
  rw [← hsite] at hmoves hunasked
  obtain ⟨y, hy, hysite, -, r, hk'⟩ := Watched.leads_of_moves hsound' hk hmoves
    (by rw [Watched.closing, hsite]; exact (by decide : Engine.Phase.running ≠ .idle)) hunasked
    (.inr (by rw [hended, Watched.closing, hsite]; exact List.cons_ne_nil _ _))
  obtain ⟨z, hz, hzsite, hret⟩ := exists_done (Watched.sound_of_leads hsound' hy) hk' hcall
    (by rw [hysite]) hended
  obtain ⟨r, u, v, hr, hu, huv, hv, hsame, hparts⟩ :=
    close_tells_how_it_parted.1 key 0 1 x₀ x z c .done hopen hx hnew hclose (hy.tail hz) hret
  obtain rfl : r = .ok () := by
    cases r with
    | ok => rfl
    | error => cases hr
  refine ⟨key, x₀, z, u, v, hopen, ((hx.tail hstep).trans hy).tail hz, hret, ?_, hsame, hparts⟩
  rw [hzsite, hysite]
  exact hunasked.accepted.trans (by rw [hsite]; rfl)

/-- Settings by which the deadline of a write is soon. -/
def hasty : Config.Connection := { writeBufferSize := 64, writeTimeoutMs := 10 }

/-- A byte that was posted is not sent when there is no room for it, and is given up at the
deadline. -/
theorem exists_given_up (key : SessionKey) {env env' : Engine.Env}
    (hcancelled : env.cancelled = true)
    (hnow : env.now = 0) (hlate : env'.now = 10) :
    ∃ s s', Engine.Moves key .client env (postedByte key hasty (.ofCapacity 5)) s ∧
      Watched.Unasked (postedByte key hasty (.ofCapacity 5)).log s.log ∧
      s.engine.phase ≠ .idle ∧ s.engine.drive ≠ none ∧ s.log.ended = [] ∧
      Engine.Move key .client env' s s' ∧
      Watched.Unasked s.log s'.log ∧ s'.log.ended = [.ok ()] ∧
      s'.log.troubles = [.timeout .write] ∧ s'.stream.outgoing.closed = true ∧
      s'.stream.outgoing.held.length = 5 := by
  let o : Engine.Outgoing := { frame := ⟨0, [1]⟩ }
  let first : Engine.Drive := Engine.firstDrive key .client (Engine.prompt true fun _ => none)
    hasty.settings
  let told := (postedByte key hasty (.ofCapacity 5)).cancelled first
  have htold : Engine.Move key .client env (postedByte key hasty (.ofCapacity 5)) told :=
    Engine.cancels rfl rfl hcancelled
  let last : Engine.Drive := { first with control := .draining (.ok ()) }
  let bytes : Bytes := sealed key .clientToServer 0 o.frame
  have hlength : bytes.length = 25 := by
    rw [length_sealed, Frame.length_encode]
    rfl
  let stalled := told.stalled last bytes 10
  have hstalled : Engine.Moves key .client env told stalled := by
    have hdue : (told.wrote told.engine.queue).engine.writeDue env.now = 10 := by
      rw [Engine.writeDue, hnow]
      rfl
    have h : Engine.Moves key .client env told (told.stalled last bytes
        ((told.wrote told.engine.queue).engine.writeDue env.now)) :=
      Engine.stalls (o := o) (r := last) rfl rfl rfl ⟨rfl, spellable_byte 1⟩
        (by decide : 0 < Nonce.last) rfl rfl (by rw [hlength]; exact (by decide : 25 < 84)) rfl
        (by decide : 5 ≠ 0)
    rwa [hdue] at h
  have hheld : bytes.drop 5 ≠ [] := by
    rw [ne_eq, List.drop_eq_nil_iff, hlength]
    decide
  have hfive : (bytes.take 5).length = 5 := by
    rw [List.length_take, hlength]
    rfl
  have hfull : stalled.stream.outgoing.room = 0 := by
    show 5 - ([] ++ bytes.take 5).length = 0
    rw [List.nil_append, hfive]
  have hgone : Engine.Move key .client env' stalled (stalled.gaveUp (.ok ())) :=
    Engine.givesUp rfl rfl hheld rfl hfull (Nat.le_of_eq hlate.symm)
  exact ⟨stalled, _, .head htold hstalled, ⟨rfl, rfl, rfl⟩,
    (by decide : Engine.Phase.running ≠ .idle), Option.some_ne_none _, rfl, hgone,
    ⟨rfl, rfl, rfl⟩, rfl, rfl, rfl, hfive⟩

/-- **A call to close a connection may succeed though a frame was lost**: its last bytes could not
be handed over while draining, and the stream was given up. -/
theorem loss_while_draining : ∃ (key : SessionKey) (x₀ x z : Watched) (c : Client),
    Watched.Opens key 0 x₀ ∧ Watched.Leads key 0 x₀ x ∧ 1 ∉ x.log.calls ∧
      x.client.close 0 1 = (true, c) ∧ Watched.Leads key 0 (x.closing c 1) z ∧
      (1, .done) ∈ z.log.returned ∧ z.site.log.accepted = [{ frame := ⟨0, [1]⟩ }] ∧
      z.site.log.troubles = [.timeout .write] ∧ z.site.stream.outgoing.closed = true ∧
      ¬ z.site.AllOut key .client := by
  obtain ⟨key, x₀, x, c, k, hopen, hx, hnew, hclose, hk, hcancelled, hcall, hgreeting, hheard,
    hsite⟩ := exists_closing hasty (.ofCapacity 5) rfl
  have hsound := Watched.sound_of_leads (Watched.sound_of_opens hopen) hx
  have hsound' := Watched.sound_of_leads hsound (.single (Watched.step_closing hsound hnew hclose))
  let env : Env := ⟨0, true, fun _ => none⟩
  let late : Env := ⟨10, true, fun _ => none⟩
  obtain ⟨s, s', hmoves, hunasked, hbusy, hdriven, hrunning, hmove, hunasked', hended,
    htroubles, hclosed, hfive⟩ :=
    exists_given_up key (hcancelled env) rfl (show (late.engine k).now = 10 from rfl)
  rw [← hsite] at hmoves hunasked
  obtain ⟨y, hy, hysite, -, r, hk'⟩ := Watched.leads_of_moves hsound' hk hmoves
    (by rw [Watched.closing, hsite]; exact (by decide : Engine.Phase.running ≠ .idle)) hunasked
    (.inl hdriven)
  have hsound₁ := Watched.sound_of_leads hsound' hy
  have hlast : Engine.Moves key .client
      (late.engine { k with engine := s.engine, result := r }) y.site.toSite s' := by
    rw [hysite]
    exact .single hmove
  obtain ⟨y', hy', hysite', -, r', hk''⟩ := Watched.leads_of_moves hsound₁ hk' hlast
    (by rw [hysite]; exact hbusy) (by rw [hysite]; exact hunasked')
    (.inr (by rw [hended, hysite]; simp only [hrunning]; exact List.cons_ne_nil _ _))
  obtain ⟨z, hz, hzsite, hret⟩ := exists_done (Watched.sound_of_leads hsound₁ hy') hk'' hcall
    (by rw [hysite']) hended
  have hzsite' : z.site = { x.site with toSite := s' } := by
    rw [hzsite, hysite', hysite]
    rfl
  have haccepted : s'.log.accepted = [{ frame := ⟨0, [1]⟩ }] :=
    hunasked'.accepted.trans (hunasked.accepted.trans (by rw [hsite]; rfl))
  refine ⟨key, x₀, x, z, c, hopen, hx, hnew, hclose, (hy.trans hy').tail hz, hret, ?_, ?_, ?_,
    ?_⟩
  · rw [hzsite']
    exact haccepted
  · rw [hzsite']
    exact htroubles
  · rw [hzsite']
    exact hclosed
  · rw [hzsite']
    intro hout
    -- Five bytes are there, and a frame has more.
    have hbytes : x.site.heard ++ s'.stream.outgoing.held =
        x.site.greeting ++ wire key .clientToServer 0 (Engine.frames s'.log.accepted) := hout.bytes
    have hlen := congrArg List.length hbytes
    rw [hheard, hgreeting, haccepted, List.nil_append, hfive] at hlen
    have hwire := Engine.length_wire_byte key .clientToServer 0 1
    exact absurd (hlen.trans hwire) (by decide)

end Parley.Client
