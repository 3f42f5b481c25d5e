import Parley.Proofs.Network.Talk

/-! The talk of a call with a server that returns what it is asked.

The client's engine makes one call, and the server's answers it (`Talk.Speaks`). Each step of
either leaves them so (`Sound.asks`, `Sound.answers`), until the client's drive has ended with all
it had to send handed over. Before that one of the two can always make a step, whoever is in the
handshake still (`Sound.ready`). -/
namespace Parley.Talk
open Channel Engine Meeting

/-! ### The two engines -/

/-- The two ends send what the call needs and no more, and within the limits of both. -/
structure Suits (plan : Role → Plan) (c : Config.Connection) (q : Query) : Prop where
  asks : (plan .client).frames = [q.outgoing.frame]
  back : (plan .server).frames = q.back
  answered : answers some c.settings.maxWrite [q.outgoing.frame] = q.back
  fits : q.outgoing.frame.Fits c.settings.maxWrite
  admits : ∀ r, ∀ f ∈ (plan r).frames, f.Spellable ∧ Admits c.settings.maxRead f
  taken : q.Taken

/-- The client's engine makes a call, and the server's returns what it is asked. -/
def Speaks (plan : Role → Plan) (c : Config.Connection) (q : Query) (a : Asked) :
    Role → Attended → Prop
  | .client, x => ∃ r, Asking (key plan) q a x r
  | .server, x => ∃ r, Answering (key plan) .server some c (plan .client).frames x r

variable {plan : Role → Plan} {c : Config.Connection} {q : Query} {a : Asked} {t : Talk}
  {P : Role → Attended → Prop} {e e' : Engine} {l : Log} {d : Duplex} {x : Exchange}
  {taken : Bytes} {env : Engine.Env} {k : Engine.Task} {events : List Engine.Event}

theorem manner_speaks (hsuits : Suits plan c q) (a : Asked) : Manner plan (Speaks plan c q a) where
  far r x y h hfar := by
    cases r with
    | client => exact ⟨h.choose, h.choose_spec.far hfar⟩
    | server => exact ⟨h.choose, h.choose_spec.far hfar⟩
  driven r x h := by
    cases r with
    | client =>
      obtain ⟨_, h⟩ := h
      rw [h.place.drive]
      exact Option.some_ne_none _
    | server =>
      obtain ⟨_, h⟩ := h
      rw [h.serving.drive]
      exact Option.some_ne_none _
  out r x h := by
    cases r with
    | client =>
      obtain ⟨_, h⟩ := h
      refine out_prefix h.world ?_
      rw [show x.toWorld.log.accepted = _ from h.accepted, hsuits.asks]
      exact List.prefix_rfl
    | server =>
      obtain ⟨_, h⟩ := h
      obtain ⟨gs, ⟨rest, hrest⟩, haccepted⟩ := h.accepted
      refine out_prefix h.world ?_
      rw [show frames x.toWorld.log.accepted = _ from haccepted, hsuits.back, ← hsuits.answered,
        ← hsuits.asks, ← hrest, answers_append]
      exact List.prefix_append ..
  opened r x h := by
    cases r with
    | client => exact ⟨h.choose_spec.opened, h.choose_spec.listening⟩
    | server => exact ⟨h.choose_spec.opened, h.choose_spec.listening⟩

/-! ### Their beginnings -/

/-- What a first engine finds. -/
theorem Sound.voice_fresh (h : Sound plan P t) {r : Role} {k : SessionKey}
    (hr : t.ends r = .shaking (.agreed k) taken) (e : Engine) (l : Log) :
    t.voice plan r e l =
      ({ engine := e
         stream := (t.stream r).past (t.ends r.opposite).wanting
         log := l
         coming := t.unsent plan r.opposite } : Attended) := by
  rw [voice, (h.agreed hr).2.2.1]

/-- **The client starts its engine and makes its call.** -/
theorem Sound.client_engages {q' : Query} {a' : Asked} (hsuits' : Suits plan c q')
    (hsuits : Suits plan c q) (h : Sound plan (Speaks plan c q' a') t) {k : SessionKey}
    (hr : t.ends .client = .shaking (.agreed k) taken) (env : Engine.Env) :
    ∃ e l, q.ask (Site.started k .client env c.settings d).engine = .ok e ∧
      Sound plan (Speaks plan c q .waiting) (t.put .client (.engaged e l) (t.stream .client)) ∧
      Goes plan .client t (t.put .client (.engaged e l) (t.stream .client)) := by
  obtain ⟨rfl, -, -, hempty, hcoming⟩ := h.agreed hr
  have hback : ∀ f ∈ q.back, f.Spellable ∧ Admits c.settings.maxRead f := by
    rw [← hsuits.back]
    exact hsuits.admits .server
  have hall : ((t.stream .client).past (t.ends .server).wanting).incoming.held ++
      t.unsent plan .server = wire (key plan) .serverToClient 0 q.back := by
    rw [← hsuits.back]
    exact hcoming
  obtain ⟨e, l, hask, htaken, hx⟩ := asking_asked env hempty (h.opened .client)
    (h.opened .server) hsuits.fits hsuits.taken hback hall
  refine ⟨e, l, hask, h.engages (manner_speaks hsuits' a') hr (fun _ hopp => hopp) htaken
    ⟨firstDrive (key plan) .client env c.settings, ?_⟩⟩
  rw [h.voice_fresh hr]
  exact hx

/-- **The server starts its engine.** -/
theorem Sound.server_engages (hsuits : Suits plan c q) (h : Sound plan (Speaks plan c q a) t)
    {k : SessionKey} (hr : t.ends .server = .shaking (.agreed k) taken) (env : Engine.Env) :
    ∃ e l, e = (Site.started k .server env c.settings d).engine ∧
      Sound plan (Speaks plan c q a) (t.put .server (.engaged e l) (t.stream .server)) ∧
      Goes plan .server t (t.put .server (.engaged e l) (t.stream .server)) := by
  obtain ⟨rfl, -, -, hempty, hcoming⟩ := h.agreed hr
  have hcount : (plan .client).frames.length ≤ Nonce.last := by
    rw [hsuits.asks]
    exact (by decide : 1 ≤ Nonce.last)
  have hall : ((t.stream .server).past (t.ends .client).wanting).incoming.held ++
      t.unsent plan .client = wire (key plan) .clientToServer 0 (plan .client).frames := hcoming
  have hx : Answering (key plan) .server some c (plan .client).frames _ _ :=
    answering_started env (hsuits.admits .client) hcount hempty (h.opened .server)
      (h.opened .client) hall
  refine ⟨_, {}, rfl, h.engages (manner_speaks hsuits a) hr (fun _ hopp => hopp) rfl
    ⟨firstDrive (key plan) .server env c.settings, ?_⟩⟩
  rw [h.voice_fresh hr]
  exact hx

/-! ### Their steps -/

/-- What a step of the client's engine comes to. -/
inductive Asks (plan : Role → Plan) (c : Config.Connection) (q : Query) (a : Asked) (t : Talk)
    (e : Engine) (d : Duplex) (events : List Engine.Event) : Prop where
  | on {a' : Asked} {l : Log} (ha : a' = a ∨ a = .waiting ∧ a' = .told)
      (hquiet : ∀ ev ∈ events, ev.isQuiet)
      (h : Sound plan (Speaks plan c q a') (t.put .client (.engaged e l) d))
      (hgoes : Goes plan .client t (t.put .client (.engaged e l) d)) : Asks plan c q a t e d events
  | returns {l : Log} (ha : a = .told) (hevents : events = [.returned q.id q.outcome])
      (h : Sound plan (Speaks plan c q .returned) (t.put .client (.engaged e l) d))
      (hgoes : Goes plan .client t (t.put .client (.engaged e l) d)) : Asks plan c q a t e d events
  | ends (ha : a = .returned) (hevents : events = [.ended (.ok ())]) (hdrive : e.drive = none)
      (hcalls : e.calls = [])
      (hwrote : d.outgoing.held = (t.pipes .client).held ++ t.unsent plan .client) :
      Asks plan c q a t e d events

/-- All that an engine had to send is in the pipe when what has left it is all it has to say. -/
theorem wrote_all (hm : Manner plan P) (h : Sound plan P t) {r : Role}
    (hr : t.ends r = .engaged e l) (hheld : (t.pipes r).held <+: d.outgoing.held)
    (hout : (t.ends r.opposite).heard ++ d.outgoing.held.drop (t.ends r.opposite).wanting =
      speech plan r) :
    d.outgoing.held = (t.pipes r).held ++ t.unsent plan r := by
  obtain ⟨new, hnew⟩ := hheld
  have hspeech := h.speech_eq hm hr
  rw [← hout, ← hnew, List.drop_append_of_le_length (h.wanting_le hm hr), List.append_assoc]
    at hspeech
  rw [← hnew, ← List.append_cancel_left (List.append_cancel_left hspeech)]

/-- **The client's engine makes a step.** -/
theorem Sound.asks (hsuits : Suits plan c q) (h : Sound plan (Speaks plan c q a) t)
    (hr : t.ends .client = .engaged e l) (hearly : ∀ due ∈ e.dues, env.now < due)
    (hcancelled : env.cancelled = true → a = .returned)
    (hstep : e.step env k (t.stream .client) = some (e', d, events)) :
    Asks plan c q a t e' d events := by
  have hm := manner_speaks hsuits a
  obtain ⟨⟨r, hx⟩, -⟩ := h.engaged hr
  have hvoice : e.step env k (t.voice plan .client e l).stream =
      some (e', d.past (t.ends .server).wanting, events) := by
    rw [h.voice_step hm hr, hstep]
    rfl
  have hworks : ∀ {a' r'}, Asking (key plan) q a' (t.worked plan .client e l e' d events) r' →
      Sound plan (Speaks plan c q a')
          (t.put .client (.engaged e' (t.worked plan .client e l e' d events).log) d) ∧
        Goes plan .client t
          (t.put .client (.engaged e' (t.worked plan .client e l e' d events).log) d) :=
    fun hx' => h.works hm (manner_speaks hsuits _) hr (fun _ hopp => hopp) hstep rfl ⟨_, hx'⟩
      (hx.relieved hvoice)
  cases hx.stepped hearly hcancelled hvoice with
  | on ha hquiet hx' => exact .on ha hquiet (hworks hx').1 (hworks hx').2
  | returns ha hevents hx' => exact .returns ha hevents (hworks hx').1 (hworks hx').2
  | ends ha hevents hdrive hcalls hout =>
    refine .ends ha hevents hdrive hcalls
      (wrote_all hm h hr (held_stepped (stepped_of_step hstep)) ?_)
    rw [speech, hsuits.asks]
    exact hout

/-- **The server's engine makes a step.** -/
theorem Sound.answers (hsuits : Suits plan c q) (h : Sound plan (Speaks plan c q a) t)
    (hr : t.ends .server = .engaged e l) (hcalm : Calm some env e)
    (hstep : e.step env k (t.stream .server) = some (e', d, events)) :
    ∃ l', e'.drive ≠ none ∧ Sound plan (Speaks plan c q a) (t.put .server (.engaged e' l') d) ∧
      Goes plan .server t (t.put .server (.engaged e' l') d) := by
  have hm := manner_speaks hsuits a
  obtain ⟨⟨r, hx⟩, -⟩ := h.engaged hr
  have hvoice : e.step env k (t.voice plan .server e l).stream =
      some (e', d.past (t.ends .client).wanting, events) := by
    rw [h.voice_step hm hr, hstep]
    rfl
  have hspell : ∀ f ∈ Engine.answers some c.settings.maxWrite (plan .client).frames,
      f.Spellable := by
    intro f hf
    rw [hsuits.asks, hsuits.answered, ← hsuits.back] at hf
    exact (hsuits.admits .server f hf).1
  have hcount : (plan .client).frames.length ≤ Nonce.last := by
    rw [hsuits.asks]
    exact (by decide : 1 ≤ Nonce.last)
  obtain ⟨r', hx'⟩ := hx.stepped hspell hcount hcalm hvoice
  have hdriven : e'.drive = some r' := hx'.serving.drive
  refine ⟨_, by rw [hdriven]; exact Option.some_ne_none _,
    h.works hm hm hr (fun _ hopp => hopp) hstep rfl ⟨r', hx'⟩ (.inl (hx.relieved hcalm hvoice))⟩

/-! ### Something can always be done -/

/-- An end can make a step. -/
def Ready (t : Talk) (env : Engine.Env) (r : Role) : Prop :=
  match t.ends r with
  | .shaking x _ => (∃ k, x = .agreed k) ∨ x.advance r (t.stream r) ≠ none
  | .engaged e _ => ∃ k, e.step env k (t.stream r) ≠ none

theorem Sound.room_pos (h : Sound plan P t) {r : Role} (hempty : (t.pipes r).held = []) :
    (t.pipes r).room ≠ 0 := by
  have hroomy := h.roomy r
  rw [Pipe.room, hempty, List.length_nil, Nat.sub_zero]
  exact Nat.ne_of_gt (Nat.lt_of_lt_of_le (by decide) hroomy)

/-- A key fits into a pipe whole. -/
theorem Sound.sending_ready (h : Sound plan P t) {r : Role} {secret left : Bytes}
    (hr : t.ends r = .shaking (.sending secret left) taken) (env : Engine.Env) :
    t.Ready env r := by
  rw [Ready, hr]
  refine .inr fun hnone => ?_
  rcases Exchange.room_or_open_of_advance (by intro k hk; cases hk) hnone with
    ⟨secret', left', hx, hroom⟩ | ⟨_, _, hx, -⟩
  · obtain ⟨rfl, rfl⟩ := Exchange.sending.inj hx
    have hleft : left ≠ [] := by
      rintro rfl
      cases hnone
    have htotal := h.total r.opposite
    have hlength : left.length + (t.pipes r).held.length ≤ Exchange.keyLength := by
      cases hopp : t.ends r.opposite with
      | shaking x' taken' =>
        rw [hopp] at htotal
        have hall := congrArg List.length htotal
        simp only [coming, Role.opposite_opposite, unsent_shaking hr, Channel.Stage.unsent,
          List.length_append, greeting, Crypto.X25519.length_publicKey] at hall
        show _ ≤ 32
        omega
      | engaged e' l' =>
        rw [hopp] at htotal
        have hall := congrArg List.length htotal
        simp only [coming, Role.opposite_opposite, unsent_shaking hr, Channel.Stage.unsent,
          List.length_append] at hall
        omega
    have hpos := List.length_pos_iff.mpr hleft
    have hroomy := h.roomy r
    have hzero : (t.pipes r).capacity - (t.pipes r).held.length = 0 := hroom
    omega
  · cases hx

/-- An end that sends nothing waits only for what the other end has not sent. -/
theorem Sound.ready_of_unsent_le (h : Sound plan P t) {r : Role}
    (hr : t.ends r = .shaking x taken)
    (hle : (t.unsent plan r.opposite).length ≤ (speech plan r.opposite).length)
    (env : Engine.Env) : t.Ready env r := by
  by_contra hnot
  have hends := hnot
  rw [Ready, hr, not_or, not_ne_iff] at hends
  obtain ⟨hagreed, hnone⟩ := hends
  rcases Exchange.room_or_open_of_advance (fun k hk => hagreed ⟨k, hk⟩) hnone with
    ⟨secret, left, rfl, -⟩ | ⟨secret, arrived, rfl, hshort, hempty, -⟩
  · exact hnot (h.sending_ready hr env)
  · have hempty : (t.pipes r.opposite).held = [] := hempty
    obtain ⟨-, hexpects⟩ := h.shaking hr
    have htotal := congrArg List.length (total_of_expects hexpects)
    cases hexpects with
    | receiving =>
      simp only [coming, hempty, List.nil_append, List.length_append, greeting,
        Crypto.X25519.length_publicKey] at htotal
      have hshort : taken.length < 32 := hshort
      omega

/-- An end that can do nothing, of two that can do nothing, has its engine. -/
theorem Sound.engaged_of_stuck (h : Sound plan P t) {env : Role → Engine.Env}
    (hstuck : ∀ r, ¬ t.Ready (env r) r) (r : Role) : ∃ e l, t.ends r = .engaged e l := by
  cases hr : t.ends r with
  | engaged e l => exact ⟨e, l, rfl⟩
  | shaking x taken =>
    refine absurd (h.ready_of_unsent_le hr ?_ (env r)) (hstuck r)
    cases hopp : t.ends r.opposite with
    | engaged e l =>
      rw [unsent, hopp, List.length_drop]
      exact Nat.sub_le ..
    | shaking x' taken' =>
      rw [unsent_shaking hopp]
      cases x' with
      | sending => exact absurd (h.sending_ready hopp (env r.opposite)) (hstuck r.opposite)
      | receiving => exact Nat.le_refl _
      | agreed => exact Nat.le_refl _

/-- When all it has to say has left an engine, nothing is left to send. -/
theorem Sound.unsent_eq_nil (hm : Manner plan P) (h : Sound plan P t) {r : Role}
    (hr : t.ends r = .engaged e l)
    (hout : (t.voice plan r e l).heard ++ (t.voice plan r e l).stream.outgoing.held =
      speech plan r) : t.unsent plan r = [] := by
  have hspeech := h.speech_eq hm hr
  rw [show (t.ends r.opposite).heard ++ (t.pipes r).held.drop (t.ends r.opposite).wanting =
    speech plan r from hout] at hspeech
  exact List.append_right_eq_self.mp hspeech

/-- **One of the two ends can make a step.** -/
theorem Sound.ready (hsuits : Suits plan c q) (h : Sound plan (Speaks plan c q a) t)
    (env : Role → Engine.Env) (hattentive : ∀ r, (env r).attentive = true)
    (hcancelled : a = .returned → (env .client).cancelled = true) : ∃ r, t.Ready (env r) r := by
  by_contra hnone
  have hstuck : ∀ r, ¬ t.Ready (env r) r := not_exists.mp hnone
  have hm := manner_speaks hsuits a
  obtain ⟨e, l, hr⟩ := h.engaged_of_stuck hstuck .client
  obtain ⟨e', l', hr'⟩ := h.engaged_of_stuck hstuck .server
  have hvoice : ∀ r e l, t.ends r = .engaged e l → ∀ k,
      e.step (env r) k (t.voice plan r e l).stream = none := by
    intro r e l hr k
    have hnot := hstuck r
    rw [Ready, hr, not_exists] at hnot
    rw [h.voice_step hm hr, not_ne_iff.mp (hnot k)]
    rfl
  obtain ⟨⟨_, hx⟩, -⟩ := h.engaged hr
  obtain ⟨⟨_, hx'⟩, -⟩ := h.engaged hr'
  have hroom : ∀ r e l, t.ends r = .engaged e l → (t.pipes r).held = [] →
      (t.voice plan r e l).stream.outgoing.room ≠ 0 := by
    intro r e l hr hempty
    rw [show (t.voice plan r e l).stream.outgoing.room = (t.pipes r).room from
      Pipe.room_past (h.wanting_le hm hr)]
    exact h.room_pos hempty
  -- The server has read all that is in its pipe, so neither the client nor the server is short of
  -- room.
  obtain ⟨hread', hwrites'⟩ := hx'.stuck (hattentive .server) (hvoice _ _ _ hr')
  obtain ⟨hread, hcoming, hout⟩ := (hx.stuck (hattentive .client) hcancelled
    (hvoice _ _ _ hr)).resolve_left (hroom _ _ _ hr hread')
  have hout' := hwrites'.resolve_left (hroom _ _ _ hr' hread)
  -- All of the request has left the client, so the server has accepted its answer.
  have hsent : t.unsent plan .client = [] :=
    h.unsent_eq_nil hm hr (hout.trans (by rw [speech, hsuits.asks]; rfl))
  have haccepted := hx'.accepted_of_stuck (hattentive .server) (hvoice _ _ _ hr') hsent
  -- So all of the answer has left the server, and nothing is coming to the client.
  have hsent' : t.unsent plan .server = [] :=
    h.unsent_eq_nil hm hr' (hout'.trans (by
      rw [haccepted, hsuits.asks, hsuits.answered, ← hsuits.back]; rfl))
  exact hcoming hsent'

end Parley.Talk
