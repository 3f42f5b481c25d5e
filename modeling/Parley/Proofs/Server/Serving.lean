import Parley.Proofs.Channel.Handshaking
import Parley.Proofs.Server.Site

/-! A connection serves its stream, whatever other connections the server has.

A connection that is alone on its stream, at a site at which the program does nothing meanwhile,
depends on its own progress and its view of the stream only: `Serves` says so much of a site, and
each step of such a connection leads to a site that it serves again (`Serves.shakes`,
`Serves.engages`, `Serves.drives`). So a far end whose key and first message are on the stream is
heard, in as many steps at any site (`exists_heard`). The induction is over the bytes that the read
loop has yet to move. -/
namespace Parley.Server.Site
open Channel

/-- A connection is alone on its stream, of which it has this view, and handed these frames to the
application. The server is not shutting down, and no stream waits for a slot. -/
structure Serves (settings : Config.Connection) (t : Nat) (c : Connection) (d : Duplex)
    (fs : List (Nat × Frame)) (s : Site) : Prop where
  reachable : s.world.Reachable
  settings : s.world.server.connection = settings
  now : s.now = t
  running : s.world.server.shutdown.fired = false
  unqueued : queued s.world.server.loops = []
  member : c ∈ s.world.server.connections
  alone : ∀ k ∈ s.world.server.connections, k.stream = c.stream → k = c
  view : s.views c.stream = d
  dispatches : s.dispatches c.stream = fs

variable {reply : Bytes → Option Bytes} {P : Site → Prop} {s s' : Site} {a : Act} {as : List Act}
  {settings : Config.Connection} {t : Nat} {c : Connection} {d d' : Duplex}
  {fs : List (Nat × Frame)} {due : Option Nat}

namespace Serves

theorem connectionOn (h : Serves settings t c d fs s) :
    connectionOn s.world.server c.stream = some c := by
  cases hfind : Server.connectionOn s.world.server c.stream with
  | none => exact absurd (beq_self_eq_true _) (List.find?_eq_none.mp hfind c h.member)
  | some k =>
    obtain ⟨hk, hstream⟩ := mem_of_connectionOn hfind
    rw [h.alone k hk hstream]

theorem find (h : Serves settings t c d fs s) :
    s.world.server.connections.find? (·.guard == c.guard) = some c :=
  Keyed.find?_of_mem (guards_nodup h.reachable) h.member

/-! ### Steps -/

/-- The connection has taken a step, and is still there. -/
theorem stepped (h : Serves settings t c d fs s) {p : Progress} {events : List Event}
    (hs' : s' = s.stepped c.stream (s.world.server.setConnection { c with progress := p }) d'
      events) (hreachable : s'.world.Reachable) :
    Serves settings t { c with progress := p } d' (fs ++ (events.filterMap delivered).map (t, ·))
      s' := by
  subst hs'
  refine ⟨hreachable, h.settings, h.now, h.running, h.unqueued, ?_, ?_, Function.update_self .., ?_⟩
  · exact List.mem_map.mpr ⟨c, h.member, if_pos rfl⟩
  · intro k hk hstream
    obtain ⟨m, hm, rfl⟩ := List.mem_map.mp hk
    split
    · rfl
    · rename_i hguard
      rw [if_neg hguard] at hstream
      exact absurd (congrArg Connection.guard (h.alone m hm hstream)) hguard
  · rw [← h.dispatches, ← h.now]
    exact dispatches_stepped s c.stream
      (s.world.server.setConnection { c with progress := p }) d' events

/-- A step that hands nothing to the application. -/
theorem stepped_quietly (h : Serves settings t c d fs s) {p : Progress}
    (hs' : s' = s.stepped c.stream (s.world.server.setConnection { c with progress := p }) d' [])
    (hreachable : s'.world.Reachable) :
    Serves settings t { c with progress := p } d' fs s' := by
  have hstepped := h.stepped hs' hreachable
  rwa [List.filterMap_nil, List.map_nil, List.append_nil] at hstepped

theorem shakes (h : Serves settings t c d fs s) (reply : Bytes → Option Bytes)
    {x x' : Handshake} (hc : c.progress = .shaking x)
    (hstep : x.step .server t d = some (.going x' d')) :
    ∃ s', s.perform reply (.handshake c.stream) = some s' ∧
      Serves settings t { c with progress := .shaking x' } d' fs s' := by
  have hact : s.perform reply (.handshake c.stream) = some (s.stepped c.stream
      (s.world.server.setConnection { c with progress := .shaking x' }) d' []) := by
    simp [perform, h.connectionOn, stepHandshake, h.find, hc, h.running, env, h.now, h.view, hstep]
  exact ⟨_, hact, h.stepped_quietly rfl (reachable_of_perform h.reachable hact)⟩

/-- A connection that has its key starts its engine. -/
theorem engages (h : Serves settings t c d fs s) (reply : Bytes → Option Bytes)
    {key : SessionKey} (hc : c.progress = .shaking ⟨.agreed key, due⟩) :
    ∃ s', s.perform reply (.handshake c.stream) = some s' ∧
      Serves settings t { c with progress := .engaged (Engine.Site.started key .server
        ⟨t, false, true, reply⟩ settings.settings d).engine } d fs s' := by
  have hengage : s.world.server.engage t key = (Engine.Site.started key .server
      ⟨t, false, true, reply⟩ settings.settings d).engine := by
    rw [← h.settings]
    rfl
  have hact : s.perform reply (.handshake c.stream) = some (s.stepped c.stream
      (s.world.server.setConnection
        { c with progress := .engaged (s.world.server.engage t key) }) d []) := by
    simp [perform, h.connectionOn, stepHandshake, h.find, hc, h.running, env, h.now, h.view,
      Handshake.step]
  rw [hengage] at hact
  exact ⟨_, hact, h.stepped_quietly rfl (reachable_of_perform h.reachable hact)⟩

/-- A step of an engine that goes on. -/
theorem drives (h : Serves settings t c d fs s) {e e' : Engine} {task : Engine.Task}
    {events : List Engine.Event} (hc : c.progress = .engaged e)
    (hstep : e.step ⟨t, false, true, reply⟩ task d = some (e', d', events))
    (hgoes : ends events = false) :
    ∃ s', s.perform reply (.engine c.stream task []) = some s' ∧
      Serves settings t { c with progress := .engaged e' } d'
        (fs ++ ((events.map .engine).filterMap delivered).map (t, ·)) s' := by
  have hact : s.perform reply (.engine c.stream task []) = some (s.stepped c.stream
      (s.world.server.setConnection { c with progress := .engaged e' }) d'
        (events.map .engine)) := by
    simp [perform, h.connectionOn, stepEngine, h.find, hc, Env.engine, h.running, env, h.now,
      h.view, hstep, hgoes]
    rfl
  exact ⟨_, hact, h.stepped rfl (reachable_of_perform h.reachable hact)⟩

/-- The far end makes something of the stream. -/
theorem meets (h : Serves settings t c d fs s) (reply : Bytes → Option Bytes) (d' : Duplex) :
    ∃ s', s.perform reply (.far c.stream fun _ => d') = some s' ∧ Serves settings t c d' fs s' :=
  ⟨_, rfl, { h with view := Function.update_self .. }⟩

/-! ### Runs -/

/-- With room for its own key, and the peer's key at hand, a connection comes to its engine. -/
theorem secures {secret peer more : Bytes} {key : SessionKey} {capacity capacity' : Nat}
    (h : Serves settings t c ⟨{ capacity }, { capacity := capacity', held := peer ++ more }⟩ fs s)
    (reply : Bytes → Option Bytes) (hc : c.progress = .shaking (.start secret due))
    (hpeer : peer.length = Exchange.keyLength)
    (hagree : Exchange.agree .server secret peer = .ok key)
    (hroom : Exchange.keyLength ≤ capacity)
    (hd : d = ⟨{ capacity, held := Crypto.X25519.publicKey secret },
      { capacity := capacity', held := more }⟩) :
    ∃ s', Run reply Unqueued s (List.replicate 5 (.handshake c.stream)) s' ∧
      Serves settings t { c with progress := .engaged (Engine.Site.started key .server
        ⟨t, false, true, reply⟩ settings.settings d).engine } d fs s' := by
  subst hd
  obtain ⟨hsends, htakes, hagrees⟩ := Shaking.advances_to_key more hpeer hagree capacity' hroom
  obtain ⟨s₁, hact₁, h₁⟩ := h.shakes reply hc (Handshake.step_of_going hsends)
  obtain ⟨s₂, hact₂, h₂⟩ := h₁.shakes reply rfl (Handshake.step_of_going rfl)
  obtain ⟨s₃, hact₃, h₃⟩ := h₂.shakes reply rfl (Handshake.step_of_going htakes)
  obtain ⟨s₄, hact₄, h₄⟩ := h₃.shakes reply rfl (Handshake.step_of_going (hagrees _))
  obtain ⟨s₅, hact₅, h₅⟩ := h₄.engages reply rfl
  exact ⟨s₅, .cons h.unqueued hact₁ (.cons h₁.unqueued hact₂ (.cons h₂.unqueued hact₃
    (.cons h₃.unqueued hact₄ (.cons h₄.unqueued hact₅ (.nil h₅.unqueued))))), h₅⟩

end Serves

/-- A message whose bytes are at hand is read and handed to the application, in so many steps. -/
theorem exists_dispatched (settings : Config.Connection) {e : Engine} {r : Engine.Drive}
    {collected : Bytes} {f : Frame} {gs : List Frame} (reply : Bytes → Option Bytes) (hr : e.drive = some r)
    (hreads : r.control.reads = true) (hread : r.reading = .reading collected due)
    (hahead : r.opener.Ahead collected d.incoming [] (f :: gs)) (hmessage : f.isMessage = true) :
    ∃ n, ∀ s c fs, Serves settings t c d fs s → c.progress = .engaged e →
      ∃ s', Run reply Unqueued s (List.replicate n (.engine c.stream .read [])) s' ∧
        s'.dispatches c.stream = fs ++ [(t, f)] := by
  induction hm : Opener.effort r.opener d.incoming [] using Nat.strongRecOn
    generalizing e r collected d with
  | ind m ih =>
    subst hm
    obtain ⟨reading, o, inc, hadv, hless, -⟩ := hahead.exists_advance hahead.there
    cases reading with
    | partly collected' =>
      let r' : Engine.Drive := { r with opener := o, reading := .reading collected' due }
      have hstep : e.step ⟨t, false, true, reply⟩ .read d =
          some (e.driving r', { d with incoming := inc }, []) := by
        simp [Engine.step, Engine.stepRead, hr, hreads, hread, hadv, r']
      obtain ⟨n, hn⟩ := ih _ hless (d := { d with incoming := inc }) (e := e.driving r') (r := r')
        rfl hreads rfl (hahead.advance_partly hadv) rfl
      refine ⟨n + 1, fun s c fs h hc => ?_⟩
      obtain ⟨s₁, hact, h₁⟩ := h.drives hc hstep rfl
      obtain ⟨s₂, hrun, hdispatches⟩ := hn s₁ _ _ h₁ rfl
      refine ⟨s₂, .cons h.unqueued hact hrun, ?_⟩
      rwa [List.map_nil, List.filterMap_nil, List.map_nil, List.append_nil] at hdispatches
    | frame g =>
      obtain ⟨_, hgs, -⟩ := hahead.advance_frame hadv
      obtain ⟨rfl, rfl⟩ := List.cons.inj hgs
      let r' : Engine.Drive := { r with opener := o, reading := .handling f }
      have hreceives : e.step ⟨t, false, true, reply⟩ .read d =
          some (e.driving r', { d with incoming := inc }, [.received f]) := by
        simp [Engine.step, Engine.stepRead, hr, hreads, hread, hadv, Engine.dispatch, hmessage, r']
      have hhands : (e.driving r').step ⟨t, false, true, reply⟩ .read { d with incoming := inc } =
          some ((e.driving r').handled ⟨t, false, true, reply⟩ r' f, { d with incoming := inc },
            [.delivered f]) := by
        simp [Engine.step, Engine.stepRead, Engine.driving, hreads, r']
      refine ⟨2, fun s c fs h hc => ?_⟩
      obtain ⟨s₁, hact₁, h₁⟩ := h.drives hc hreceives rfl
      obtain ⟨s₂, hact₂, h₂⟩ := h₁.drives rfl hhands rfl
      refine ⟨s₂, .cons h.unqueued hact₁ (.cons h₁.unqueued hact₂ (.nil h₂.unqueued)), ?_⟩
      exact h₂.dispatches.trans (List.append_assoc fs _ _)
    | ended => exact absurd (hahead.advance_ended hadv) (List.cons_ne_nil f gs)
    | failed e => exact absurd hadv hahead.not_failed

/-- **What a far end sends is heard**, in as many steps at any site: a connection about to send its
key, to which the key of its far end comes with a message behind it, hands the message to the
application. -/
theorem exists_heard {secret peer more : Bytes} {key : SessionKey} {f : Frame} {capacity : Nat}
    (settings : Config.Connection) (reply : Bytes → Option Bytes) (t capacity' : Nat)
    (hpeer : peer.length = Exchange.keyLength)
    (hagree : Exchange.agree .server secret peer = .ok key)
    (hmore : more = wire key Role.server.inbound 0 [f]) (hroom : Exchange.keyLength ≤ capacity)
    (hspell : f.Spellable) (hadmits : Admits settings.settings.maxRead f)
    (hmessage : f.isMessage = true) :
    ∃ n, ∀ s c due d fs, c.progress = .shaking (.start secret due) →
      Serves settings t c d fs s →
      ∃ s', Run reply Unqueued s (.far c.stream (fun _ =>
            ⟨{ capacity }, { capacity := capacity', held := peer ++ more }⟩) ::
          (List.replicate 5 (.handshake c.stream) ++
            List.replicate n (.engine c.stream .read []))) s' ∧
        s'.dispatches c.stream = fs ++ [(t, f)] := by
  let stream : Duplex :=
    ⟨{ capacity, held := Crypto.X25519.publicKey secret }, { capacity := capacity', held := more }⟩
  let e : Engine :=
    (Engine.Site.started key .server ⟨t, false, true, reply⟩ settings.settings stream).engine
  obtain ⟨n, hn⟩ := exists_dispatched settings (d := stream) (e := e) (t := t) reply rfl rfl rfl
    (Engine.ahead_first settings.settings rfl hmore hspell hadmits) hmessage
  refine ⟨n, fun s c due d fs hc h => ?_⟩
  obtain ⟨s₁, hact₁, h₁⟩ := h.meets reply
    ⟨{ capacity }, { capacity := capacity', held := peer ++ more }⟩
  obtain ⟨s₂, hrun₂, h₂⟩ := h₁.secures reply hc hpeer hagree hroom rfl
  obtain ⟨s₃, hrun₃, hdispatches⟩ := hn s₂ _ fs h₂ rfl
  exact ⟨s₃, .cons h.unqueued hact₁ (hrun₂.append hrun₃), hdispatches⟩

end Parley.Server.Site
