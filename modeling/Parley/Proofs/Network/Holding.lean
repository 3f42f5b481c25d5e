import Parley.Client.Script
import Parley.Proofs.Client.Rules
import Parley.Proofs.Server.Rules

/-! Who holds a stream.

A client holds the streams of its handshakes and of its connections, a server those of its loops
and of its connections. Nothing that either does makes it hold a stream that it did not hold, unless
it dials one or is offered one; and it gives up no stream that it does not hold. -/
namespace Parley
open Channel

namespace Client
variable {i : StreamId} {c c' : Client} {d : Dial} {k : Connection} {now : Nat} {id call : CallId}
  {events : List Event}

/-- The client has nothing to do with a stream. -/
structure Lacks (i : StreamId) (c : Client) : Prop where
  dials : ∀ d ∈ c.dials, d.stage.stream? ≠ some i
  connections : ∀ k ∈ c.connections, k.stream ≠ i

theorem Lacks.setDial (h : c.Lacks i) (hd : d.stage.stream? ≠ some i) : (c.setDial d).Lacks i where
  dials x hx := by
    obtain rfl | hx := Keyed.mem_set (k := Dial.id) hx
    · exact hd
    · exact h.dials x hx
  connections := h.connections

theorem Lacks.filterDials (h : c.Lacks i) (p : Dial → Bool) :
    Lacks i { c with dials := c.dials.filter p } where
  dials x hx := h.dials x (List.mem_of_mem_filter hx)
  connections := h.connections

theorem Lacks.with (h : c.Lacks i) (t : Tracker) (a : Admission) :
    Lacks i { c with tracker := t, admission := a } := ⟨h.dials, h.connections⟩

theorem Lacks.dialFails (h : c.Lacks i) (d : Dial) (e : Error) : (c.dialFails d e).1.Lacks i :=
  (h.filterDials _).with _ _

theorem Lacks.connectFails (h : c.Lacks i) (d : Dial) (e : Error) :
    (c.connectFails d e).1.Lacks i := (h.with c.tracker _).dialFails d e

theorem Lacks.setConnection (h : c.Lacks i) (hk : k.stream ≠ i) : (c.setConnection k).Lacks i where
  dials := h.dials
  connections x hx := by
    obtain rfl | hx := Keyed.mem_set (k := Connection.id) hx
    · exact hk
    · exact h.connections x hx

theorem Lacks.mapConnections (h : c.Lacks i) {f : Connection → Connection}
    (hf : ∀ k, (f k).stream = k.stream) :
    Lacks i { c with connections := c.connections.map f } where
  dials := h.dials
  connections k hk := by
    obtain ⟨x, hx, rfl⟩ := List.mem_map.mp hk
    rw [hf]
    exact h.connections x hx

/-- The event gives up another stream, if any. -/
def Spares (i : StreamId) (events : List Event) : Prop := .dropped i ∉ events

theorem spares_engine (events : List Engine.Event) : Spares i (events.map .engine) := by
  simp [Spares]

theorem spares_connectFails (c : Client) (d : Dial) (e : Error) :
    Spares i (c.connectFails d e).2 := by
  simp [Spares, Client.connectFails, Client.dialFails]

/-! ### Its steps -/

theorem Lacks.stepDial (h : c.Lacks i) (hs : c.stepDial now id = some (c', events)) :
    c'.Lacks i ∧ Spares i events := by
  unfold Client.stepDial at hs
  split at hs
  · cases hs
  · split at hs
    · cases hs
      exact ⟨(h.with _ _).setDial (by simp [Stage.stream?]), by simp [Spares]⟩
    · split at hs
      · cases hs
        exact ⟨h.dialFails _ .shutdown, by simp [Spares]⟩
      · cases hs
        exact ⟨h.setDial (by simp [Stage.stream?]), by simp [Spares]⟩
    · split at hs <;> cases hs <;>
        exact ⟨(h.with _ _).setDial (by simp [Stage.stream?]), by simp [Spares]⟩
    · split at hs
      · cases hs
      · cases hs
        exact ⟨(h.with _ _).setDial (by simp [Stage.stream?]), by simp [Spares]⟩
      · rename_i e _ _
        cases hs
        exact ⟨(h.with _ _).dialFails _ e, by simp [Spares]⟩
    · obtain ⟨e, -, hs⟩ := Option.map_eq_some_iff.mp hs
      cases hs
      exact ⟨h.connectFails _ e, spares_connectFails c _ e⟩
    · cases hs

theorem Lacks.refused (h : c.Lacks i) (id : CallId) (e : IoError) :
    (c.refused id e).1.Lacks i ∧ Spares i (c.refused id e).2 := by
  unfold Client.refused
  split
  · exact ⟨h, by simp [Spares]⟩
  · exact ⟨h.connectFails _ _, spares_connectFails _ _ _⟩

theorem Lacks.dialed (h : c.Lacks i) (id : CallId) {stream : StreamId} (hne : stream ≠ i)
    (secret : Bytes) : (c.dialed id stream secret).Lacks i := by
  unfold Client.dialed
  split
  · split
    · exact h.setDial (by simpa [Stage.stream?] using hne)
    · exact h
  · exact h

theorem Lacks.stepHandshake {s s' : Duplex} (h : c.Lacks i)
    (hs : c.stepHandshake now id s = some (c', s', events)) : c'.Lacks i ∧ Spares i events := by
  unfold Client.stepHandshake at hs
  split at hs
  · cases hs
  · rename_i d hd
    split at hs
    · rename_i sid x hstage
      have hsid : sid ≠ i := by
        have hne := h.dials d (Keyed.mem_of_find? hd).1
        rw [hstage] at hne
        simpa [Stage.stream?] using hne
      split at hs <;> cases hs
      · exact ⟨h.setDial (by simpa [Stage.stream?] using hsid), by simp [Spares]⟩
      · refine ⟨⟨(h.filterDials _).dials, fun k hk => ?_⟩, by simp [Spares]⟩
        obtain hk | hk := List.mem_append.mp hk
        · exact h.connections k hk
        · obtain rfl := List.mem_singleton.mp hk
          exact hsid
      · rename_i e _
        exact ⟨h.connectFails d e, spares_connectFails c d e⟩
    · cases hs

theorem Lacks.of_find? (h : c.Lacks i) (hk : c.connections.find? (·.id == id) = some k) :
    k.stream ≠ i := h.connections k (Keyed.mem_of_find? hk).1

theorem Lacks.stepEngine {env : Env} {t : Engine.Task} {s s' : Duplex} (h : c.Lacks i)
    (hs : c.stepEngine env id t s = some (c', s', events)) : c'.Lacks i ∧ Spares i events := by
  unfold Client.stepEngine at hs
  split at hs
  · cases hs
  · rename_i k hk
    have hne := h.of_find? hk
    split at hs
    · cases hs
    · rename_i e _ _ _
      dsimp only at hs
      split at hs
      · cases hs
        exact ⟨h.setConnection hne, spares_engine _⟩
      · rename_i r _
        cases hs
        have hset := h.setConnection (k := { k with engine := e, result := some r }) hne
        exact ⟨⟨hset.dials, hset.connections⟩, by simp [Spares]⟩

theorem Lacks.stepRelay (h : c.Lacks i) (hs : c.stepRelay id = some (c', events)) :
    c'.Lacks i ∧ Spares i events := by
  unfold Client.stepRelay at hs
  split at hs
  · cases hs
  · rename_i k hk
    have hne := h.of_find? hk
    split at hs <;> cases hs
    exact ⟨h.setConnection hne, by simp [Spares]⟩

theorem Lacks.stepEnd (h : c.Lacks i) (hs : c.stepEnd id = some (c', events)) :
    c'.Lacks i ∧ Spares i events := by
  unfold Client.stepEnd at hs
  split at hs
  · cases hs
  · rename_i k hk
    have hne := h.of_find? hk
    split at hs <;> cases hs
    exact ⟨h.setConnection hne, by simp [Spares]⟩

theorem Lacks.stepIdle (h : c.Lacks i) (hs : c.stepIdle id = some (c', events)) :
    c'.Lacks i ∧ Spares i events := by
  unfold Client.stepIdle at hs
  split at hs <;> cases hs
  exact ⟨⟨h.dials, h.connections⟩, by simp [Spares]⟩

/-! ### What its holder does -/

theorem Lacks.setEngine (h : c.Lacks i) (id : CallId) (e : Engine) : (c.setEngine id e).Lacks i :=
  h.mapConnections fun k => by
    split <;> rfl

theorem Lacks.close (h : c.Lacks i) (id call : CallId) : (c.close id call).2.Lacks i := by
  have hcancel : ∀ {c : Client}, c.Lacks i → (c.cancel id).Lacks i := fun {c} h => by
    unfold Client.cancel
    split
    · rename_i k hk
      have hne := h.of_find? hk
      exact h.setConnection hne
    · exact h
  have hjoin : (c.join id call).2.Lacks i := by
    unfold Client.join
    split
    · rename_i k hk
      have hne := h.of_find? hk
      split
      · exact h.setConnection hne
      · exact h
    · exact h
  unfold Client.close
  split
  · rename_i c' hc
    rw [hc] at hjoin
    exact hcancel hjoin
  · rename_i c' hc
    rw [hc] at hjoin
    exact hjoin

theorem Lacks.dropDial (h : c.Lacks i) (id : CallId) :
    (c.dropDial id).1.Lacks i ∧ Spares i (c.dropDial id).2 := by
  unfold Client.dropDial
  split
  · exact ⟨h, by simp [Spares]⟩
  · rename_i d hd
    have hne := h.dials d (Keyed.mem_of_find? hd).1
    split
    · exact ⟨h.filterDials _, by simp [Spares]⟩
    · exact ⟨(h.filterDials _).with _ _, by simp [Spares]⟩
    · exact ⟨(h.filterDials _).with _ _, by simp [Spares]⟩
    · exact ⟨(h.filterDials _).with _ _, by simp [Spares]⟩
    · exact ⟨(h.filterDials _).with _ _, by simp [Spares]⟩
    · rename_i stream x hstage
      rw [hstage] at hne
      refine ⟨(h.filterDials _).with _ _, ?_⟩
      simpa [Spares, Stage.stream?, eq_comm] using hne

theorem Lacks.abandon {s : Script} (h : s.client.Lacks i) :
    s.abandon.1.client.Lacks i ∧ Spares i s.abandon.2 := by
  obtain ⟨hdial, hspares⟩ := h.dropDial s.id
  refine ⟨?_, hspares⟩
  have hcall : ((s.client.dropDial s.id).1.dropCall s.id).Lacks i :=
    hdial.mapConnections fun _ => rfl
  have hend : (((s.client.dropDial s.id).1.dropCall s.id).dropEnd s.id).Lacks i :=
    hcall.mapConnections fun k => by
      split <;> rfl
  have hgo : ((((s.client.dropDial s.id).1.dropCall s.id).dropEnd s.id).letGo s.id).Lacks i := by
    unfold Client.letGo
    split
    · rename_i k hk
      have hne := hend.of_find? hk
      split
      · exact hend.setConnection hne
      · exact hend
    · exact hend
  exact ⟨hgo.dials, hgo.connections⟩

theorem Lacks.send {s s' : Script} (h : s.client.Lacks i) (hs : s.send now = .ok s') :
    s'.client.Lacks i := by
  unfold Script.send at hs
  split at hs
  · cases hs
  · dsimp only [Except.map] at hs
    split at hs <;> cases hs
    exact h.setEngine _ _

/-- **A script that goes on does so with the streams it has.** -/
theorem Lacks.next {s : Script} (h : s.client.Lacks i) (now : Nat) (o : Engine.Outcome) :
    (s.next now o).1.client.Lacks i ∧ Spares i (s.next now o).2.1 := by
  have hnone : Spares i [] := by simp [Spares]
  have hfails : ∀ e, (s.fails e).1.client.Lacks i ∧ Spares i (s.fails e).2.1 := fun _ => h.abandon
  unfold Script.next
  split
  · exact hfails _
  · exact ⟨h.close _ _, hnone⟩
  · split
    · split
      · exact hfails _
      · rename_i s' hs
        exact ⟨h.send hs, hnone⟩
    · exact ⟨h.close _ _, hnone⟩
    · exact ⟨⟨h.dials, h.connections⟩, hnone⟩
    · exact ⟨⟨h.dials, h.connections⟩, hnone⟩

end Client

namespace Server
variable {i stream : StreamId} {s s' s₁ : Server} {l l' : Loop} {c : Connection} {now guard : Nat}
  {id : CallId} {events : List Event}

/-- The streams of a loop, the oldest first. -/
def Loop.streams (l : Loop) : List StreamId := l.stage.stream?.toList ++ l.backlog

/-- A loop, or a connection, if any. -/
inductive Spot where
  | nowhere
  | loop (id : CallId)
  | connection (guard : Nat)

/-- The server has nothing to do with a stream, unless at one spot. -/
structure Lacks (spot : Spot) (i : StreamId) (s : Server) : Prop where
  loops : ∀ l ∈ s.loops, spot ≠ .loop l.id → i ∉ l.streams
  connections : ∀ c ∈ s.connections, spot ≠ .connection c.guard → c.stream ≠ i

/-- What is at the spot stays as it is, save that the loop is offered other streams. -/
structure Spares (spot : Spot) (i : StreamId) (s s' : Server) : Prop where
  loop : ∀ id l, spot = .loop id → s.loops.find? (·.id == id) = some l → ∃ more, i ∉ more ∧
    s'.loops.find? (·.id == id) = some { l with backlog := l.backlog ++ more }
  connection : ∀ g c, spot = .connection g → s.connections.find? (·.guard == g) = some c →
    s'.connections.find? (·.guard == g) = some c

theorem Spares.refl (spot : Spot) (i : StreamId) (s : Server) : Spares spot i s s where
  loop id l _ hl := ⟨[], List.not_mem_nil, by rw [List.append_nil]; exact hl⟩
  connection _ _ _ hc := hc

theorem Spares.trans {spot : Spot} {s'' : Server} (h : Spares spot i s s')
    (h' : Spares spot i s' s'') : Spares spot i s s'' where
  loop id l hspot hl := by
    obtain ⟨more, hmore, hl⟩ := h.loop id l hspot hl
    obtain ⟨more', hmore', hl⟩ := h'.loop id _ hspot hl
    refine ⟨more ++ more', fun hi => (List.mem_append.mp hi).elim hmore hmore', ?_⟩
    rw [hl, List.append_assoc]
  connection g c hspot hc := h'.connection g c hspot (h.connection g c hspot hc)

theorem streams_congr (hstage : l'.stage.stream? = l.stage.stream?)
    (hbacklog : l'.backlog = l.backlog) :
    l'.streams = l.streams := by
  rw [Loop.streams, Loop.streams, hstage, hbacklog]

theorem mem_streams (hstage : l.stage.stream? = some stream) : stream ∈ l.streams := by
  rw [Loop.streams, hstage]
  exact List.mem_append_left _ (List.mem_singleton_self _)

/-! ### A loop's step -/

/-- What a loop's step does to the streams that the server holds. -/
structure Loops (s : Server) (l : Loop) (s' : Server) (events : List Event) : Prop where
  loops : ∀ m ∈ s'.loops, m ∈ s.loops ∨ m.id = l.id ∧ m.streams ⊆ l.streams
  connections : ∃ new, s'.connections = s.connections ++ new ∧ ∀ c ∈ new, c.stream ∈ l.streams
  dropped : ∀ x, .dropped x ∈ events → x ∈ l.streams
  others : ∀ n, l.id ≠ n → s'.loops.find? (·.id == n) = s.loops.find? (·.id == n)

theorem loops_setLoop (hl : s₁.loops = s.loops) (hc : s₁.connections = s.connections)
    (hid : l'.id = l.id) (hstreams : l'.streams ⊆ l.streams)
    (hdropped : ∀ x, .dropped x ∈ events → x ∈ l.streams) : Loops s l (s₁.setLoop l') events where
  loops m hm := by
    obtain rfl | hm := Keyed.mem_set (k := Loop.id) hm
    · exact .inr ⟨hid, hstreams⟩
    · exact .inl (hl ▸ hm)
  connections := ⟨[], by rw [List.append_nil, ← hc]; rfl, by simp⟩
  dropped := hdropped
  others n hne := by
    rw [← hl]
    exact Keyed.find?_set_of_ne (k := Loop.id) (hid.trans_ne hne)

theorem loops_returns (hl : s₁.loops = s.loops) (hc : s₁.connections = s.connections)
    (hid : l'.id = l.id) (hbacklog : l'.backlog = l.backlog) (r : Except Error Unit)
    (hgiven : ∀ x, .dropped x ∈ events → l.stage.stream? = some x) :
    Loops s l (s₁.loopReturns l' r).1 (events ++ (s₁.loopReturns l' r).2) where
  loops m hm := .inl (hl ▸ List.mem_of_mem_filter hm)
  connections := ⟨[], by rw [List.append_nil, ← hc]; rfl, by simp⟩
  dropped x hx := by
    obtain hx | hx := List.mem_append.mp hx
    · exact mem_streams (hgiven x hx)
    · have hx : x ∈ l'.backlog := by simpa [loopReturns, endLoop] using hx
      exact List.mem_append_right _ (hbacklog ▸ hx)
  others n hne := by
    rw [← hl]
    exact Keyed.find?_filter_of_ne (k := Loop.id) (hid.trans_ne hne)

theorem loops_takeIn (hl : s₁.loops = s.loops) (hc : s₁.connections = s.connections)
    (hstage : l.stage.stream? = some stream) :
    Loops s l (s₁.takeIn l stream guard).1 [.accepted, .opened] where
  loops m hm := by
    obtain rfl | hm := Keyed.mem_set (k := Loop.id) hm
    · exact .inr ⟨rfl, List.subset_append_right ..⟩
    · exact .inl (hl ▸ hm)
  connections := ⟨[{ guard, stream }], by rw [← hc]; rfl, by
    simp only [List.mem_singleton, forall_eq, Loop.streams, hstage]
    exact List.mem_append_left _ (List.mem_singleton_self _)⟩
  dropped x hx := by simp at hx
  others n hne := by
    rw [← hl]
    exact Keyed.find?_set_of_ne (k := Loop.id) hne

theorem loops_of_accept (hstage : l.stage = .accepting) (h : s.accept now l = some (s', events)) :
    Loops s l s' events := by
  have hstreams : l.streams = l.backlog := by rw [Loop.streams, hstage]; rfl
  unfold accept at h
  split at h
  · rename_i e faults _
    have hends : ∀ r, Loops s l (s.loopReturns { l with faults } r).1
        ([] ++ (s.loopReturns { l with faults } r).2) :=
      fun r => loops_returns rfl rfl rfl rfl r fun x hx => nomatch hx
    dsimp only at h
    split at h <;> cases h
    · exact hends (.ok ())
    · refine loops_setLoop rfl rfl rfl ?_ (by simp)
      rw [hstreams]
      exact List.Subset.refl _
    · exact hends (.error (.io e))
  · rename_i b bs hb
    cases h
    refine loops_setLoop rfl rfl rfl ?_ (by simp)
    rw [hstreams, hb]
    exact List.Subset.refl _
  · cases h

/-- **A loop makes of its streams connections, or gives them up.** -/
theorem loops_of_stepLoop (h : s.stepLoop now id = some (s', events)) :
    ∃ l ∈ s.loops, l.id = id ∧ Loops s l s' events := by
  unfold stepLoop at h
  split at h
  · cases h
  · rename_i l hl
    obtain ⟨hmem, hid⟩ := Keyed.mem_of_find? (k := Loop.id) hl
    refine ⟨l, hmem, hid, ?_⟩
    have hends := loops_returns (rfl : s.loops = s.loops) rfl (rfl : l.id = l.id) rfl (.ok ())
      fun x (hx : Event.dropped x ∈ []) => nomatch hx
    have hgives : ∀ (s₁ : Server) stream, s₁.loops = s.loops → s₁.connections = s.connections →
        l.stage.stream? = some stream → Loops s l (s₁.loopReturns l (.ok ())).1
          ([.dropped stream] ++ (s₁.loopReturns l (.ok ())).2) :=
      fun s₁ stream h h' hstage => loops_returns h h' rfl rfl (.ok ()) fun x hx => by
        obtain rfl : x = stream := by simpa using hx
        exact hstage
    have hgoes : ∀ (s₁ : Server) stage, s₁.loops = s.loops → s₁.connections = s.connections →
        Stage.stream? stage = l.stage.stream? → Loops s l (s₁.setLoop { l with stage }) [] :=
      fun s₁ stage h h' hstream => loops_setLoop h h' rfl
        (fun x hx => (streams_congr hstream rfl : Loop.streams { l with stage } = l.streams) ▸ hx)
        fun x (hx : Event.dropped x ∈ []) => nomatch hx
    split at h
    · rename_i hstage
      split at h
      · cases h
        exact hends
      · exact loops_of_accept hstage h
    · rename_i due hstage
      split at h
      · cases h
        exact hends
      · split at h <;> cases h
        exact hgoes s .accepting rfl rfl (by rw [hstage]; rfl)
    · rename_i stream hstage
      cases h
      exact hgoes _ _ rfl rfl (by rw [hstage]; rfl)
    · rename_i stream guard hstage
      split at h <;> cases h
      · exact hgives (s.forget stream).1 stream rfl rfl (by rw [hstage]; rfl)
      · exact hgoes s _ rfl rfl (by rw [hstage]; rfl)
    · rename_i stream guard hstage
      split at h <;> cases h
      · exact loops_takeIn rfl rfl (by rw [hstage]; rfl)
      · exact hgoes _ _ rfl rfl (by rw [hstage]; rfl)
    · rename_i stream guard hstage
      have hstream : l.stage.stream? = some stream := by rw [hstage]; rfl
      split at h
      · cases h
      · cases h
        exact loops_takeIn rfl rfl hstream
      · rename_i a _
        cases h
        exact hgives ({ s with admission := a }.forget stream).1 stream rfl rfl hstream
      · cases h
        refine loops_setLoop rfl rfl rfl (List.subset_append_right ..) fun x hx => ?_
        obtain rfl : x = stream := by simpa using hx
        exact mem_streams hstream

theorem Loops.lacks {spot : Spot} (h : Loops s l s' events) (hl : l ∈ s.loops)
    (hlacks : s.Lacks spot i) (hne : spot ≠ .loop l.id) :
    s'.Lacks spot i ∧ .dropped i ∉ events ∧ Spares spot i s s' := by
  have hi := hlacks.loops l hl hne
  obtain ⟨new, hnew, hstreams⟩ := h.connections
  refine ⟨⟨fun m hm hm' => ?_, fun c hc hc' => ?_⟩, fun hx => hi (h.dropped i hx),
    ⟨fun id m hspot hm => ⟨[], List.not_mem_nil, ?_⟩, fun g c hspot hc => ?_⟩⟩
  · obtain hm | ⟨-, hsub⟩ := h.loops m hm
    · exact hlacks.loops m hm hm'
    · exact fun hx => hi (hsub hx)
  · rw [hnew] at hc
    obtain hc | hc := List.mem_append.mp hc
    · exact hlacks.connections c hc hc'
    · rintro rfl
      exact hi (hstreams c hc)
  · rw [h.others id (fun heq => hne (by rw [hspot, heq])), hm, List.append_nil]
  · rw [hnew, List.find?_append, hc]
    rfl

/-! ### A connection's step -/

theorem Lacks.setConnection {spot : Spot} (h : s.Lacks spot i)
    (hc : spot ≠ .connection c.guard → c.stream ≠ i) : (s.setConnection c).Lacks spot i where
  loops := h.loops
  connections x hx hne := by
    obtain rfl | hx := Keyed.mem_set (k := Connection.guard) hx
    · exact hc hne
    · exact h.connections x hx hne

/-- Other connections' steps do not change the spot. -/
theorem ConnectionStepped.spares {spot : Spot} (hstep : ConnectionStepped s c s' events)
    (hne : spot ≠ .connection c.guard) : Spares spot i s s' where
  loop id l _ hl := ⟨[], List.not_mem_nil, by rw [hstep.loops_eq, hl, List.append_nil]⟩
  connection g x hspot hx := by
    have hg : c.guard ≠ g := fun heq => hne (by rw [hspot, heq])
    cases hstep with
    | @goes progress =>
      exact (Keyed.find?_set_of_ne (k := Connection.guard) (y := { c with progress }) hg).trans hx
    | ends => exact (Keyed.find?_filter_of_ne (k := Connection.guard) hg).trans hx

theorem ConnectionStepped.lacks {spot : Spot} (hstep : ConnectionStepped s c s' events)
    (hc : c ∈ s.connections) (hlacks : s.Lacks spot i) :
    s'.Lacks spot i ∧ .dropped i ∉ events := by
  cases hstep with
  | goes => exact ⟨hlacks.setConnection (hlacks.connections c hc), by simp⟩
  | ends events hevents =>
    refine ⟨⟨hlacks.loops, fun x hx => hlacks.connections x (List.mem_of_mem_filter hx)⟩, ?_⟩
    rw [List.mem_append, List.mem_singleton]
    rintro (hx | hx)
    · rcases hevents _ hx with hx | ⟨_, hx⟩ <;> cases hx
    · cases hx

theorem Lacks.beginHandshake {spot : Spot} (h : s.Lacks spot i) (now guard : Nat)
    (secret : Bytes) : (s.beginHandshake now guard secret).Lacks spot i where
  loops := h.loops
  connections c hc := by
    obtain ⟨x, hx, rfl⟩ := List.mem_map.mp hc
    have hsame : ∀ y : Connection, y.guard = x.guard → y.stream = x.stream →
        spot ≠ .connection y.guard → y.stream ≠ i := fun y hg hs => by
      rw [hg, hs]
      exact h.connections x hx
    split
    · exact hsame _ rfl rfl
    · exact h.connections x hx

theorem spares_beginHandshake {spot : Spot} (hne : spot ≠ .connection guard) (now : Nat)
    (secret : Bytes) : Spares spot i s (s.beginHandshake now guard secret) where
  loop id l _ hl := ⟨[], List.not_mem_nil, by rw [List.append_nil]; exact hl⟩
  connection g c hspot hc := by
    have hg : c.guard ≠ guard := fun heq =>
      hne (by rw [hspot, ← (Keyed.mem_of_find? (k := Connection.guard) hc).2, heq])
    refine (Keyed.find?_map (k := Connection.guard) fun x => ?_).trans ?_
    · split <;> rfl
    · rw [hc, Option.map_some, if_neg hg]

/-! ### What it is offered -/

theorem Lacks.offer {spot : Spot} (h : s.Lacks spot i) (address : String) (hne : stream ≠ i) :
    (s.offer address stream).Lacks spot i where
  loops m hm := by
    obtain ⟨l, hl, rfl⟩ := List.mem_map.mp hm
    split
    · intro hspot hi
      have hi : i ∈ l.streams ++ [stream] := by
        rw [Loop.streams, List.append_assoc]
        exact hi
      obtain hi | hi := List.mem_append.mp hi
      · exact h.loops l hl hspot hi
      · exact hne (List.mem_singleton.mp hi).symm
    · exact h.loops l hl
  connections := h.connections

theorem spares_offer {spot : Spot} (s : Server) (address : String) (hne : stream ≠ i) :
    Spares spot i s (s.offer address stream) where
  loop id l _ hl := by
    have hfind : (s.offer address stream).loops.find? (·.id == id) =
        (s.loops.find? (·.id == id)).map fun l =>
          if l.address = address then { l with backlog := l.backlog ++ [stream] } else l :=
      Keyed.find?_map (k := Loop.id) fun x => by split <;> rfl
    rw [hl, Option.map_some] at hfind
    by_cases ha : l.address = address
    · exact ⟨[stream], fun hi => hne (List.mem_singleton.mp hi).symm,
        hfind.trans (by rw [if_pos ha])⟩
    · exact ⟨[], List.not_mem_nil, hfind.trans (by rw [if_neg ha, List.append_nil])⟩
  connection _ _ _ hc := hc

end Server
end Parley
