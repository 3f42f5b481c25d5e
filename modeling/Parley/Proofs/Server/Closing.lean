import Parley.Proofs.Server.Books

/-! A server once its signal has fired.

A call to shut down returns when no guard is held. Then nothing is left that could become a
connection (`Shut`), and that stays so. A loop that waits when the signal fires returns quietly
in its next step, and has no other way out (`Bound`); and no connection is left in its handshake
where no task can go on. -/
namespace Parley.Server
open Channel

variable {w w' : World} {s s' : Server} {l : Loop} {now : Nat} {id : CallId} {events : List Event}

/-! ### Nothing is started any more -/

/-- Whether a loop has looked at the signal and has a stream to make a connection of. -/
def Stage.isPast : Stage → Bool
  | .cleared .. | .queued .. => true
  | _ => false

/-- The signal has fired, no connection is there, and no stream can become one. -/
structure Shut (s : Server) : Prop where
  fired : s.shutdown.fired = true
  connections : s.connections = []
  loops : ∀ l ∈ s.loops, l.stage.isPast = false

theorem Shut.setLoop (h : Shut s) {l : Loop} (hl : l.stage.isPast = false) :
    Shut (s.setLoop l) where
  fired := h.fired
  connections := h.connections
  loops x hx := (Keyed.mem_set (k := Loop.id) hx).elim (fun heq => heq ▸ hl) (h.loops x)

theorem Shut.endLoop (h : Shut s) (l : Loop) : Shut (s.endLoop l).1 where
  fired := h.fired
  connections := h.connections
  loops x hx := h.loops x (List.mem_filter.mp hx).1

/-- What is tracked and who is in line does not matter any more. -/
theorem Shut.with (h : Shut s) (t : Tracker) (a : Admission) :
    Shut { s with tracker := t, admission := a } where
  fired := h.fired
  connections := h.connections
  loops := h.loops

theorem Shut.loopStepped (h : Shut w.server) (hl : l ∈ w.server.loops)
    (hstep : LoopStepped w.server now l s events) :
    Shut s ∧ (w.after s events).log.opened = w.log.opened := by
  have hpast := h.loops l hl
  cases hstep with
  | accepts hopen => exact absurd h.fired (by rw [hopen]; decide)
  | @returns l' r =>
    exact ⟨h.endLoop l', (congrArg Record.opened (log_returns w w.server l' r []) :)⟩
  | tracks => exact ⟨(h.with w.server.tracker.track.2 w.server.admission).setLoop rfl, rfl⟩
  | clears hopen => exact absurd h.fired (by rw [hopen]; decide)
  | @givesIn stream =>
    exact ⟨(h.with w.server.tracker.release w.server.admission).endLoop l,
      (congrArg Record.opened (log_returns w (w.server.forget stream).1 l (.ok ()) [stream]) :)⟩
  | queues hstage
  | admits hstage
  | takesUp hstage
  | stopsWaiting _ hstage
  | rejects _ hstage =>
    rw [hstage] at hpast
    cases hpast

theorem Shut.loopDropped (h : Shut s) (hdropped : LoopDropped s l s') : Shut s' := by
  cases hdropped with
  | ends => exact h.endLoop l
  | forgets => exact (h.with s.tracker.release s.admission).endLoop l
  | leaves => exact (h.with s.tracker.release (s.admission.leave l.id)).endLoop l

/-- A shut server stays shut, and starts no connection. -/
theorem Shut.move (h : Shut w.server) (hmove : w.Move w') :
    Shut w'.server ∧ w'.log.opened = w.log.opened := by
  have hnone : ∀ c, c ∉ w.server.connections := fun c hc => by
    rw [h.connections] at hc
    cases hc
  cases hmove with
  | serve =>
    refine ⟨⟨h.fired, h.connections, fun l hl => ?_⟩, rfl⟩
    rcases List.mem_append.mp hl with hl | hl
    · exact h.loops l hl
    · rw [List.mem_singleton.mp hl]
      rfl
  | offer
  | fault =>
    refine ⟨⟨h.fired, h.connections, fun l hl => ?_⟩, rfl⟩
    obtain ⟨l', hl', rfl⟩ := List.mem_map.mp hl
    split <;> exact h.loops l' hl'
  | loop hstep =>
    obtain ⟨l, hl, -, hstep⟩ := loopStepped_of_stepLoop hstep
    exact h.loopStepped hl hstep
  | dropLoop hid =>
    obtain ⟨l, -, -, hdropped, -⟩ := loopDropped_of_mem hid
    rw [after_dropLoop hid]
    exact ⟨h.loopDropped hdropped, rfl⟩
  | begin =>
    exact ⟨⟨h.fired, by rw [beginHandshake, h.connections]; rfl, h.loops⟩, rfl⟩
  | handshake hstep =>
    obtain ⟨c, hc, -⟩ := connectionStepped_of_stepHandshake hstep
    exact absurd hc (hnone c)
  | engine hstep =>
    obtain ⟨c, hc, -⟩ := connectionStepped_of_stepEngine hstep
    exact absurd hc (hnone c)
  | shutdown => exact ⟨⟨rfl, h.connections, h.loops⟩, rfl⟩
  | idle hstep =>
    obtain ⟨-, -, rfl, rfl⟩ := stepIdle_eq_some hstep
    exact ⟨⟨h.fired, h.connections, h.loops⟩, rfl⟩
  | dropIdle => exact ⟨⟨h.fired, h.connections, h.loops⟩, rfl⟩

theorem Shut.leads (h : Shut w.server) (hlater : World.Leads w w') :
    Shut w'.server ∧ w'.log.opened = w.log.opened := by
  induction hlater with
  | refl => exact ⟨h, rfl⟩
  | tail _ hmove ih =>
    obtain ⟨hshut, hopened⟩ := ih
    obtain ⟨hshut', hopened'⟩ := hshut.move hmove
    exact ⟨hshut', hopened'.trans hopened⟩

/-! ### A call to shut down returns -/

theorem Stage.isPast_of_guard? {stage : Stage} (h : stage.guard? = none) :
    stage.isPast = false := by
  cases stage <;> first | rfl | cases h

/-- At the moment a call to shut down returns, nothing is left. -/
theorem shut_of_stepIdle (hk : w.ledger.Kept) (h : w.server.stepIdle id = some (s, events)) :
    Shut s := by
  obtain ⟨hmem, hidle, rfl, -⟩ := stepIdle_eq_some h
  -- No guard is held.
  have hnone : guards w.server.loops (w.server.connections.map (·.guard)) = [] :=
    List.length_eq_zero_iff.mp (hk.tracked.symm.trans hidle)
  obtain ⟨hloops, hconnections⟩ := List.append_eq_nil_iff.mp hnone
  have hfired : w.server.shutdown.fired = true := hk.begun (List.ne_nil_of_mem hmem)
  exact ⟨hfired, List.map_eq_nil_iff.mp hconnections, fun l hl =>
    Stage.isPast_of_guard? (List.filterMap_eq_nil_iff.mp hloops l hl)⟩

/-- No call to shut down returns, or one does and nothing is left. -/
theorem rested_move (hk : w.ledger.Kept) (hmove : w.Move w') :
    w'.log.rested = w.log.rested ∨ Shut w'.server := by
  cases hmove with
  | idle h => exact .inr (shut_of_stepIdle hk h)
  | loop
  | dropLoop
  | handshake
  | engine => exact .inl (w.log.notes_kept _).1
  | serve
  | offer
  | fault
  | begin
  | shutdown
  | dropIdle => exact .inl rfl

/-- Once a call to shut down has returned, nothing is left. -/
theorem shut_of_rested (h : w.Reachable) : w.log.rested ≠ [] → Shut w.server := by
  refine h.induct (motive := fun w => w.log.rested ≠ [] → Shut w.server) ?_ ?_
  · exact fun config connection hne => absurd rfl hne
  · intro w w' hw ih hmove hrested
    rcases rested_move (kept_of_reachable hw) hmove with hsame | hshut
    · exact ((ih (hsame ▸ hrested)).move hmove).1
    · exact hshut

/-! ### Loops return -/

/-- Whether a loop waits: for a stream, for the end of a pause, or for a slot. -/
def Stage.waits : Stage → Bool
  | .accepting | .pausing _ | .queued .. => true
  | _ => false

/-- A loop that waits when the signal has fired returns quietly in its next step, whenever that
is, and drops the streams it has. -/
theorem stepLoop_of_fired (hk : w.ledger.Kept) (hfired : w.server.shutdown.fired = true)
    (hl : l ∈ w.server.loops) (hwaits : l.stage.waits = true) (now : Nat) :
    ∃ s, ∃ streams : List StreamId, w.server.stepLoop now l.id =
      some (s, streams.map .dropped ++ [.returned l.id .done]) := by
  have hfind : w.server.loops.find? (·.id == l.id) = some l :=
    Keyed.find?_of_mem hk.loops_nodup hl
  cases hstage : l.stage with
  | accepting
  | pausing due =>
    simp only [stepLoop, hfind, hstage, hfired, if_true]
    exact ⟨_, l.backlog, rfl⟩
  | queued stream guard =>
    have hmem : l.id ∈ w.server.admission.waiting := by
      refine hk.line.mem_iff.mpr (List.mem_map_of_mem (List.mem_filter.mpr ⟨hl, ?_⟩))
      rw [hstage]
      rfl
    have hwait : w.server.admission.stepWait l.id now true = _ :=
      Admission.stepWait_cancelled hk.waiting_nodup hmem now
    simp only [stepLoop, hfind, hstage, hfired, hwait]
    exact ⟨_, stream :: l.backlog, rfl⟩
  | taken stream
  | tracked stream guard
  | cleared stream guard =>
    rw [hstage] at hwaits
    cases hwaits

theorem mem_returned (w : World) (s : Server) (l : Loop) (r : Except Error Unit)
    (streams : List StreamId) :
    (l.id, .ofResult r) ∈ (w.after (s.loopReturns l r).1
      (streams.map .dropped ++ (s.loopReturns l r).2)).log.returned := by
  rw [log_returns]
  exact List.mem_append_right _ (List.mem_singleton_self _)

/-- A loop that waits when the signal has fired returns. -/
theorem LoopStepped.returns_of_fired (hk : w.ledger.Kept)
    (hstep : LoopStepped w.server now l s events) (hfired : w.server.shutdown.fired = true)
    (hwaits : l.stage.waits = true) : (l.id, .done) ∈ (w.after s events).log.returned := by
  cases hstep with
  | accepts hopen
  | clears hopen
  | rejects hopen => exact absurd hfired (by rw [hopen]; decide)
  | @returns l' r hstage hid hr =>
    rw [hr hfired, ← hid]
    exact mem_returned w w.server l' (.ok ()) []
  | @stopsWaiting stream guard =>
    exact mem_returned w ({ w.server with admission := w.server.admission.leave l.id }.forget
      stream).1 l (.ok ()) [stream]
  | @takesUp stream guard admission hstage h =>
    obtain ⟨hgoes, -⟩ := Admission.stepWait_eq_ok hk.waiting_nodup h
    exact absurd hfired (by rw [hgoes]; decide)
  | tracks hstage
  | givesIn _ hstage
  | queues hstage
  | admits hstage =>
    rw [hstage] at hwaits
    cases hwaits

/-- What a loop that waits when the signal has fired can come to: it stays as it is, or has
returned quietly, or was dropped. -/
structure Bound (w : World) (id : CallId) : Prop where
  fired : w.server.shutdown.fired = true
  fate : (∃ l ∈ w.server.loops, l.id = id ∧ l.stage.waits = true) ∨
    (id, .done) ∈ w.log.returned ∨ id ∈ w.log.dropped

theorem fate_move (hk : w.ledger.Kept) (hfired : w.server.shutdown.fired = true)
    (hl : l ∈ w.server.loops) (hwaits : l.stage.waits = true) (hmove : w.Move w') :
    (∃ m ∈ w'.server.loops, m.id = l.id ∧ m.stage.waits = true) ∨
      (l.id, .done) ∈ w'.log.returned ∨ l.id ∈ w'.log.dropped := by
  cases hmove with
  | serve => exact .inl ⟨l, List.mem_append_left _ hl, rfl, hwaits⟩
  | offer
  | fault =>
    refine .inl ⟨_, List.mem_map_of_mem hl, ?_⟩
    split <;> exact ⟨rfl, hwaits⟩
  | begin
  | shutdown
  | dropIdle => exact .inl ⟨l, hl, rfl, hwaits⟩
  | loop hstep =>
    obtain ⟨m, hm, -, hstep⟩ := loopStepped_of_stepLoop hstep
    rcases eq_or_ne l.id m.id with heq | hne
    · obtain rfl := Keyed.eq_of_mem hk.loops_nodup hl hm heq
      exact .inr (.inl (hstep.returns_of_fired hk hfired hwaits))
    · exact .inl ⟨l, hstep.loops_of_ne hl hne, rfl, hwaits⟩
  | dropLoop hid =>
    obtain ⟨m, -, rfl, hdropped, -⟩ := loopDropped_of_mem hid
    by_cases hm : l.id = m.id
    · rw [hm]
      exact .inr (.inr (List.mem_append_right _ (List.mem_singleton_self _)))
    · have hkept := Keyed.mem_filter_of_ne (k := Loop.id) hl hm
      exact .inl ⟨l, hdropped.loops_eq.symm ▸ hkept, rfl, hwaits⟩
  | handshake hstep =>
    obtain ⟨c, -, -, hstep⟩ := connectionStepped_of_stepHandshake hstep
    exact .inl ⟨l, hstep.loops_eq ▸ hl, rfl, hwaits⟩
  | engine hstep =>
    obtain ⟨c, -, -, hstep⟩ := connectionStepped_of_stepEngine hstep
    exact .inl ⟨l, hstep.loops_eq ▸ hl, rfl, hwaits⟩
  | idle hstep =>
    obtain ⟨-, -, rfl, -⟩ := stepIdle_eq_some hstep
    exact .inl ⟨l, hl, rfl, hwaits⟩

theorem Bound.move (h : Bound w id) (hk : w.ledger.Kept) (hmove : w.Move w') : Bound w' id where
  fired := (World.lasts_move hmove).fired h.fired
  fate := by
    have hlasts := World.lasts_move hmove
    rcases h.fate with ⟨l, hl, rfl, hwaits⟩ | hdone | hgone
    · exact fate_move hk h.fired hl hwaits hmove
    · exact .inr (.inl (hlasts.returned.subset hdone))
    · exact .inr (.inr (hlasts.dropped.subset hgone))

theorem Bound.leads (h : Bound w id) (hw : w.Reachable) (hlater : World.Leads w w') :
    Bound w' id := by
  induction hlater with
  | refl => exact h
  | tail hleads hmove ih => exact ih.move (kept_of_reachable (hw.leads hleads)) hmove

/-- A loop that is still there waits. -/
theorem Bound.waits (h : Bound w l.id) (hk : w.ledger.Kept) (hl : l ∈ w.server.loops) :
    l.stage.waits = true := by
  have hover : l.id ∉ w.log.finished := hk.not_finished hl
  rcases h.fate with ⟨m, hm, hid, hwaits⟩ | hdone | hgone
  · rwa [Keyed.eq_of_mem hk.loops_nodup hl hm hid.symm]
  · exact absurd (w.log.mem_finished hdone) hover
  · exact absurd (List.mem_append_right _ hgone) hover

/-- It comes to nothing else. -/
theorem Bound.only (h : Bound w id) (hk : w.ledger.Kept) {o : Engine.Outcome}
    (ho : (id, o) ∈ w.log.returned) : o = .done := by
  rcases h.fate with ⟨l, hl, rfl, -⟩ | hdone | hgone
  · exact absurd (w.log.mem_finished ho) (hk.not_finished hl)
  · exact w.log.eq_of_returned hk.finished_nodup ho hdone
  · exact absurd hgone (w.log.not_dropped_of_returned hk.finished_nodup ho)

/-! ### Where no task can go on -/

section
variable {env : Env} {view : StreamId → Duplex}

/-- Once the signal has fired every loop can go on, wherever it is. -/
theorem loops_of_settled (hk : w.ledger.Kept) (hfired : w.server.shutdown.fired = true)
    (hsettled : Settled env view w.server) : w.server.loops = [] := by
  refine List.eq_nil_iff_forall_not_mem.mpr fun l hl => ?_
  have hnone := hsettled.loops l.id
  have hfind : w.server.loops.find? (·.id == l.id) = some l :=
    Keyed.find?_of_mem hk.loops_nodup hl
  cases hstage : l.stage with
  | accepting
  | pausing due
  | queued stream guard =>
    obtain ⟨s, streams, hsome⟩ :=
      stepLoop_of_fired hk hfired hl (by rw [hstage]; rfl) env.now
    rw [hsome] at hnone
    cases hnone
  | taken stream =>
    simp only [stepLoop, hfind, hstage] at hnone
    cases hnone
  | tracked stream guard =>
    simp only [stepLoop, hfind, hstage, hfired, if_true] at hnone
    cases hnone
  | cleared stream guard =>
    simp only [stepLoop, hfind, hstage] at hnone
    cases hacquire : w.server.admission.acquire l.id env.now with
    | mk free admission => cases free <;> simp only [hacquire] at hnone <;> cases hnone

/-- **Shutting down does not wait for a handshake**: where no task can go on after the signal has
fired, every connection has an engine, whatever its peer has sent and with or without a deadline. -/
theorem engaged_of_settled (hk : w.ledger.Kept) (hfired : w.server.shutdown.fired = true)
    (hsettled : Settled env view w.server) {c : Connection} (hc : c ∈ w.server.connections) :
    ∃ e, c.progress = .engaged e := by
  have hnone := hsettled.handshakes c hc
  have hnodup : (w.server.connections.map (·.guard)).Nodup := (List.nodup_append.mp hk.guards).2.1
  have hfind : w.server.connections.find? (·.guard == c.guard) = some c :=
    Keyed.find?_of_mem hnodup hc
  cases hprogress : c.progress with
  | engaged e => exact ⟨e, rfl⟩
  | arriving =>
    simp only [stepHandshake, hfind, hprogress, hfired, if_true] at hnone
    cases hnone
  | shaking h =>
    simp only [stepHandshake, hfind, hprogress, hfired, if_true] at hnone
    cases hnone

end
end Parley.Server
