import Parley.Proofs.Client.Books

/-! A client once its signal has fired.

A call to shut down returns when nothing is tracked. Then no connection is left that has not
ended, and no connect call that could make one (`Shut`), and that stays so. A connect call that
has not looked at the signal when it fires fails for it, and has no other way out (`Doomed`). One
that dials or makes its handshake does not look at the signal again. -/
namespace Parley.Client
open Channel

variable {w w' : World} {c c' : Client} {d : Dial} {k m : Connection} {now : Nat} {id : CallId}
  {events : List Event}

/-! ### Nothing is started any more -/

/-- Whether a connect call has still to look at the signal. -/
def Stage.isEarly : Stage → Bool
  | .starting | .tracked => true
  | _ => false

theorem Stage.isEarly_of_hasSlot {stage : Stage} (h : stage.hasSlot = true) :
    stage.isEarly = false := by
  cases stage <;> first | rfl | cases h

/-- The signal has fired, every connection has ended, and no connect call can make one. -/
structure Shut (c : Client) : Prop where
  fired : c.shutdown.fired = true
  connections : ∀ k ∈ c.connections, k.isLive = false
  dials : ∀ d ∈ c.dials, d.stage.isEarly = true

theorem Shut.setDial (h : Shut c) (hd : d.stage.isEarly = true) : Shut (c.setDial d) where
  fired := h.fired
  connections := h.connections
  dials x hx := (Keyed.mem_set (k := Dial.id) hx).elim (fun heq => heq ▸ hd) (h.dials x)

theorem Shut.filterDials (h : Shut c) (p : Dial → Bool) :
    Shut { c with dials := c.dials.filter p } where
  fired := h.fired
  connections := h.connections
  dials x hx := h.dials x (List.mem_filter.mp hx).1

/-- What is tracked and who is in line does not matter any more. -/
theorem Shut.with (h : Shut c) (t : Tracker) (a : Admission) :
    Shut { c with tracker := t, admission := a } where
  fired := h.fired
  connections := h.connections
  dials := h.dials

theorem Shut.setConnection (h : Shut c) (hm : m.isLive = false) : Shut (c.setConnection m) where
  fired := h.fired
  connections k hk :=
    (Keyed.mem_set (k := Connection.id) hk).elim (fun heq => heq ▸ hm) (h.connections k)
  dials := h.dials

theorem Shut.mapConnections (h : Shut c) {f : Connection → Connection}
    (hf : ∀ k, (f k).isLive = k.isLive) : Shut { c with connections := c.connections.map f } where
  fired := h.fired
  connections k hk := by
    obtain ⟨k', hk', rfl⟩ := List.mem_map.mp hk
    rw [hf]
    exact h.connections k' hk'
  dials := h.dials

theorem Shut.dialStepped (h : Shut w.client) (hd : d ∈ w.client.dials)
    (hstep : DialStepped w.client now d c events) :
    Shut c ∧ (w.after c events).log.opened = w.log.opened := by
  have hearly := h.dials d hd
  cases hstep with
  | tracks => exact ⟨(h.with w.client.tracker.track.2 w.client.admission).setDial rfl, rfl⟩
  | givesIn =>
    exact ⟨(h.with w.client.tracker.release w.client.admission).filterDials _, rfl⟩
  | clears hopen => exact absurd h.fired (by rw [hopen]; decide)
  | queues hstage
  | admits hstage
  | takesUp hstage
  | stopsWaiting hstage =>
    rw [hstage] at hearly
    cases hearly
  | fails hslot
  | goes hslot
  | opens hslot =>
    rw [Stage.isEarly_of_hasSlot hslot] at hearly
    cases hearly

theorem Shut.taskStepped (h : Shut w.client) (hk : w.ledger.Kept) (hmem : k ∈ w.client.connections)
    (hstep : TaskStepped w.client k c events) :
    Shut c ∧ (w.after c events).log.opened = w.log.opened := by
  have hover := h.connections k hmem
  cases hstep with
  | @goes engine events =>
    exact ⟨h.setConnection (m := { k with engine }) hover,
      (congrArg Record.opened (w.log.notes_engine events) :)⟩
  | ends hdriven => exact absurd hover (by rw [(hk.sound k hmem).driven.mpr hdriven]; decide)

theorem Shut.cancel (h : Shut c) (id : CallId) : Shut (c.cancel id) := by
  rcases cancel_eq c id with hsame | ⟨k, hk, -, hset⟩
  · rw [hsame]
    exact h
  · rw [hset]
    exact h.setConnection (h.connections k hk)

theorem Shut.join {call : CallId} (h : Shut c) (hjoin : c.join id call = (true, c')) : Shut c' := by
  obtain ⟨k, hk, -, -, rfl⟩ := join_eq_true hjoin
  exact h.setConnection (h.connections k hk)

theorem Shut.dialDropped (h : Shut c) (hd : d ∈ c.dials) (hdropped : DialDropped c d c') :
    Shut c' := by
  have hearly := h.dials d hd
  cases hdropped with
  | withdraws => exact h.filterDials _
  | ends => exact (h.with c.tracker.release c.admission).filterDials _
  | leaves hstage =>
    rw [hstage] at hearly
    cases hearly
  | vacates hslot =>
    rw [Stage.isEarly_of_hasSlot hslot] at hearly
    cases hearly

/-- A shut client stays shut, and starts no connection. -/
theorem Shut.move (h : Shut w.client) (hk : w.ledger.Kept) (hmove : w.Move w') :
    Shut w'.client ∧ w'.log.opened = w.log.opened := by
  cases hmove with
  | connect =>
    refine ⟨⟨h.fired, h.connections, fun d hd => ?_⟩, rfl⟩
    rcases List.mem_append.mp hd with hd | hd
    · exact h.dials d hd
    · rw [List.mem_singleton.mp hd]
      rfl
  | dial hstep =>
    obtain ⟨d, hd, -, hstep⟩ := dialStepped_of_stepDial hstep
    exact h.dialStepped hd hstep
  | @refused id e hdialing =>
    obtain ⟨d, hd, -, hstep⟩ := dialStepped_refused hdialing 0 e
    exact h.dialStepped hd hstep
  | @dialed id stream secret hdialing =>
    obtain ⟨d, hd, -, hstep⟩ := dialStepped_dialed hdialing 0 stream secret
    exact h.dialStepped hd hstep
  | handshake hstep =>
    obtain ⟨d, hd, -, hstep⟩ := dialStepped_of_stepHandshake hstep
    exact h.dialStepped hd hstep
  | dropDial hid =>
    obtain ⟨d, hd, -, hdropped, -⟩ := dialDropped_of_mem hid
    rw [after_dropDial hid]
    exact ⟨h.dialDropped hd hdropped, rfl⟩
  | call => exact ⟨h.mapConnections fun k => by split <;> rfl, rfl⟩
  | dropCall => exact ⟨h.mapConnections fun k => rfl, rfl⟩
  | engine hstep =>
    obtain ⟨k, hmem, -, hstep⟩ := taskStepped_of_stepEngine hstep
    exact h.taskStepped hk hmem hstep
  | relay hstep =>
    obtain ⟨k, hmem, -, -, -, -, rfl, rfl⟩ := stepRelay_eq_some hstep
    exact ⟨h.setConnection (h.connections k hmem), rfl⟩
  | ending hstep =>
    obtain ⟨k, hmem, -, call, r, -, -, rfl, rfl⟩ := stepEnd_eq_some hstep
    exact ⟨h.setConnection (h.connections k hmem), rfl⟩
  | join _ hjoin => exact ⟨h.join hjoin, rfl⟩
  | @close id call c _ hclose =>
    obtain ⟨c₁, hjoin, rfl⟩ := close_eq_true hclose
    exact ⟨(h.join hjoin).cancel id, rfl⟩
  | @letGo id =>
    refine ⟨?_, rfl⟩
    rcases letGo_eq w.client id with hsame | ⟨k, hmem, -, -, hset⟩
    · exact hsame.symm ▸ h
    · exact hset.symm ▸ h.setConnection (h.connections k hmem)
  | dropEnd => exact ⟨h.mapConnections fun k => by split <;> rfl, rfl⟩
  | shutdown => exact ⟨⟨rfl, h.connections, h.dials⟩, rfl⟩
  | idle hstep =>
    obtain ⟨-, -, rfl, rfl⟩ := stepIdle_eq_some hstep
    exact ⟨⟨h.fired, h.connections, h.dials⟩, rfl⟩
  | dropIdle
  | drop => exact ⟨⟨h.fired, h.connections, h.dials⟩, rfl⟩

theorem Shut.leads (h : Shut w.client) (hw : w.Reachable) (hlater : World.Leads w w') :
    Shut w'.client ∧ w'.log.opened = w.log.opened := by
  induction hlater with
  | refl => exact ⟨h, rfl⟩
  | tail hleads hmove ih =>
    obtain ⟨hshut, hopened⟩ := ih
    obtain ⟨hshut', hopened'⟩ := hshut.move (kept_of_reachable (hw.leads hleads)) hmove
    exact ⟨hshut', hopened'.trans hopened⟩

/-! ### A call to shut down returns -/

/-- A connect call that is not tracked has not looked at the signal. -/
theorem Stage.isEarly_of_isTracked {stage : Stage} (h : stage.isTracked = false) :
    stage.isEarly = true := by
  cases stage <;> first | rfl | cases h

/-- At the moment a call to shut down returns, nothing is left. -/
theorem shut_of_stepIdle (hk : w.ledger.Kept) (h : w.client.stepIdle id = some (c, events)) :
    Shut c := by
  obtain ⟨hmem, hidle, rfl, -⟩ := stepIdle_eq_some h
  obtain ⟨hdials, hlive⟩ := Nat.add_eq_zero_iff.mp (hk.tracked.symm.trans hidle)
  refine ⟨hk.begun (List.ne_nil_of_mem hmem), fun k hk' => ?_, fun d hd => ?_⟩
  · exact Bool.eq_false_iff.mpr (List.countP_eq_zero.mp hlive k hk')
  · exact Stage.isEarly_of_isTracked
      (Bool.eq_false_iff.mpr (List.countP_eq_zero.mp hdials d hd))

/-- No call to shut down returns, or one does and nothing is left. -/
theorem rested_move (hk : w.ledger.Kept) (hmove : w.Move w') :
    w'.log.rested = w.log.rested ∨ Shut w'.client := by
  cases hmove with
  | idle h => exact .inr (shut_of_stepIdle hk h)
  | dial
  | refused
  | handshake
  | dropDial
  | engine
  | relay
  | ending => exact .inl (w.log.notes_kept _).1
  | connect
  | dialed
  | call
  | dropCall
  | join
  | close
  | letGo
  | dropEnd
  | shutdown
  | dropIdle
  | drop => exact .inl rfl

/-- Once a call to shut down has returned, nothing is left. -/
theorem shut_of_rested (h : w.Reachable) : w.log.rested ≠ [] → Shut w.client := by
  refine h.induct (motive := fun w => w.log.rested ≠ [] → Shut w.client) ?_ ?_
  · exact fun config connection hne => absurd rfl hne
  · intro w w' hw ih hmove hrested
    have hk := kept_of_reachable hw
    rcases rested_move hk hmove with hsame | hshut
    · exact ((ih (hsame ▸ hrested)).move hk hmove).1
    · exact hshut

/-! ### Connect calls fail -/

/-- A connect call that is tracked when the signal has fired fails in its next step, whenever
that is. -/
theorem stepDial_of_fired (hk : w.ledger.Kept) (hfired : w.client.shutdown.fired = true)
    (hd : d ∈ w.client.dials) (hstage : d.stage = .tracked) (now : Nat) :
    ∃ c, w.client.stepDial now d.id = some (c, [.returned d.id (.failed .shutdown)]) := by
  have hfind : w.client.dials.find? (·.id == d.id) = some d :=
    Keyed.find?_of_mem hk.dials_nodup hd
  simp only [stepDial, hfind, hstage, hfired, if_true]
  exact ⟨_, rfl⟩

/-- And one that has yet to be tracked is tracked in its next step. -/
theorem stepDial_of_starting (hk : w.ledger.Kept) (hd : d ∈ w.client.dials)
    (hstage : d.stage = .starting) (now : Nat) :
    ∃ c, w.client.stepDial now d.id = some (c, []) ∧
      { d with stage := .tracked } ∈ c.dials := by
  have hfind : w.client.dials.find? (·.id == d.id) = some d :=
    Keyed.find?_of_mem hk.dials_nodup hd
  simp only [stepDial, hfind, hstage]
  refine ⟨_, rfl, List.mem_map.mpr ⟨d, hd, if_pos rfl⟩⟩

/-- What a connect call that has still to look at the signal can come to once that has fired: it
has still to do so, or has failed for it, or was dropped. -/
def Fate (w : World) (id : CallId) : Prop :=
  (∃ d ∈ w.client.dials, d.id = id ∧ d.stage.isEarly = true) ∨
    (id, .failed .shutdown) ∈ w.log.returned ∨ id ∈ w.log.dropped

theorem DialStepped.fate (hstep : DialStepped w.client now d c events)
    (hfired : w.client.shutdown.fired = true) (hd : d ∈ w.client.dials)
    (hearly : d.stage.isEarly = true) : Fate (w.after c events) d.id := by
  cases hstep with
  | tracks => exact .inl ⟨_, List.mem_map.mpr ⟨d, hd, if_pos rfl⟩, rfl, rfl⟩
  | givesIn => exact .inr (.inl (List.mem_append_right _ (List.mem_singleton_self _)))
  | clears hopen => exact absurd hfired (by rw [hopen]; decide)
  | queues hstage
  | admits hstage
  | takesUp hstage
  | stopsWaiting hstage =>
    rw [hstage] at hearly
    cases hearly
  | fails hslot
  | goes hslot
  | opens hslot =>
    rw [Stage.isEarly_of_hasSlot hslot] at hearly
    cases hearly

/-- What becomes of connect calls when something happens to one of them. -/
theorem fate_dialStepped (hk : w.ledger.Kept) {x : Dial} (hx : x ∈ w.client.dials)
    (hstep : DialStepped w.client now x c events) (hfired : w.client.shutdown.fired = true)
    (hd : d ∈ w.client.dials) (hearly : d.stage.isEarly = true) : Fate (w.after c events) d.id := by
  rcases eq_or_ne d.id x.id with heq | hne
  · obtain rfl := Keyed.eq_of_mem hk.dials_nodup hd hx heq
    exact hstep.fate hfired hd hearly
  · exact .inl ⟨d, hstep.dials_of_ne hd hne, rfl, hearly⟩

theorem Beside.fate (h : Beside w.client c) (hd : d ∈ w.client.dials)
    (hearly : d.stage.isEarly = true) (hw : w'.client = c) : Fate w' d.id :=
  .inl ⟨d, hw ▸ h.dials ▸ hd, rfl, hearly⟩

theorem fate_move (hk : w.ledger.Kept) (hfired : w.client.shutdown.fired = true)
    (hd : d ∈ w.client.dials) (hearly : d.stage.isEarly = true) (hmove : w.Move w') :
    Fate w' d.id := by
  cases hmove with
  | connect => exact .inl ⟨d, List.mem_append_left _ hd, rfl, hearly⟩
  | dial hstep =>
    obtain ⟨x, hx, -, hstep⟩ := dialStepped_of_stepDial hstep
    exact fate_dialStepped hk hx hstep hfired hd hearly
  | @refused id e hdialing =>
    obtain ⟨x, hx, -, hstep⟩ := dialStepped_refused hdialing 0 e
    exact fate_dialStepped hk hx hstep hfired hd hearly
  | @dialed id stream secret hdialing =>
    obtain ⟨x, hx, -, hstep⟩ := dialStepped_dialed hdialing 0 stream secret
    exact fate_dialStepped hk hx hstep hfired hd hearly
  | handshake hstep =>
    obtain ⟨x, hx, -, hstep⟩ := dialStepped_of_stepHandshake hstep
    exact fate_dialStepped hk hx hstep hfired hd hearly
  | dropDial hid =>
    obtain ⟨x, -, rfl, hdropped, -⟩ := dialDropped_of_mem hid
    by_cases hx : d.id = x.id
    · rw [hx]
      exact .inr (.inr (List.mem_append_right _ (List.mem_singleton_self _)))
    · have hkept := Keyed.mem_filter_of_ne (k := Dial.id) hd hx
      exact .inl ⟨d, hdropped.dials_eq.symm ▸ hkept, rfl, hearly⟩
  | engine hstep =>
    obtain ⟨k, -, -, hstep⟩ := taskStepped_of_stepEngine hstep
    exact (beside_taskStepped hstep).fate hd hearly rfl
  | relay hstep => exact (beside_stepRelay hstep).fate hd hearly rfl
  | ending hstep => exact (beside_stepEnd hstep).fate hd hearly rfl
  | join _ hjoin => exact (beside_join hjoin).fate hd hearly rfl
  | close _ hclose => exact (beside_close hclose).fate hd hearly rfl
  | letGo => exact (beside_letGo w.client _).fate hd hearly rfl
  | idle hstep => exact (beside_stepIdle hstep).fate hd hearly rfl
  | call
  | dropCall
  | dropEnd
  | shutdown
  | dropIdle
  | drop => exact .inl ⟨d, hd, rfl, hearly⟩

/-- A connect call that had still to look at the signal when that fired. -/
structure Doomed (w : World) (id : CallId) : Prop where
  fired : w.client.shutdown.fired = true
  fate : Fate w id

theorem Doomed.move (h : Doomed w id) (hk : w.ledger.Kept) (hmove : w.Move w') :
    Doomed w' id where
  fired := (World.lasts_move hmove).fired h.fired
  fate := by
    have hlasts := World.lasts_move hmove
    rcases h.fate with ⟨d, hd, rfl, hearly⟩ | hfailed | hgone
    · exact fate_move hk h.fired hd hearly hmove
    · exact .inr (.inl (hlasts.returned.subset hfailed))
    · exact .inr (.inr (hlasts.dropped.subset hgone))

theorem Doomed.leads (h : Doomed w id) (hw : w.Reachable) (hlater : World.Leads w w') :
    Doomed w' id := by
  induction hlater with
  | refl => exact h
  | tail hleads hmove ih => exact ih.move (kept_of_reachable (hw.leads hleads)) hmove

/-- If it is still there, it has still to look at the signal. -/
theorem Doomed.early (h : Doomed w d.id) (hk : w.ledger.Kept) (hd : d ∈ w.client.dials) :
    d.stage.isEarly = true := by
  have hover : d.id ∉ w.log.finished := hk.not_finished hd
  rcases h.fate with ⟨x, hx, hid, hearly⟩ | hfailed | hgone
  · rwa [Keyed.eq_of_mem hk.dials_nodup hd hx hid.symm]
  · exact absurd (w.log.mem_finished hfailed) hover
  · exact absurd (List.mem_append_right _ hgone) hover

/-- It comes to nothing else. -/
theorem Doomed.only (h : Doomed w id) (hk : w.ledger.Kept) {o : Engine.Outcome}
    (ho : (id, o) ∈ w.log.returned) : o = .failed .shutdown := by
  rcases h.fate with ⟨d, hd, rfl, -⟩ | hfailed | hgone
  · exact absurd (w.log.mem_finished ho) (hk.not_finished hd)
  · exact w.log.eq_of_returned hk.finished_nodup ho hfailed
  · exact absurd hgone (w.log.not_dropped_of_returned hk.finished_nodup ho)

/-! ### Where no task can go on -/

section
variable {env : Env} {view : StreamId → Duplex}

/-- Once the signal has fired, every connect call that has no slot can go on. -/
theorem dials_of_settled (hk : w.ledger.Kept) (hfired : w.client.shutdown.fired = true)
    (hsettled : Settled env view w.client) (hd : d ∈ w.client.dials) : d.stage.hasSlot = true := by
  have hnone := hsettled.dials d.id
  have hfind : w.client.dials.find? (·.id == d.id) = some d :=
    Keyed.find?_of_mem hk.dials_nodup hd
  cases hstage : d.stage with
  | dialing due
  | shaking stream x => rfl
  | starting =>
    obtain ⟨c, hsome, -⟩ := stepDial_of_starting hk hd hstage env.now
    rw [hsome] at hnone
    cases hnone
  | tracked =>
    obtain ⟨c, hsome⟩ := stepDial_of_fired hk hfired hd hstage env.now
    rw [hsome] at hnone
    cases hnone
  | cleared =>
    simp only [stepDial, hfind, hstage] at hnone
    cases hacquire : w.client.admission.acquire d.id env.now with
    | mk free admission => cases free <;> simp only [hacquire] at hnone <;> cases hnone
  | queued =>
    have hmem : d.id ∈ w.client.admission.waiting := by
      refine hk.line.mem_iff.mpr (List.mem_map_of_mem (List.mem_filter.mpr ⟨hd, ?_⟩))
      rw [hstage]
      rfl
    have hcancelled : Signal.subscribed.isCancelled w.client.shutdown = true := by
      rw [Signal.isCancelled, hfired]
      rfl
    have hwait : w.client.admission.stepWait d.id env.now true = _ :=
      Admission.stepWait_cancelled hk.waiting_nodup hmem env.now
    simp only [stepDial, hfind, hstage, hcancelled, hwait] at hnone
    cases hnone

/-- The time of those that have one is not up. -/
theorem due_of_settled (hk : w.ledger.Kept) (hsettled : Settled env view w.client)
    (hd : d ∈ w.client.dials) {due : Nat} (hdue : due ∈ d.stage.dues) : env.now < due := by
  have hfind : w.client.dials.find? (·.id == d.id) = some d :=
    Keyed.find?_of_mem hk.dials_nodup hd
  by_contra hup
  have hpast : due ≤ env.now := Nat.le_of_not_lt hup
  cases hstage : d.stage with
  | starting
  | tracked
  | cleared
  | queued =>
    rw [hstage] at hdue
    cases hdue
  | dialing limit =>
    have hnone := hsettled.dials d.id
    rw [hstage] at hdue
    rw [Option.mem_toList.mp hdue] at hstage
    rw [stepDial, hfind] at hnone
    simp only [hstage, expired_some, if_pos hpast] at hnone
    cases hnone
  | shaking stream x =>
    have hnone := hsettled.handshakes d hd stream x hstage
    have hlimit : x.due = some due := by
      rw [hstage] at hdue
      exact Option.mem_toList.mp hdue
    simp only [stepHandshake, hfind, hstage] at hnone
    cases hstep : x.step .client env.now (view stream) with
    | none =>
      simp only [Handshake.step, hlimit, expired_some, if_pos hpast] at hstep
      split at hstep
      · cases hstep
      · split at hstep <;> cases hstep
    | some progress =>
      rw [hstep] at hnone
      cases progress <;> cases hnone

end
end Parley.Client
