import Parley.Client.Basic
import Parley.Proofs.Admission
import Parley.Proofs.Engine.Rules

/-! What one step of a client's tasks can do.

`DialStepped` lists what can become of a connect call, step by step, and `TaskStepped` what can
become of a connection, whose task is over exactly when its engine's drive is
(`ending_eq`). Every step is by one of the rules (`dialStepped_of_stepDial`,
`dialStepped_of_stepHandshake`, `taskStepped_of_stepEngine`). A connect call may also be dropped
(`DialDropped`), and whatever else is done to a connection leaves the connect calls as they are
(`Beside`). -/
namespace Parley.Client
open Channel

/-! ### Connect calls -/

/-- Whether a connect call is tracked. -/
def Stage.isTracked : Stage → Bool
  | .starting => false
  | _ => true

/-- Whether a connect call waits in line for a slot. -/
def Stage.isQueued : Stage → Bool
  | .queued => true
  | _ => false

/-- Whether a connect call is past admission, and dials or makes its handshake. -/
def Stage.hasSlot : Stage → Bool
  | .dialing _ | .shaking .. => true
  | _ => false

/-- One step of a connect call. -/
inductive DialStepped (c : Client) (now : Nat) (d : Dial) : Client → List Event → Prop where
  | tracks (hstage : d.stage = .starting) :
      DialStepped c now d
        ({ c with tracker := c.tracker.track.2 }.setDial { d with stage := .tracked }) []
  | givesIn (hfired : c.shutdown.fired = true) (hstage : d.stage = .tracked) :
      DialStepped c now d (c.dialFails d .shutdown).1 (c.dialFails d .shutdown).2
  | clears (hopen : c.shutdown.fired = false) (hstage : d.stage = .tracked) :
      DialStepped c now d (c.setDial { d with stage := .cleared }) []
  | queues {admission} (hstage : d.stage = .cleared)
      (h : c.admission.acquire d.id now = (false, admission)) :
      DialStepped c now d ({ c with admission }.setDial { d with stage := .queued }) []
  /-- It has a slot: there was a free one. -/
  | admits {admission} (hstage : d.stage = .cleared)
      (h : c.admission.acquire d.id now = (true, admission)) :
      DialStepped c now d ({ c with admission }.startDialing now d) []
  /-- It has a slot: it was handed over in line. -/
  | takesUp {admission} (hstage : d.stage = .queued)
      (h : c.admission.stepWait d.id now (Signal.subscribed.isCancelled c.shutdown) =
        some (.ok (), admission)) :
      DialStepped c now d ({ c with admission }.startDialing now d) []
  | stopsWaiting {e} (hstage : d.stage = .queued) :
      DialStepped c now d
        ({ c with admission := c.admission.leave d.id }.dialFails d e).1
        ({ c with admission := c.admission.leave d.id }.dialFails d e).2
  /-- Dialing or the handshake has failed. -/
  | fails {e} (hstage : d.stage.hasSlot = true) :
      DialStepped c now d (c.connectFails d e).1 (c.connectFails d e).2
  /-- There is a stream, or the handshake goes on. -/
  | goes {stage} (hstage : d.stage.hasSlot = true) (hstage' : stage.hasSlot = true) :
      DialStepped c now d (c.setDial { d with stage }) []
  /-- There is a key, and a connection is made. -/
  | opens {stream key} (hstage : d.stage.hasSlot = true) :
      DialStepped c now d
        { c with
          dials := c.dials.filter (·.id != d.id)
          connections := c.connections ++ [{ id := d.id, stream, engine := c.engage now key }] }
        [.opened, .returned d.id .done]

variable {c c' : Client} {now : Nat} {id : CallId} {events : List Event}

theorem dialStepped_of_stepDial (h : c.stepDial now id = some (c', events)) :
    ∃ d ∈ c.dials, d.id = id ∧ DialStepped c now d c' events := by
  unfold stepDial at h
  cases hd : c.dials.find? (·.id == id) with
  | none => simp only [hd] at h; cases h
  | some d =>
    obtain ⟨hmem, rfl⟩ := Keyed.mem_of_find? hd
    refine ⟨d, hmem, rfl, ?_⟩
    simp only [hd] at h
    cases hstage : d.stage with
    | starting =>
      simp only [hstage] at h
      cases h
      exact .tracks hstage
    | tracked =>
      simp only [hstage] at h
      split at h
      · rename_i hfired
        cases h
        exact .givesIn hfired hstage
      · rename_i hopen
        cases h
        exact .clears (Bool.eq_false_iff.mpr hopen) hstage
    | cleared =>
      simp only [hstage] at h
      cases hacquire : c.admission.acquire d.id now with
      | mk free admission =>
        cases free with
        | true =>
          simp only [hacquire] at h
          cases h
          exact .admits hstage hacquire
        | false =>
          simp only [hacquire] at h
          cases h
          exact .queues hstage hacquire
    | queued =>
      simp only [hstage] at h
      cases hwait : c.admission.stepWait d.id now (Signal.subscribed.isCancelled c.shutdown) with
      | none => simp only [hwait] at h; cases h
      | some x =>
        obtain ⟨r, admission⟩ := x
        cases r with
        | ok =>
          simp only [hwait] at h
          cases h
          exact .takesUp hstage hwait
        | error e =>
          obtain ⟨rfl, -⟩ := Admission.stepWait_eq_error hwait
          simp only [hwait] at h
          cases h
          exact .stopsWaiting hstage
    | dialing due =>
      simp only [hstage] at h
      obtain ⟨e, -, h⟩ := Option.map_eq_some_iff.mp h
      cases h
      exact .fails (by rw [hstage]; rfl)
    | shaking stream x => simp only [hstage] at h; cases h

theorem dialStepped_of_stepHandshake {s s' : Duplex}
    (h : c.stepHandshake now id s = some (c', s', events)) :
    ∃ d ∈ c.dials, d.id = id ∧ DialStepped c now d c' events := by
  unfold stepHandshake at h
  cases hd : c.dials.find? (·.id == id) with
  | none => simp only [hd] at h; cases h
  | some d =>
    obtain ⟨hmem, rfl⟩ := Keyed.mem_of_find? hd
    refine ⟨d, hmem, rfl, ?_⟩
    simp only [hd] at h
    cases hstage : d.stage with
    | shaking stream x =>
      have hslot : d.stage.hasSlot = true := by rw [hstage]; rfl
      simp only [hstage] at h
      split at h
      · cases h
      · cases h
        exact .goes hslot rfl
      · cases h
        exact .opens hslot
      · cases h
        exact .fails hslot
    | starting
    | tracked
    | cleared
    | queued
    | dialing due => simp only [hstage] at h; cases h

/-- A call that is dialing has a slot. -/
theorem dial_of_dialing (h : (c.dialing id).isSome = true) :
    ∃ d ∈ c.dials, d.id = id ∧ c.dials.find? (·.id == id) = some d ∧
      ∃ due, d.stage = .dialing due := by
  unfold dialing at h
  cases hd : c.dials.find? (·.id == id) with
  | none => simp only [hd] at h; cases h
  | some d =>
    obtain ⟨hmem, hid⟩ := Keyed.mem_of_find? hd
    refine ⟨d, hmem, hid, rfl, ?_⟩
    obtain ⟨id', address, stage⟩ := d
    cases stage with
    | dialing due => exact ⟨due, rfl⟩
    | starting
    | tracked
    | cleared
    | queued
    | shaking stream x => simp only [hd] at h; cases h

theorem dialStepped_refused (h : (c.dialing id).isSome = true) (now : Nat) (e : IoError) :
    ∃ d ∈ c.dials, d.id = id ∧
      DialStepped c now d (c.refused id e).1 (c.refused id e).2 := by
  obtain ⟨d, hmem, hid, hd, due, hstage⟩ := dial_of_dialing h
  refine ⟨d, hmem, hid, ?_⟩
  simp only [refused, hd]
  exact .fails (by rw [hstage]; rfl)

theorem dialStepped_dialed (h : (c.dialing id).isSome = true) (now : Nat) (stream : StreamId)
    (secret : Bytes) :
    ∃ d ∈ c.dials, d.id = id ∧ DialStepped c now d (c.dialed id stream secret) [] := by
  obtain ⟨d, hmem, hid, hd, due, hstage⟩ := dial_of_dialing h
  refine ⟨d, hmem, hid, ?_⟩
  simp only [dialed, hd, hstage]
  exact .goes (by rw [hstage]; rfl) rfl

/-! Whatever a connect call does, other calls, the settings and the signal stay as they are. -/

theorem DialStepped.dials_of_ne {d x : Dial} (h : DialStepped c now d c' events) (hx : x ∈ c.dials)
    (hne : x.id ≠ d.id) : x ∈ c'.dials := by
  cases h with
  | givesIn
  | stopsWaiting
  | fails
  | opens => exact Keyed.mem_filter_of_ne (k := Dial.id) hx hne
  | tracks
  | clears
  | queues
  | admits
  | takesUp
  | goes => exact Keyed.mem_set_of_ne (k := Dial.id) (y := { d with stage := _ }) hx hne

theorem DialStepped.same {d : Dial} (h : DialStepped c now d c' events) :
    c'.config = c.config ∧ c'.shutdown = c.shutdown := by
  cases h <;> exact ⟨rfl, rfl⟩

/-! ### Dropping a connect call -/

/-- The stream of a connect call that makes its handshake. -/
def Stage.stream? : Stage → Option StreamId
  | .shaking stream _ => some stream
  | _ => none

/-- What a connect call that is dropped leaves: it gives back what it has. -/
inductive DialDropped (c : Client) (d : Dial) : Client → Prop where
  | withdraws (hstage : d.stage = .starting) :
      DialDropped c d { c with dials := c.dials.filter (·.id != d.id) }
  | ends (hstage : d.stage = .tracked ∨ d.stage = .cleared) : DialDropped c d (c.endDial d)
  | leaves (hstage : d.stage = .queued) :
      DialDropped c d ({ c with admission := c.admission.leave d.id }.endDial d)
  | vacates (hslot : d.stage.hasSlot = true) :
      DialDropped c d ({ c with admission := c.admission.release }.endDial d)

/-- With a connect call its stream is dropped, if it has one. -/
theorem dialDropped_of_mem (h : id ∈ c.dials.map (·.id)) :
    ∃ d ∈ c.dials, d.id = id ∧ DialDropped c d (c.dropDial id).1 ∧
      (c.dropDial id).2 = d.stage.stream?.toList.map .dropped := by
  obtain ⟨m, hm, rfl⟩ := List.mem_map.mp h
  cases hd : c.dials.find? (·.id == m.id) with
  | none => exact absurd (List.find?_eq_none.mp hd m hm) (by simp)
  | some d =>
    obtain ⟨hmem, hid⟩ := Keyed.mem_of_find? hd
    refine ⟨d, hmem, hid, ?_⟩
    rw [← hid] at hd ⊢
    cases hstage : d.stage with
    | starting =>
      simp only [dropDial, hd, hstage]
      exact ⟨.withdraws hstage, rfl⟩
    | tracked =>
      simp only [dropDial, hd, hstage]
      exact ⟨.ends (.inl hstage), rfl⟩
    | cleared =>
      simp only [dropDial, hd, hstage]
      exact ⟨.ends (.inr hstage), rfl⟩
    | queued =>
      simp only [dropDial, hd, hstage]
      exact ⟨.leaves hstage, rfl⟩
    | dialing due
    | shaking stream x =>
      simp only [dropDial, hd, hstage]
      exact ⟨.vacates (by rw [hstage]; rfl), rfl⟩

theorem DialDropped.dials_eq {d : Dial} (h : DialDropped c d c') :
    c'.dials = c.dials.filter (·.id != d.id) := by
  cases h <;> rfl

theorem DialDropped.same {d : Dial} (h : DialDropped c d c') :
    c'.config = c.config ∧ c'.shutdown = c.shutdown := by
  cases h <;> exact ⟨rfl, rfl⟩

/-! ### Connections -/

/-- Whether a connection's task is not over. -/
def Connection.isLive (k : Connection) : Bool := k.result.isNone

/-- One step of a connection's engine. The task is over when the engine's drive is. -/
inductive TaskStepped (c : Client) (k : Connection) : Client → List Event → Prop where
  | goes {engine} {events : List Engine.Event}
      (hdrive : engine.drive = none ↔ k.engine.drive = none) :
      TaskStepped c k (c.setConnection { k with engine }) (events.map .engine)
  | ends {engine r} {events : List Engine.Event} (hdriven : k.engine.drive ≠ none)
      (hdrive : engine.drive = none) :
      TaskStepped c k
        { c.setConnection { k with engine, result := some r } with
          tracker := c.tracker.release
          admission := c.admission.release }
        (events.map .engine ++ [.closed])

theorem drive_iff {e e' : Engine} {r r' : Engine.Drive} (hr : e.drive = some r)
    (hr' : e'.drive = some r') : e'.drive = none ↔ e.drive = none := by
  rw [hr, hr']
  exact iff_of_false (Option.some_ne_none r') (Option.some_ne_none r)

/-- A step says that the drive has ended when it has, and only then. -/
theorem ending_eq {env : Engine.Env} {e e' : Engine} {d d' : Duplex} {events : List Engine.Event}
    (h : Engine.Stepped env e d e' d' events) :
    (ending events = none ∧ (e'.drive = none ↔ e.drive = none)) ∨
      (∃ r, ending events = some r) ∧ e.drive ≠ none ∧ e'.drive = none := by
  cases h with
  | notified => exact .inl ⟨rfl, Iff.rfl⟩
  | answered
  | expired =>
    rw [Engine.leave_eq]
    exact .inl ⟨rfl, Iff.rfl⟩
  | closed hr
  | closeFailed hr
  | writeFailed hr => exact .inr ⟨⟨_, rfl⟩, by rw [hr]; exact Option.some_ne_none _, rfl⟩
  | readEnded hr
  | readExpired hr
  | overflowed hr =>
    rw [Engine.readLoopEnds_eq]
    exact .inl ⟨rfl, drive_iff hr rfl⟩
  | cancelled hr
  | draining hr
  | batched hr
  | emptied hr
  | waited hr
  | woken hr
  | batchDone hr
  | begun hr
  | placing hr
  | placed hr
  | flushing hr
  | flushed hr
  | collected hr
  | handed hr
  | resolved hr
  | handled hr
  | replied hr => exact .inl ⟨rfl, drive_iff hr rfl⟩

theorem taskStepped_of_stepEngine {env : Env} {t : Engine.Task} {s s' : Duplex}
    (h : c.stepEngine env id t s = some (c', s', events)) :
    ∃ k ∈ c.connections, k.id = id ∧ TaskStepped c k c' events := by
  unfold stepEngine at h
  cases hk : c.connections.find? (·.id == id) with
  | none => simp only [hk] at h; cases h
  | some k =>
    obtain ⟨hmem, rfl⟩ := Keyed.mem_of_find? hk
    refine ⟨k, hmem, rfl, ?_⟩
    simp only [hk] at h
    cases hstep : k.engine.step (env.engine k) t s with
    | none => simp only [hstep] at h; cases h
    | some x =>
      obtain ⟨e, d, evs⟩ := x
      simp only [hstep] at h
      rcases ending_eq (Engine.stepped_of_step hstep) with
        ⟨hnone, hdrive⟩ | ⟨⟨r, hsome⟩, hdriven, hdrive⟩
      · simp only [hnone] at h
        cases h
        exact .goes hdrive
      · simp only [hsome] at h
        cases h
        exact .ends hdriven hdrive

/-- A new connection's engine drives its stream. -/
theorem drive_engage (c : Client) (now : Nat) (key : SessionKey) :
    (c.engage now key).drive ≠ none := by
  simp only [engage, Engine.start]
  exact Option.some_ne_none _

/-! ### What else is done to a connection -/

/-- A connection that has not ended is told of the client's signal. -/
theorem stepRelay_eq_some (h : c.stepRelay id = some (c', events)) :
    ∃ k ∈ c.connections, k.id = id ∧ k.result = none ∧
      Signal.subscribed.isCancelled c.shutdown = true ∧ k.own.fired = false ∧
      c' = c.setConnection { k with own := k.own.trigger.2 } ∧ events = [] := by
  unfold stepRelay at h
  split at h
  · cases h
  · rename_i k hk
    obtain ⟨hmem, hid⟩ := Keyed.mem_of_find? hk
    split at h
    · rename_i htold
      simp only [Bool.and_eq_true, Option.isNone_iff_eq_none, Bool.not_eq_true'] at htold
      cases h
      exact ⟨k, hmem, hid, htold.1.1, htold.1.2, htold.2, rfl, rfl⟩
    · cases h

/-- The call that waits for the end of a connection returns how it ended. -/
theorem stepEnd_eq_some (h : c.stepEnd id = some (c', events)) :
    ∃ k ∈ c.connections, k.id = id ∧ ∃ call r, k.awaiting = some call ∧ k.result = some r ∧
      c' = c.setConnection { k with awaiting := none } ∧
      events = [.returned call (.ofResult r)] := by
  unfold stepEnd at h
  split at h
  · cases h
  · rename_i k hk
    obtain ⟨hmem, hid⟩ := Keyed.mem_of_find? hk
    split at h
    · rename_i call r hcall hresult
      cases h
      exact ⟨k, hmem, hid, call, r, hcall, hresult, rfl, rfl⟩
    · cases h

theorem join_eq_true {call : CallId} (h : c.join id call = (true, c')) :
    ∃ k ∈ c.connections, k.id = id ∧ k.held = true ∧
      c' = c.setConnection { k with held := false, awaiting := some call } := by
  unfold join at h
  split at h
  · rename_i k hk
    obtain ⟨hmem, hid⟩ := Keyed.mem_of_find? hk
    split at h
    · rename_i hheld
      cases h
      exact ⟨k, hmem, hid, hheld, rfl⟩
    · cases h
  · cases h

theorem cancel_eq (c : Client) (id : CallId) :
    c.cancel id = c ∨ ∃ k ∈ c.connections, k.id = id ∧
      c.cancel id = c.setConnection { k with own := k.own.trigger.2 } := by
  unfold cancel
  split
  · rename_i k hk
    obtain ⟨hmem, hid⟩ := Keyed.mem_of_find? hk
    exact .inr ⟨k, hmem, hid, rfl⟩
  · exact .inl rfl

/-- Closing a connection is telling it to end and waiting for that. -/
theorem close_eq_true {call : CallId} (h : c.close id call = (true, c')) :
    ∃ c₁, c.join id call = (true, c₁) ∧ c' = c₁.cancel id := by
  unfold close at h
  split at h
  · rename_i c₁ hjoin
    cases h
    exact ⟨c₁, hjoin, rfl⟩
  · cases h

theorem letGo_eq (c : Client) (id : CallId) :
    c.letGo id = c ∨ ∃ k ∈ c.connections, k.id = id ∧ k.held = true ∧
      c.letGo id = c.setConnection { k with held := false, own := k.own.trigger.2 } := by
  unfold letGo
  split
  · rename_i k hk
    obtain ⟨hmem, hid⟩ := Keyed.mem_of_find? hk
    split
    · rename_i hheld
      exact .inr ⟨k, hmem, hid, hheld, rfl⟩
    · exact .inl rfl
  · exact .inl rfl

/-! ### Shutting down -/

/-- A call to shut down returns when nothing is tracked. -/
theorem stepIdle_eq_some (h : c.stepIdle id = some (c', events)) :
    id ∈ c.idling ∧ c.tracker.active = 0 ∧
      c' = { c with idling := c.idling.filter (· != id) } ∧ events = [.returned id .done] := by
  unfold stepIdle at h
  split at h
  · rename_i hready
    obtain ⟨hmem, hidle⟩ := Bool.and_eq_true_iff.mp hready
    cases h
    exact ⟨by simpa using hmem, by simpa [Tracker.isIdle] using hidle, rfl, rfl⟩
  · cases h

/-! ### What is only about connections -/

/-- The settings, the signal and the connect calls are as they were. -/
structure Beside (c c' : Client) : Prop where
  config : c'.config = c.config
  shutdown : c'.shutdown = c.shutdown
  dials : c'.dials = c.dials

theorem Beside.trans {c₁ : Client} (h : Beside c c₁) (h' : Beside c₁ c') : Beside c c' where
  config := h'.config.trans h.config
  shutdown := h'.shutdown.trans h.shutdown
  dials := h'.dials.trans h.dials

theorem beside_setConnection (c : Client) (k : Connection) : Beside c (c.setConnection k) :=
  ⟨rfl, rfl, rfl⟩

theorem beside_taskStepped {k : Connection} (h : TaskStepped c k c' events) : Beside c c' := by
  cases h <;> exact ⟨rfl, rfl, rfl⟩

theorem beside_cancel (c : Client) (id : CallId) : Beside c (c.cancel id) := by
  rcases cancel_eq c id with hsame | ⟨k, -, -, hset⟩
  · rw [hsame]
    exact ⟨rfl, rfl, rfl⟩
  · rw [hset]
    exact beside_setConnection c _

theorem beside_join {call : CallId} (h : c.join id call = (true, c')) : Beside c c' := by
  obtain ⟨k, -, -, -, rfl⟩ := join_eq_true h
  exact beside_setConnection c _

theorem beside_close {call : CallId} (h : c.close id call = (true, c')) : Beside c c' := by
  obtain ⟨c₁, hjoin, rfl⟩ := close_eq_true h
  exact (beside_join hjoin).trans (beside_cancel c₁ id)

theorem beside_letGo (c : Client) (id : CallId) : Beside c (c.letGo id) := by
  rcases letGo_eq c id with hsame | ⟨k, -, -, -, hset⟩
  · rw [hsame]
    exact ⟨rfl, rfl, rfl⟩
  · rw [hset]
    exact beside_setConnection c _

theorem beside_stepRelay (h : c.stepRelay id = some (c', events)) : Beside c c' := by
  obtain ⟨k, -, -, -, -, -, rfl, -⟩ := stepRelay_eq_some h
  exact beside_setConnection c _

theorem beside_stepEnd (h : c.stepEnd id = some (c', events)) : Beside c c' := by
  obtain ⟨k, -, -, call, r, -, -, rfl, -⟩ := stepEnd_eq_some h
  exact beside_setConnection c _

theorem beside_stepIdle (h : c.stepIdle id = some (c', events)) : Beside c c' := by
  obtain ⟨-, -, rfl, -⟩ := stepIdle_eq_some h
  exact ⟨rfl, rfl, rfl⟩

end Parley.Client
