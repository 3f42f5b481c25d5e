import Parley.Proofs.Admission
import Parley.Server.Connection

/-! What one step of a server's tasks can do.

`LoopStepped` lists the steps of an accept loop, one rule for each thing that can happen, with
what has to hold before and what is left after; `ConnectionStepped` does so for a connection, of
which a server only knows whether it has ended. Every step is by one of the rules
(`loopStepped_of_stepLoop`, `connectionStepped_of_stepHandshake`,
`connectionStepped_of_stepEngine`). A loop may also be dropped (`LoopDropped`). -/
namespace Parley.Server
open Channel

/-! ### Accept loops -/

/-- The guard that a loop holds. -/
def Stage.guard? : Stage → Option Nat
  | .tracked _ guard | .cleared _ guard | .queued _ guard => some guard
  | .accepting | .pausing _ | .taken _ => none

/-- Whether a loop waits for nothing but a stream or the end of a pause. -/
def Stage.isOpen : Stage → Bool
  | .accepting | .pausing _ => true
  | _ => false

/-- The loop is over, and so is the stream that it had tracked. -/
def giveIn (s : Server) (l : Loop) (stream : StreamId) : Server × List Event :=
  let (s, events) := (s.forget stream).1.loopReturns l (.ok ())
  (s, .dropped stream :: events)

/-- One step of an accept loop. -/
inductive LoopStepped (s : Server) (now : Nat) (l : Loop) : Server → List Event → Prop where
  /-- A stream is taken, an accept error begins to be waited out, or a pause is over. -/
  | accepts {l'} (hopen : s.shutdown.fired = false) (hstage : l.stage.isOpen = true)
      (hid : l'.id = l.id) (hstage' : l'.stage.guard? = none) :
      LoopStepped s now l (s.setLoop l') []
  | returns {l' r} (hstage : l.stage.isOpen = true) (hid : l'.id = l.id)
      (hr : s.shutdown.fired = true → r = .ok ()) :
      LoopStepped s now l (s.loopReturns l' r).1 (s.loopReturns l' r).2
  | tracks {stream} (hstage : l.stage = .taken stream) :
      LoopStepped s now l
        ({ s with tracker := s.tracker.track.2 }.setLoop
          { l with stage := .tracked stream s.tracker.next }) []
  | clears {stream guard} (hopen : s.shutdown.fired = false)
      (hstage : l.stage = .tracked stream guard) :
      LoopStepped s now l (s.setLoop { l with stage := .cleared stream guard }) []
  | givesIn {stream guard} (hfired : s.shutdown.fired = true)
      (hstage : l.stage = .tracked stream guard) :
      LoopStepped s now l (s.giveIn l stream).1 (s.giveIn l stream).2
  | queues {stream guard admission} (hstage : l.stage = .cleared stream guard)
      (h : s.admission.acquire l.id now = (false, admission)) :
      LoopStepped s now l
        ({ s with admission }.setLoop { l with stage := .queued stream guard }) []
  /-- A stream that was tracked has a slot: there was a free one. -/
  | admits {stream guard admission} (hstage : l.stage = .cleared stream guard)
      (h : s.admission.acquire l.id now = (true, admission)) :
      LoopStepped s now l ({ s with admission }.takeIn l stream guard).1 [.accepted, .opened]
  /-- A stream that was tracked has a slot: it was handed over in line. -/
  | takesUp {stream guard admission} (hstage : l.stage = .queued stream guard)
      (h : s.admission.stepWait l.id now s.shutdown.fired = some (.ok (), admission)) :
      LoopStepped s now l ({ s with admission }.takeIn l stream guard).1 [.accepted, .opened]
  | stopsWaiting {stream guard} (hfired : s.shutdown.fired = true)
      (hstage : l.stage = .queued stream guard) :
      LoopStepped s now l
        ({ s with admission := s.admission.leave l.id }.giveIn l stream).1
        ({ s with admission := s.admission.leave l.id }.giveIn l stream).2
  | rejects {stream guard} (hopen : s.shutdown.fired = false)
      (hstage : l.stage = .queued stream guard) :
      LoopStepped s now l
        (({ s with admission := s.admission.leave l.id }.forget stream).1.setLoop
          { l with stage := .accepting }) [.dropped stream, .rejected]

variable {s s' : Server} {now : Nat} {id guard : Nat} {events : List Event}

theorem loopStepped_of_accept {l : Loop} (hopen : s.shutdown.fired = false)
    (hstage : l.stage = .accepting) (h : s.accept now l = some (s', events)) :
    LoopStepped s now l s' events := by
  have hwaits : l.stage.isOpen = true := by rw [hstage]; rfl
  unfold accept at h
  split at h
  · split at h
    · cases h
      exact .returns hwaits rfl fun _ => rfl
    · cases h
      exact .accepts hopen hwaits rfl rfl
    · cases h
      exact .returns hwaits rfl fun hfired => absurd hfired (by rw [hopen]; decide)
  · cases h
    exact .accepts hopen hwaits rfl rfl
  · cases h

/-- Every step of an accept loop is by one of the rules. -/
theorem loopStepped_of_stepLoop (h : s.stepLoop now id = some (s', events)) :
    ∃ l ∈ s.loops, l.id = id ∧ LoopStepped s now l s' events := by
  unfold stepLoop at h
  cases hl : s.loops.find? (·.id == id) with
  | none => simp only [hl] at h; cases h
  | some l =>
    obtain ⟨hmem, rfl⟩ := Keyed.mem_of_find? hl
    refine ⟨l, hmem, rfl, ?_⟩
    simp only [hl] at h
    cases hstage : l.stage with
    | accepting =>
      simp only [hstage] at h
      split at h
      · cases h
        exact .returns (by rw [hstage]; rfl) rfl fun _ => rfl
      · rename_i hopen
        exact loopStepped_of_accept (Bool.eq_false_iff.mpr hopen) hstage h
    | pausing due =>
      simp only [hstage] at h
      split at h
      · cases h
        exact .returns (by rw [hstage]; rfl) rfl fun _ => rfl
      · rename_i hopen
        split at h
        · cases h
          exact .accepts (Bool.eq_false_iff.mpr hopen) (by rw [hstage]; rfl) rfl rfl
        · cases h
    | taken stream =>
      simp only [hstage] at h
      cases h
      exact .tracks hstage
    | tracked stream guard =>
      simp only [hstage] at h
      split at h
      · rename_i hfired
        cases h
        exact .givesIn hfired hstage
      · rename_i hopen
        cases h
        exact .clears (Bool.eq_false_iff.mpr hopen) hstage
    | cleared stream guard =>
      simp only [hstage] at h
      cases hacquire : s.admission.acquire l.id now with
      | mk free admission =>
        cases free with
        | true =>
          simp only [hacquire] at h
          cases h
          exact .admits hstage hacquire
        | false =>
          simp only [hacquire] at h
          cases h
          exact .queues hstage hacquire
    | queued stream guard =>
      simp only [hstage] at h
      cases hwait : s.admission.stepWait l.id now s.shutdown.fired with
      | none => simp only [hwait] at h; cases h
      | some x =>
        obtain ⟨r, admission⟩ := x
        cases r with
        | ok =>
          simp only [hwait] at h
          cases h
          exact .takesUp hstage hwait
        | error e =>
          obtain ⟨rfl, he⟩ := Admission.stepWait_eq_error hwait
          cases hfired : s.shutdown.fired with
          | true =>
            rw [hfired, if_pos rfl] at he
            simp only [hwait, he] at h
            cases h
            exact .stopsWaiting hfired hstage
          | false =>
            rw [hfired, if_neg Bool.false_ne_true] at he
            simp only [hwait, he] at h
            cases h
            exact .rejects hfired hstage

/-! Whatever a loop does, other loops, the settings and the signal stay as they are. -/

theorem LoopStepped.loops_of_ne {l m : Loop} (hstep : LoopStepped s now l s' events)
    (hm : m ∈ s.loops) (hne : m.id ≠ l.id) : m ∈ s'.loops := by
  cases hstep with
  | @accepts l' hopen hstage hid => exact Keyed.mem_set_of_ne (k := Loop.id) hm (hid ▸ hne)
  | @returns l' r hstage hid => exact Keyed.mem_filter_of_ne (k := Loop.id) hm (hid ▸ hne)
  | givesIn
  | stopsWaiting => exact Keyed.mem_filter_of_ne (k := Loop.id) hm hne
  | tracks
  | clears
  | queues
  | admits
  | takesUp
  | rejects => exact Keyed.mem_set_of_ne (k := Loop.id) (y := { l with stage := _ }) hm hne

theorem LoopStepped.same {l : Loop} (hstep : LoopStepped s now l s' events) :
    s'.config = s.config ∧ s'.shutdown = s.shutdown := by
  cases hstep <;> exact ⟨rfl, rfl⟩

/-! ### Dropping a loop -/

/-- The stream that a loop has taken. -/
def Stage.stream? : Stage → Option StreamId
  | .taken stream | .tracked stream _ | .cleared stream _ | .queued stream _ => some stream
  | .accepting | .pausing _ => none

/-- What a loop that is dropped leaves: it gives back what it holds. -/
inductive LoopDropped (s : Server) (l : Loop) : Server → Prop where
  | ends (hguard : l.stage.guard? = none) : LoopDropped s l (s.endLoop l).1
  | forgets {stream guard}
      (hstage : l.stage = .tracked stream guard ∨ l.stage = .cleared stream guard) :
      LoopDropped s l ((s.forget stream).1.endLoop l).1
  | leaves {stream guard} (hstage : l.stage = .queued stream guard) :
      LoopDropped s l
        (({ s with admission := s.admission.leave l.id }.forget stream).1.endLoop l).1

/-- With a loop its streams are dropped. -/
theorem loopDropped_of_mem (h : id ∈ s.loops.map (·.id)) :
    ∃ l ∈ s.loops, l.id = id ∧ LoopDropped s l (s.dropLoop id).1 ∧
      (s.dropLoop id).2 = (l.stage.stream?.toList ++ l.backlog).map .dropped := by
  obtain ⟨m, hm, rfl⟩ := List.mem_map.mp h
  cases hl : s.loops.find? (·.id == m.id) with
  | none => exact absurd (List.find?_eq_none.mp hl m hm) (by simp)
  | some l =>
    obtain ⟨hmem, hid⟩ := Keyed.mem_of_find? hl
    refine ⟨l, hmem, hid, ?_⟩
    rw [← hid] at hl ⊢
    cases hstage : l.stage with
    | accepting
    | pausing due
    | taken stream =>
      simp only [dropLoop, hl, hstage]
      exact ⟨.ends (by rw [hstage]; rfl), rfl⟩
    | tracked stream guard =>
      simp only [dropLoop, hl, hstage]
      exact ⟨.forgets (.inl hstage), rfl⟩
    | cleared stream guard =>
      simp only [dropLoop, hl, hstage]
      exact ⟨.forgets (.inr hstage), rfl⟩
    | queued stream guard =>
      simp only [dropLoop, hl, hstage]
      exact ⟨.leaves hstage, rfl⟩

theorem LoopDropped.loops_eq {l : Loop} (h : LoopDropped s l s') :
    s'.loops = s.loops.filter (·.id != l.id) := by
  cases h <;> rfl

theorem LoopDropped.same {l : Loop} (h : LoopDropped s l s') :
    s'.config = s.config ∧ s'.shutdown = s.shutdown := by
  cases h <;> exact ⟨rfl, rfl⟩

/-! ### Shutting down -/

/-- A call to shut down returns when nothing is tracked. -/
theorem stepIdle_eq_some (h : s.stepIdle id = some (s', events)) :
    id ∈ s.idling ∧ s.tracker.active = 0 ∧
      s' = { s with idling := s.idling.filter (· != id) } ∧ events = [.returned id .done] := by
  unfold stepIdle at h
  split at h
  · rename_i hready
    obtain ⟨hmem, hidle⟩ := Bool.and_eq_true_iff.mp hready
    cases h
    exact ⟨by simpa using hmem, by simpa [Tracker.isIdle] using hidle, rfl, rfl⟩
  · cases h

/-! ### Connections -/

/-- One step of a connection: it goes on, or it is over. -/
inductive ConnectionStepped (s : Server) (c : Connection) : Server → List Event → Prop where
  | goes {progress} (events : List Engine.Event) :
      ConnectionStepped s c (s.setConnection { c with progress }) (events.map .engine)
  | ends (events : List Event)
      (hevents : ∀ ev ∈ events, ev = .handshakeFailed ∨ ∃ e, ev = .engine e) :
      ConnectionStepped s c (s.endConnection c) (events ++ [.closed])

theorem ConnectionStepped.loops_eq {c : Connection} (hstep : ConnectionStepped s c s' events) :
    s'.loops = s.loops := by
  cases hstep <;> rfl

theorem ConnectionStepped.same {c : Connection} (hstep : ConnectionStepped s c s' events) :
    s'.config = s.config ∧ s'.shutdown = s.shutdown := by
  cases hstep <;> exact ⟨rfl, rfl⟩

theorem connectionStepped_of_stepHandshake {env : Env} {d d' : Duplex}
    (h : s.stepHandshake env guard d = some (s', d', events)) :
    ∃ c ∈ s.connections, c.guard = guard ∧ ConnectionStepped s c s' events := by
  unfold stepHandshake at h
  cases hc : s.connections.find? (·.guard == guard) with
  | none => simp only [hc] at h; cases h
  | some c =>
    obtain ⟨hmem, rfl⟩ := Keyed.mem_of_find? hc
    refine ⟨c, hmem, rfl, ?_⟩
    have hquiet : ConnectionStepped s c (s.endConnection c) [.closed] :=
      .ends [] fun ev hev => absurd hev List.not_mem_nil
    simp only [hc] at h
    cases hprogress : c.progress with
    | engaged e => simp only [hprogress] at h; cases h
    | arriving =>
      simp only [hprogress] at h
      split at h
      · cases h
        exact hquiet
      · cases h
    | shaking x =>
      simp only [hprogress] at h
      split at h
      · cases h
        exact hquiet
      · split at h
        · cases h
        · cases h
          exact .goes []
        · cases h
          exact .goes []
        · cases h
          exact .ends [.handshakeFailed] (by simp)

theorem connectionStepped_of_stepEngine {env : Env} {t : Engine.Task} {d d' : Duplex}
    (h : s.stepEngine env guard t d = some (s', d', events)) :
    ∃ c ∈ s.connections, c.guard = guard ∧ ConnectionStepped s c s' events := by
  unfold stepEngine at h
  cases hc : s.connections.find? (·.guard == guard) with
  | none => simp only [hc] at h; cases h
  | some c =>
    obtain ⟨hmem, rfl⟩ := Keyed.mem_of_find? hc
    refine ⟨c, hmem, rfl, ?_⟩
    simp only [hc] at h
    cases hprogress : c.progress with
    | engaged e =>
      simp only [hprogress] at h
      split at h
      · cases h
      · split at h
        · cases h
          exact .ends _ (by simp)
        · cases h
          exact .goes _
    | arriving => simp only [hprogress] at h; cases h
    | shaking x => simp only [hprogress] at h; cases h

end Parley.Server
