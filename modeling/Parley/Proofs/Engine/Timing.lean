import Parley.Proofs.Engine.Dealings
import Parley.Proofs.Engine.Loops
import Parley.Proofs.Engine.Running

/-! How long the end of a drive takes.

Time stands still while a task can go on, and stops at every deadline (`Clocked`). Of the
deadlines on writing at most one runs at a time, and it is never further away than the write
timeout (`InTime`). Once no more frames are taken, a new deadline is started only for a frame
of the batch or of the queue, for the flush after each of these, and for closing: these are the
turns left, and no step adds to them (`Paces`). So the time at which the drive has ended is
bounded from then on (`expires_step`), whatever the far end and the application do. -/
namespace Parley.Engine
open Channel

variable {key : SessionKey} {role : Role} {env : Env} {s s' : Site} {e e' : Engine}
  {d d' : Duplex} {events : List Event} {r r' : Drive}

/-! ### Deadlines that are still to be started -/

/-- One for each frame of a batch, and one for the flush after them. -/
def batchTurns (os : List Outgoing) : Nat := if os = [] then 0 else os.length + 1

/-- How many deadlines the write loop starts at most from here on, and the one for closing, if
no more frames are queued. -/
def WriteLoop.turns (queue : List Outgoing) : WriteLoop → Nat
  | .looking | .waiting | .flushing .. => batchTurns queue + 1
  | .next batch _ => batch.length + 1 + (batchTurns queue + 1)
  | .writing _ _ _ rest _ => rest.length + 1 + (batchTurns queue + 1)
  | .ended => 0

def turns (e : Engine) (r : Drive) : Nat := r.writing.turns e.queue

/-- How a drive goes on: under the deadline that ran, or without one, or under a new one, which
takes one of the turns. Only a frame that is accepted adds to them. -/
inductive Paces (now : Nat) (e : Engine) (r : Drive) (e' : Engine) (r' : Drive) : Prop where
  | on (hlimit : r'.limit = r.limit ∨ r'.limit = none)
      (hturns : e.stopped = true → e'.turns r' ≤ e.turns r)
  | anew (hlimit : r'.limit = some (e.writeDue now))
      (hturns : e.stopped = true → e'.turns r' < e.turns r)

/-- Nothing changes that the deadlines depend on. -/
theorem Paces.same {now : Nat} (hwriting : r'.writing = r.writing)
    (hcontrol : r'.control.dues = r.control.dues) (hqueue : e'.queue = e.queue) :
    Paces now e r e' r' := by
  refine .on (.inl ?_) fun _ => ?_
  · rw [Drive.limit, Drive.limit, hwriting, hcontrol]
  · exact Nat.le_of_eq (by rw [turns, turns, hwriting, hqueue])

theorem dues_readEnded (res : Except Error Unit) (c : Control) :
    (c.readEnded res).dues = c.dues := by
  cases c <;> rfl

theorem paces_stepped (h : Stepped env e d e' d' events) (hl : Looped e)
    (hr' : e'.drive = some r') : ∃ r, e.drive = some r ∧ Paces env.now e r e' r' := by
  cases h with
  | notified => exact ⟨r', hr', .same rfl rfl rfl⟩
  | answered
  | expired =>
    rw [leave_eq] at hr' ⊢
    exact ⟨r', hr', .same rfl rfl rfl⟩
  | closed
  | closeFailed
  | writeFailed => cases hr'
  | cancelled hr hserving =>
    cases hr'
    exact ⟨_, hr, .same rfl (by rw [hserving]; rfl) rfl⟩
  | draining hr
  | collected hr
  | handed hr
  | handled hr =>
    cases hr'
    exact ⟨_, hr, .same rfl rfl rfl⟩
  | resolved hr =>
    rw [answer_eq] at hr' ⊢
    cases hr'
    exact ⟨_, hr, .same rfl rfl rfl⟩
  | readEnded hr
  | readExpired hr =>
    rw [readLoopEnds_eq] at hr' ⊢
    cases hr'
    exact ⟨_, hr, .same rfl (dues_readEnded _ _) rfl⟩
  | overflowed hr =>
    rw [answer_eq, readLoopEnds_eq] at hr' ⊢
    cases hr'
    exact ⟨_, hr, .same rfl (dues_readEnded _ _) rfl⟩
  | replied hr _ _ _ htaken =>
    cases hr'
    refine ⟨_, hr, .on (.inl rfl) fun hstopped => ?_⟩
    exact absurd hstopped (by rw [(refusal_eq_none htaken).2]; decide)
  -- The write loop goes on with the deadline that it has, if it has one.
  | batched hr hw hqueue =>
    cases hr'
    refine ⟨_, hr, .on (.inl ?_) fun _ => ?_⟩
    · simp only [Drive.limit, hw, WriteLoop.dues]
    · simp only [turns, driving, hw, WriteLoop.turns, batchTurns, if_neg hqueue, if_pos]
      omega
  | waited hr hw
  | woken hr hw =>
    cases hr'
    refine ⟨_, hr, .on (.inl ?_) fun _ => ?_⟩
    · simp only [Drive.limit, hw, WriteLoop.dues]
    · simp only [turns, driving, hw, WriteLoop.turns, Nat.le_refl]
  | placing hr hw
  | flushing hr hw =>
    cases hr'
    refine ⟨_, hr, .on (.inl ?_) fun _ => ?_⟩
    · simp only [Drive.limit, hw, WriteLoop.dues]
    · simp only [turns, driving, hw, WriteLoop.turns, Nat.le_refl]
  -- What was done under a deadline is done.
  | placed hr hw =>
    rw [complete_eq] at hr' ⊢
    cases hr'
    refine ⟨_, hr, .on (.inr ?_) fun _ => ?_⟩
    · simp only [Drive.limit, WriteLoop.dues, (hl _ hr).dues_control (by rw [hw]; rintro ⟨⟩)]
      rfl
    · simp only [turns, driving, tell, hw, WriteLoop.turns, Nat.le_refl]
  | flushed hr hw =>
    cases hr'
    refine ⟨_, hr, .on (.inr ?_) fun _ => ?_⟩
    · simp only [Drive.limit, WriteLoop.dues, (hl _ hr).dues_control (by rw [hw]; rintro ⟨⟩)]
      rfl
    · simp only [turns, driving, hw, WriteLoop.turns, Nat.le_refl]
  -- A new deadline is started.
  | batchDone hr hw =>
    cases hr'
    refine ⟨_, hr, .anew rfl fun _ => ?_⟩
    simp only [turns, driving, hw, WriteLoop.turns, List.length_nil]
    omega
  | begun hr hw =>
    cases hr'
    refine ⟨_, hr, .anew rfl fun _ => ?_⟩
    simp only [turns, driving, hw, WriteLoop.turns, List.length_cons]
    omega
  | emptied hr hw =>
    cases hr'
    refine ⟨_, hr, .anew rfl fun _ => ?_⟩
    simp only [turns, hw, WriteLoop.turns]
    omega

/-- A move starts a deadline, or goes on under the one there was; a stream that is attached has
none yet. -/
theorem paces_move (h : Move key role env s s') (hl : Looped s.engine)
    (hr' : s'.engine.drive = some r') :
    (s.engine.phase = .idle ∧ r'.limit = none) ∨
      ∃ r, s.engine.drive = some r ∧ Paces env.now s.engine r s'.engine r' := by
  -- While frames are taken, nothing is said about the turns.
  have htaken : ∀ {e : Engine}, s.engine.stopped = false → s.engine.drive = some r' →
      ∃ r, s.engine.drive = some r ∧ Paces env.now s.engine r e r' := fun hopen hr =>
    ⟨r', hr, .on (.inl rfl) fun hstopped => absurd hstopped (by rw [hopen]; decide)⟩
  cases h with
  | post h =>
    obtain ⟨hopen, rfl⟩ := post_eq_ok h
    exact .inr (htaken hopen hr')
  | write _ h =>
    obtain ⟨hopen, rfl⟩ := write_eq_ok h
    exact .inr (htaken hopen hr')
  | request _ _ h =>
    obtain ⟨hopen, rfl⟩ := request_eq_ok h
    exact .inr (htaken hopen hr')
  | refuse => exact .inr ⟨r', hr', .same rfl rfl rfl⟩
  | giveUp hc =>
    simp only [giveUp, hc, leave_eq] at hr' ⊢
    exact .inr ⟨r', hr', .same rfl rfl rfl⟩
  | start h =>
    obtain ⟨hidle, rfl⟩ := start_eq_ok h
    cases hr'
    exact .inl ⟨hidle, rfl⟩
  | abandon =>
    cases hr : s.engine.drive with
    | none =>
      simp only [Site.after, abandon, hr] at hr'
      cases hr'
    | some r =>
      simp only [Site.after, abandon, hr] at hr'
      cases hr'
  | step h => exact .inr (paces_stepped (stepped_of_step h) hl hr')

/-- The limits an engine was made with stay. -/
theorem settings_move (h : Move key role env s s') : s'.engine.settings = s.engine.settings := by
  cases h with
  | post h =>
    obtain ⟨-, rfl⟩ := post_eq_ok h
    rfl
  | write _ h =>
    obtain ⟨-, rfl⟩ := write_eq_ok h
    rfl
  | request _ _ h =>
    obtain ⟨-, rfl⟩ := request_eq_ok h
    rfl
  | refuse => rfl
  | giveUp hc => simp only [giveUp, hc, leave_eq]
  | start h =>
    obtain ⟨-, rfl⟩ := start_eq_ok h
    rfl
  | abandon =>
    cases hr : s.engine.drive with
    | none => simp only [Site.after, abandon, hr]
    | some r => simp only [Site.after, abandon, hr, completeAll_eq, tell]
  | step h =>
    cases stepped_of_step h with
    | answered
    | expired => exact (congrArg Engine.settings (leave_eq _ _) :)
    | placed => exact (congrArg Engine.settings (complete_eq _ _ _) :)
    | writeFailed => exact (congrArg Engine.settings (completeAll_eq _ _ _) :)
    | readEnded
    | readExpired => exact (congrArg Engine.settings (readLoopEnds_eq _ _ _) :)
    | overflowed => exact (congrArg Engine.settings (readLoopEnds_eq _ _ _) :)
    | _ => rfl

/-! ### Worlds with a clock -/

/-- A world, and what time it is. -/
structure Clocked extends World where
  now : Nat

namespace Clocked
variable {x y z : Clocked}

/-- No task can go on at this time. The application may be keeping a frame. -/
def Settled (x : Clocked) : Prop :=
  ∃ env : Env, env.now = x.now ∧ ∀ t, x.engine.step env t x.stream = none

/-- Something happens at the time it is; or nothing can go on, and time passes until a deadline
that is still to come at the latest. -/
inductive Step (key : SessionKey) (role : Role) (x : Clocked) : Clocked → Prop where
  | near {env : Env} {s : Site} (hnow : env.now = x.now) (h : Move key role env x.toSite s) :
      Step key role x { x with toSite := s }
  | far {d : Duplex} {bytes : Bytes} (h : bytes ++ d.outgoing.held = x.stream.outgoing.held) :
      Step key role x { x with stream := d, heard := x.heard ++ bytes }
  | tick {now : Nat} (hsettled : x.Settled) (hlater : x.now < now)
      (hdues : ∀ due ∈ x.engine.dues, x.now < due → now ≤ due) :
      Step key role x { x with now }

abbrev Leads (key : SessionKey) (role : Role) : Clocked → Clocked → Prop :=
  Relation.ReflTransGen (Step key role)

/-- Before anything has happened, at some time. -/
def fresh (c : Config.Connection) (out inc now : Nat) : Clocked :=
  { World.fresh c out inc with now }

def Reachable (key : SessionKey) (role : Role) (x : Clocked) : Prop :=
  ∃ c out inc now, Leads key role (fresh c out inc now) x

theorem Step.world (h : Step key role x y) : World.Leads key role x.toWorld y.toWorld := by
  cases h with
  | near _ h => exact .single (.near h)
  | far h => exact .single (.far h)
  | tick => exact .refl

theorem Leads.world (h : Leads key role x y) : World.Leads key role x.toWorld y.toWorld := by
  induction h with
  | refl => exact .refl
  | tail _ hstep ih => exact ih.trans hstep.world

theorem Reachable.world (h : Reachable key role x) : World.Reachable key role x.toWorld := by
  obtain ⟨c, out, inc, now, hleads⟩ := h
  exact ⟨c, out, inc, hleads.world⟩

theorem Reachable.leads (h : Reachable key role x) (hlater : Leads key role x y) :
    Reachable key role y := by
  obtain ⟨c, out, inc, now, hleads⟩ := h
  exact ⟨c, out, inc, now, hleads.trans hlater⟩

/-- Time passes only until the deadline on writing. Without one it passes only while frames are
taken. -/
theorem limit_of_settled (h : Reachable key role x) (hsettled : x.Settled)
    (hr : x.engine.drive = some r) {now : Nat}
    (hdues : ∀ due ∈ x.engine.dues, x.now < due → now ≤ due) :
    (r.limit = none ∧ x.engine.stopped = false) ∨ ∃ due, r.limit = some due ∧ now ≤ due := by
  obtain ⟨env, hnow, hstuck⟩ := hsettled
  refine ((loops_of_reachable h.world hr).held hr (hstuck .notify) (hstuck .write)
    (hstuck .close)).imp_right fun ⟨due, hlimit, hlt⟩ => ⟨due, hlimit, ?_⟩
  exact hdues due (mem_dues_of_drive hr (Drive.mem_dues_of_limit hlimit)) (hnow ▸ hlt)

/-! ### The deadline that runs -/

/-- The deadline on writing is never past, and never further away than the write timeout. -/
def InTime (x : Clocked) : Prop :=
  ∀ r, x.engine.drive = some r → ∀ due, r.limit = some due →
    x.now ≤ due ∧ due ≤ x.now + x.engine.settings.writeTimeout

theorem inTime_step (h : Reachable key role x) (hx : x.InTime) (hstep : Step key role x y) :
    y.InTime := by
  intro r' hr' due hdue
  cases hstep with
  | @near env s hnow hm =>
    have hsettings : s.engine.settings = x.engine.settings := settings_move hm
    show x.now ≤ due ∧ due ≤ x.now + s.engine.settings.writeTimeout
    rw [hsettings]
    rcases paces_move hm (fun r hr => loops_of_reachable h.world hr) hr' with
      ⟨-, hnone⟩ | ⟨r, hr, hpaces⟩
    · rw [hnone] at hdue
      cases hdue
    · cases hpaces with
      | on hlimit =>
        rcases hlimit with hsame | hnone
        · exact hx r hr due (hsame ▸ hdue)
        · rw [hnone] at hdue
          cases hdue
      | anew hlimit =>
        rw [hlimit] at hdue
        cases hdue
        rw [← hnow]
        exact ⟨Nat.le_add_right .., Nat.le_refl _⟩
  | far => exact hx r' hr' due hdue
  | @tick now hsettled hlater hdues =>
    rcases limit_of_settled h hsettled hr' hdues with ⟨hnone, -⟩ | ⟨due', hdue', hle⟩
    · rw [hnone] at hdue
      cases hdue
    · obtain rfl := Option.some.inj (hdue'.symm.trans hdue)
      have hbound := (hx r' hr' due' hdue').2
      exact ⟨hle, Nat.le_trans hbound (Nat.add_le_add_right (Nat.le_of_lt hlater) _)⟩

theorem inTime_of_reachable (h : Reachable key role x) : x.InTime := by
  obtain ⟨c, out, inc, now, hleads⟩ := h
  induction hleads with
  | refl => exact fun r hr => nomatch hr
  | tail hleads hstep ih => exact inTime_step ⟨c, out, inc, now, hleads⟩ ih hstep

/-! ### The end of the drive -/

/-- When a drive that takes no more frames has ended at the latest: when the deadline that runs
has passed, and as many more as are still to be started. -/
def latest (x : Clocked) (r : Drive) : Nat :=
  r.limit.getD x.now + x.engine.turns r * x.engine.settings.writeTimeout

/-- No more frames are taken, and the drive is over by this time. -/
structure Expires (bound : Nat) (x : Clocked) : Prop where
  stopped : x.engine.stopped = true
  busy : x.engine.phase ≠ .idle
  latest : ∀ r, x.engine.drive = some r → x.latest r ≤ bound

theorem le_limit (hx : x.InTime) (hr : x.engine.drive = some r) : x.now ≤ r.limit.getD x.now := by
  cases hlimit : r.limit with
  | none => exact Nat.le_refl _
  | some due => exact (hx r hr due hlimit).1

theorem expires_step {bound : Nat} (h : Reachable key role x) (hx : Expires bound x)
    (hstep : Step key role x y) : Expires bound y := by
  have hintime := inTime_of_reachable h
  cases hstep with
  | @near env s hnow hm =>
    have hon : Onward x.engine s.engine := onward_move hm
    refine ⟨hon.stopped hx.stopped, hon.busy hx.busy, fun r' hr' => ?_⟩
    rcases paces_move hm (fun r hr => loops_of_reachable h.world hr) hr' with
      ⟨hidle, -⟩ | ⟨r, hr, hpaces⟩
    · exact absurd hidle hx.busy
    · refine Nat.le_trans ?_ (hx.latest r hr)
      have hnow' := le_limit hintime hr
      have hsettings : s.engine.settings = x.engine.settings := settings_move hm
      simp only [latest, hsettings]
      cases hpaces with
      | on hlimit hturns =>
        have hfewer := Nat.mul_le_mul_right x.engine.settings.writeTimeout (hturns hx.stopped)
        rcases hlimit with hsame | hnone
        · rw [hsame]
          exact Nat.add_le_add_left hfewer _
        · rw [hnone]
          exact Nat.add_le_add hnow' hfewer
      | anew hlimit hturns =>
        -- The new deadline is one write timeout away, which is the turn that it takes.
        have hfewer := Nat.mul_le_mul_right x.engine.settings.writeTimeout (hturns hx.stopped)
        rw [Nat.succ_mul] at hfewer
        rw [hlimit, Option.getD_some, writeDue, hnow]
        omega
  | far => exact ⟨hx.stopped, hx.busy, hx.latest⟩
  | @tick now hsettled hlater hdues =>
    refine ⟨hx.stopped, hx.busy, fun r hr => ?_⟩
    rcases limit_of_settled h hsettled hr hdues with ⟨-, hopen⟩ | ⟨due, hdue, -⟩
    · exact absurd hx.stopped (by rw [hopen]; decide)
    · have hbound := hx.latest r hr
      simp only [latest, hdue, Option.getD_some] at hbound ⊢
      exact hbound

theorem expires_leads {bound : Nat} (h : Reachable key role x) (hx : Expires bound x)
    (hlater : Leads key role x y) : Expires bound y := by
  induction hlater with
  | refl => exact hx
  | tail hleads hstep ih => exact expires_step (h.leads hleads) ih hstep

end Clocked

/-! ### How much there is to do -/

/-- How many frames are accepted that have not been handed to the stream. -/
def Log.backlog (l : Log) : Nat := l.accepted.length - l.written.length

/-- Each frame that is not handed over needs a deadline of its own, and besides there are two
flushes and the close. Of these one may be running. -/
theorem turns_of_backlog {x : World} (h : World.Reachable key role x)
    (hr : x.engine.drive = some r) :
    (r.limit = none ∧ x.engine.turns r ≤ x.log.backlog + 3) ∨
      x.engine.turns r ≤ x.log.backlog + 2 := by
  have horder := congrArg List.length ((outbound_of_reachable h).carries hr).order
  have hbatch : ∀ os : List Outgoing, batchTurns os ≤ os.length + 1 := fun os => by
    rw [batchTurns]
    split <;> omega
  have hqueue := hbatch x.engine.queue
  simp only [World.outlook, List.length_append, Lane.current, Drive.lane] at horder
  cases hw : r.writing with
  | next batch count =>
    refine .inl ⟨?_, ?_⟩
    · have hcontrol := (loops_of_reachable h hr).dues_control (by rw [hw]; rintro ⟨⟩)
      rw [Drive.limit, hw, hcontrol]
      rfl
    · simp only [hw, WriteLoop.hand, WriteLoop.rest, Option.map_none, Option.toList_none,
        List.length_nil] at horder
      simp only [turns, hw, WriteLoop.turns, Log.backlog]
      omega
  | looking
  | waiting
  | flushing
  | ended =>
    refine .inr ?_
    simp only [hw, WriteLoop.hand, WriteLoop.rest, Option.map_none, Option.toList_none,
      List.length_nil] at horder
    simp only [turns, hw, WriteLoop.turns, Log.backlog]
    omega
  | writing job due current rest count =>
    refine .inr ?_
    simp only [hw, WriteLoop.hand, WriteLoop.rest, Option.map_some, Option.toList_some,
      List.length_cons, List.length_nil] at horder
    simp only [turns, hw, WriteLoop.turns, Log.backlog]
    omega

theorem writeTimeout_pos {x : World} (h : World.Reachable key role x) :
    0 < x.engine.settings.writeTimeout := by
  refine World.Reachable.induct (motive := fun x => 0 < x.engine.settings.writeTimeout) ?_ ?_ h
  · intro c out inc
    show 0 < c.writeTimeout
    rw [Config.Connection.writeTimeout, Config.positiveOr]
    split <;> omega
  · intro x y _ ih hstep
    cases hstep with
    | near hm =>
      exact Nat.lt_of_lt_of_eq ih (congrArg Settings.writeTimeout (settings_move hm)).symm
    | far => exact ih

namespace Clocked
variable {x y z : Clocked}

/-- The engine takes up its cancellation or the end of its read loop. -/
structure Stops (x y : Clocked) : Prop where
  serving : ∃ r, x.engine.drive = some r ∧ r.control = .serving
  draining : ∃ r res, y.engine.drive = some r ∧ r.control = .draining res

theorem expires_of_stops (h : Reachable key role y) (hstops : Stops x y) :
    Expires (y.now + (y.log.backlog + 3) * y.engine.settings.writeTimeout) y := by
  obtain ⟨r, res, hr, hdraining⟩ := hstops.draining
  have hstopped := (loops_of_reachable h.world hr).stopped (by rw [hdraining]; rfl)
  have hbusy := ((outbound_of_reachable h.world).carries hr).busy
  refine ⟨hstopped, of_decide_eq_false hbusy, fun r' hr' => ?_⟩
  rw [latest]
  rcases turns_of_backlog h.world hr' with ⟨hnone, hturns⟩ | hturns
  · rw [hnone]
    exact Nat.add_le_add_left (Nat.mul_le_mul_right _ hturns) _
  · have hlimit : r'.limit.getD y.now ≤ y.now + y.engine.settings.writeTimeout := by
      cases hdue : r'.limit with
      | none => exact Nat.le_add_right ..
      | some due => exact (inTime_of_reachable h r' hr' due hdue).2
    have hfewer := Nat.mul_le_mul_right y.engine.settings.writeTimeout hturns
    rw [Nat.succ_mul]
    omega

theorem accepted_leads {bound : Nat} (h : Reachable key role x) (hx : Expires bound x)
    (hlater : Leads key role x y) : y.log.accepted = x.log.accepted := by
  induction hlater with
  | refl => rfl
  | tail hleads hstep ih =>
    have hstopped := (expires_leads h hx hleads).stopped
    cases hstep with
    | near _ hm => exact (accepted_of_stopped hm hstopped).trans ih
    | far => exact ih
    | tick => exact ih

/-- **Nothing holds up the end of a drive.** From the moment at which an engine takes up its
cancellation or the end of its read loop, no frame is accepted, and when the write timeout has
passed three times, and once more for each frame that was waiting, the drive is over: whatever
the far end does, and whether or not the application ever returns. -/
theorem drive_ends_in_time (h : Reachable key role x) (hstep : Step key role x y)
    (hstops : Stops x y) :
    0 < y.engine.settings.writeTimeout ∧
      ∀ z, Leads key role y z → z.log.accepted = y.log.accepted ∧
        (y.now + (y.log.backlog + 3) * y.engine.settings.writeTimeout < z.now →
          z.engine.drive = none) := by
  have hy : Reachable key role y := h.leads (.single hstep)
  have hexpires := expires_of_stops hy hstops
  refine ⟨writeTimeout_pos hy.world, fun z hlater => ?_⟩
  refine ⟨accepted_leads hy hexpires hlater, fun hlate => ?_⟩
  cases hr : z.engine.drive with
  | none => rfl
  | some r =>
    have hnow := le_limit (inTime_of_reachable (hy.leads hlater)) hr
    have hbound := (expires_leads hy hexpires hlater).latest r hr
    rw [latest] at hbound
    omega

theorem leads_of_moves {s : Site} (x : Clocked) (hnow : env.now = x.now)
    (h : Moves key role env x.toSite s) : Leads key role x { x with toSite := s } := by
  induction h with
  | refl => exact .refl
  | tail _ hm ih => exact ih.tail (.near hnow hm)

/-- A message is queued, and the engine is cancelled. The far end reads nothing, and the pipe is
too small for the frame, which is given up when its flush has taken too long. -/
theorem exists_stall (key : SessionKey) : ∃ x y z : Clocked,
    Reachable key .client x ∧ Step key .client x y ∧ Stops x y ∧ Leads key .client y z ∧
      y.log.accepted = [{ frame := ⟨0, [1]⟩ }] ∧ y.log.written = [] ∧
      z.log.troubles = [.timeout .write] ∧
      y.now + (1 + 3) * y.engine.settings.writeTimeout < z.now := by
  let c : Config.Connection := { writeBufferSize := 64, writeTimeoutMs := 10 }
  let settings : Settings := c.settings
  let env : Env := prompt true fun _ => none
  let o : Outgoing := { frame := ⟨0, [1]⟩ }
  let first : Drive := firstDrive key .client env settings
  let x₀ : Clocked := .fresh c 5 5 0
  let started : Site := .started key .client env settings x₀.stream
  let posted : Site := started.posted [1]
  have hposted : Moves key .client env x₀.toSite posted :=
    .head (starts settings x₀.stream) (.single (posts rfl).2)
  let told : Site := posted.cancelled first
  let last : Drive := { first with control := .draining (.ok ()) }
  have htold : Move key .client env posted told := cancels rfl rfl rfl
  -- The frame goes into the buffer, and five bytes of it into the pipe.
  let bytes : Bytes := sealed key .clientToServer 0 o.frame
  have hlength : bytes.length = 25 := by
    rw [length_sealed, Frame.length_encode]
    rfl
  let stalled : Site := told.stalled last bytes 10
  have hstalled : Moves key .client env told stalled := by
    refine stalls (o := o) (r := last) rfl rfl rfl ⟨rfl, spellable_byte 1⟩ ?_ rfl rfl ?_ rfl ?_
    · exact (by decide : 0 < Nonce.last)
    · rw [hlength]
      exact (by decide : 25 < 84)
    · exact (by decide : 5 ≠ 0)
  let still : Site := { stalled with engine := { stalled.engine with owed := 0, notified := true } }
  have hstill : Moves key .client env stalled still :=
    .head (notifies (by decide : 2 ≠ 0)) (.single (notifies (by decide : 1 ≠ 0)))
  have hheld : bytes.drop 5 ≠ [] := by
    rw [ne_eq, List.drop_eq_nil_iff, hlength]
    decide
  have hfull : still.stream.outgoing.room = 0 := by
    show 5 - ([] ++ bytes.take 5).length = 0
    rw [List.nil_append, List.length_take, hlength]
    rfl
  let x : Clocked := { x₀ with toSite := posted }
  let y : Clocked := { x₀ with toSite := told }
  let stuck : Clocked := { x₀ with toSite := still }
  have hstuck : stuck.Settled := by
    refine ⟨env, rfl, fun t => ?_⟩
    cases t with
    | notify
    | call
    | cancel
    | read
    | close => rfl
    | write =>
      refine stepWrite_stalled (e := still.engine) (d := still.stream) rfl rfl ?_ rfl hfull ?_
      · exact hheld
      · exact (by decide : 0 < 10)
  -- The deadline passes, and then as much time as you like.
  let gone : Site := still.gaveUp (.ok ())
  have hgone : Move key .client { env with now := 10 } still gone :=
    givesUp rfl rfl hheld rfl hfull (Nat.le_refl 10)
  let idle : Site := { gone with engine := { gone.engine with owed := 0, notified := true } }
  have hover : Move key .client { env with now := 10 } gone idle := notifies (by decide : 1 ≠ 0)
  have hquiet : Clocked.Settled { x₀ with toSite := idle, now := 10 } :=
    ⟨{ env with now := 10 }, rfl, fun t => by cases t <;> rfl⟩
  refine ⟨x, y, { x₀ with toSite := idle, now := 41 }, ⟨c, 5, 5, 0, leads_of_moves x₀ rfl hposted⟩,
    .near rfl htold, ⟨⟨_, rfl, rfl⟩, ⟨_, _, rfl, rfl⟩⟩, ?_, rfl, rfl, rfl,
    (by decide : 0 + (1 + 3) * 10 < 41)⟩
  refine (leads_of_moves y rfl (hstalled.trans hstill)).trans (.head (.tick hstuck
    (by decide : 0 < 10) (by decide : ∀ due ∈ [10], 0 < due → 10 ≤ due)) ?_)
  refine (leads_of_moves { stuck with now := 10 } rfl (.head hgone (.single hover))).trans
    (.single (.tick hquiet (by decide : 10 < 41) fun due hdue => nomatch hdue))

/-- A message that the far end does not read is given up, and the drive is over in time. -/
theorem stalled_drive_ends : ∃ y z : Clocked, Leads ⟨[7]⟩ .client y z ∧
    y.log.accepted = [{ frame := ⟨0, [1]⟩ }] ∧ y.log.written = [] ∧
    z.log.troubles = [.timeout .write] ∧ z.log.accepted = y.log.accepted ∧
    z.engine.drive = none := by
  obtain ⟨x, y, z, h, hstep, hstops, hlater, haccepted, hwritten, htroubles, hlate⟩ :=
    exists_stall ⟨[7]⟩
  obtain ⟨hsame, hover⟩ := (drive_ends_in_time h hstep hstops).2 z hlater
  have hbacklog : y.log.backlog = 1 := by rw [Log.backlog, haccepted, hwritten]; rfl
  exact ⟨y, z, hlater, haccepted, hwritten, htroubles, hsame, hover (by rwa [hbacklog])⟩

end Clocked
end Parley.Engine
