import Parley.Proofs.Engine.Loops

/-! How a drive that is to end comes to its end.

Once nothing more is read, what the drive comes to is decided: the write loop empties the queue
and the stream is closed, and neither changes the result (`winds_stepped`). Every step that is
left lowers an effort (`effort_stepped`), and when the deadlines have passed there is always
one to make. So the drive ends, and with that result, in whatever order the steps are made
(`ends_of_winds`). -/
namespace Parley.Engine
open Channel

variable {key : SessionKey} {role : Role} {env : Env} {w w' : World} {s s' : Site} {e : Engine}
  {stream : Duplex} {events : List Event} {r : Drive} {res : Except Error Unit}

/-- The drive is to end with this result: nothing more is read, and no more frames are taken. -/
structure Winds (res : Except Error Unit) (s : Site) (r : Drive) : Prop where
  drive : s.engine.drive = some r
  reading : r.reading = .ended
  control : r.control = .draining res ∨ ∃ due, r.control = .closing res due
  stopped : s.engine.stopped = true
  running : s.log.ended = []

/-- The drive is over: it had this result, unless it was given up. -/
structure Wound (res : Except Error Unit) (s : Site) : Prop where
  drive : s.engine.drive = none
  ended : s.log.ended = [] ∨ s.log.ended = [res]

/-! ### Nothing changes the result -/

theorem Winds.not_serving (h : Winds res s r) : r.control.isServing = false := by
  rcases h.control with hc | ⟨due, hc⟩ <;> rw [hc] <;> rfl

/-- Whatever the write loop ends with. -/
theorem Winds.writeEnded (h : Winds res s r) (res' : Except Error Unit) :
    r.control.writeEnded res' = res := by
  rcases h.control with hc | ⟨due, hc⟩ <;> rw [hc] <;> rfl

theorem Winds.result (h : Winds res s r) {res' : Except Error Unit} {due : Nat}
    (hclosing : r.control = .closing res' due) : res' = res := by
  rcases h.control with hc | ⟨due', hc⟩ <;> rw [hc] at hclosing <;> cases hclosing
  rfl

theorem Winds.drive_eq (h : Winds res s r) {r' : Drive} (hr : s.engine.drive = some r') : r' = r :=
  Option.some.inj (hr.symm.trans h.drive)

/-- A step leaves the result as it is, or ends the drive with it. -/
theorem winds_stepped (hw : Winds res s r) (h : Stepped env s.engine s.stream e stream events) :
    (∃ r', Winds res (s.after e stream events) r') ∨
      e.drive = none ∧ (s.after e stream events).log.ended = [res] := by
  have hclosed : ∀ {res' : Except Error Unit}, res' = res → s.log.ended ++ [res'] = [res] := by
    rintro _ rfl
    rw [hw.running, List.nil_append]
  cases h with
  | notified => exact .inl ⟨r, { hw with }⟩
  | answered
  | expired =>
    rw [leave_eq]
    exact .inl ⟨r, { hw with }⟩
  | cancelled hr hserving =>
    obtain rfl := hw.drive_eq hr
    have := hw.not_serving
    rw [hserving] at this
    cases this
  | closed hr hclosing
  | closeFailed hr hclosing =>
    obtain rfl := hw.drive_eq hr
    exact .inr ⟨rfl, hclosed (hw.result hclosing)⟩
  | writeFailed hr hresult =>
    obtain rfl := hw.drive_eq hr
    exact .inr ⟨rfl, hclosed (hresult.symm.trans (hw.writeEnded _))⟩
  | @emptied r' result hr hwriting hqueue hstopped hresult =>
    obtain rfl := hw.drive_eq hr
    rw [hw.writeEnded] at hresult
    subst hresult
    exact .inl ⟨_, rfl, hw.reading, .inr ⟨_, rfl⟩, rfl, hw.running⟩
  | placed hr =>
    obtain rfl := hw.drive_eq hr
    rw [complete_eq]
    exact .inl ⟨_, rfl, hw.reading, hw.control, hw.stopped, hw.running⟩
  | draining hr
  | batched hr
  | waited hr
  | woken hr
  | batchDone hr
  | begun hr
  | placing hr
  | flushing hr
  | flushed hr =>
    obtain rfl := hw.drive_eq hr
    exact .inl ⟨_, rfl, hw.reading, hw.control, hw.stopped, hw.running⟩
  -- The read loop has ended, and makes no step.
  | collected hr hread
  | readEnded hr hread
  | readExpired hr hread
  | handed hr hread
  | resolved hr hread
  | overflowed hr hread
  | handled hr hread
  | replied hr hread =>
    obtain rfl := hw.drive_eq hr
    have := hw.reading
    rw [hread] at this
    cases this

theorem wound_stepped (hw : Wound res s) (h : Stepped env s.engine s.stream e stream events) :
    Wound res (s.after e stream events) := by
  have hnone : ∀ {r}, s.engine.drive ≠ some r := fun hr => by
    rw [hw.drive] at hr
    cases hr
  cases h with
  | notified => exact ⟨hw.drive, hw.ended⟩
  | answered
  | expired =>
    rw [leave_eq]
    exact ⟨hw.drive, hw.ended⟩
  | _ => exact absurd ‹s.engine.drive = some _› hnone

/-- What the drive comes to is decided. -/
def Decided (res : Except Error Unit) (s : Site) : Prop := (∃ r, Winds res s r) ∨ Wound res s

theorem Decided.ended (h : Decided res s) : s.log.ended = [] ∨ s.log.ended = [res] := by
  rcases h with ⟨r, hw⟩ | hw
  · exact .inl hw.running
  · exact hw.ended

/-- It stays so, as long as the engine and the log of its end are the same but for calls. -/
theorem Decided.same (h : Decided res s) (hdrive : s'.engine.drive = s.engine.drive)
    (hstopped : s'.engine.stopped = s.engine.stopped) (hended : s'.log.ended = s.log.ended) :
    Decided res s' := by
  rcases h with ⟨r, hw⟩ | hw
  · exact .inl ⟨r, hdrive.trans hw.drive, hw.reading, hw.control, hstopped.trans hw.stopped,
      hended.trans hw.running⟩
  · exact .inr ⟨hdrive.trans hw.drive, by rw [hended]; exact hw.ended⟩

/-- The result stays decided, whatever happens. -/
theorem decided_move (hw : Decided res s) (hbusy : s.engine.phase ≠ .idle)
    (h : Move key role env s s') : Decided res s' := by
  cases h with
  | post h =>
    obtain ⟨-, rfl⟩ := post_eq_ok h
    exact hw.same rfl rfl rfl
  | write _ h =>
    obtain ⟨-, rfl⟩ := write_eq_ok h
    exact hw.same rfl rfl rfl
  | request _ _ h =>
    obtain ⟨-, rfl⟩ := request_eq_ok h
    exact hw.same rfl rfl rfl
  | refuse => exact hw.same rfl rfl rfl
  | giveUp hc =>
    simp only [giveUp, hc, leave_eq]
    exact hw.same rfl rfl rfl
  | start h => exact absurd (start_eq_ok h).1 hbusy
  | abandon =>
    cases hr : s.engine.drive with
    | none =>
      simp only [abandon, hr]
      exact hw.same rfl rfl rfl
    | some r =>
      simp only [abandon, hr]
      exact .inr ⟨rfl, hw.ended⟩
  | step h =>
    rcases hw with ⟨r, hw⟩ | hw
    · exact (winds_stepped hw (stepped_of_step h)).imp id fun h => ⟨h.1, .inr h.2⟩
    · exact .inr (wound_stepped hw (stepped_of_step h))

theorem decided_leads (hw : Decided res w.toSite) (hbusy : w.engine.phase ≠ .idle)
    (h : World.Leads key role w w') : Decided res w'.toSite := by
  induction h with
  | refl => exact hw
  | tail hleads hstep ih =>
    cases hstep with
    | near h => exact decided_move ih ((onward_leads hleads).busy hbusy) h
    | far => exact ih.same rfl rfl rfl

/-! ### Every step lowers an effort -/

/-- How many steps it takes at most to hand a frame over, piece by piece. -/
def Outgoing.effort (o : Outgoing) : Nat :=
  2 * (Frame.prefixLength + (Frame.seqLength + o.frame.payload.length + Frame.tagLength)) + 4

def efforts : List Outgoing → Nat
  | [] => 0
  | o :: os => o.effort + efforts os

/-- How many steps the write loop makes at most, if no more frames are queued. -/
def WriteLoop.effort : WriteLoop → Nat
  | .looking => 4
  | .waiting => 5
  | .next batch _ => efforts batch + 7
  | .writing job _ _ rest _ => job.effort + efforts rest + 8
  | .flushing .. => 6
  | .ended => 2

def Drive.effort (r : Drive) : Nat := r.writing.effort + r.sealer.outlet.held.length

/-- What there is to do besides the loops. -/
def load (e : Engine) : Nat :=
  e.owed + e.calls.length + (efforts e.queue + 4 * e.queue.length)

/-- How many steps an engine makes at most that takes no frames and reads none. -/
def effort (e : Engine) : Nat := e.load + (e.drive.map Drive.effort).getD 0

theorem effort_of_drive (hr : e.drive = some r) : e.effort = e.load + r.effort := by
  rw [effort, hr]
  rfl

theorem effort_of_none (hr : e.drive = none) : e.effort = e.load := by
  rw [effort, hr]
  rfl

/-- A loop goes on, and there is no more to do besides. -/
theorem effort_driving_lt {e' : Engine} {r' : Drive} (hr : e.drive = some r)
    (hload : e'.load = e.load) (h : r'.effort < r.effort) :
    (e'.driving r').effort < e.effort := by
  rw [effort_of_drive hr, ← hload]
  exact Nat.add_lt_add_left h _

theorem WriteLoop.two_le_effort (l : WriteLoop) : 2 ≤ l.effort := by
  cases l <;> simp only [effort] <;> omega

/-! What the write loop does with the sealer lowers its effort. -/

section
variable {s' : Sealer} {p p' : Pipe} {job job' : Sealer.Job} {o : Outgoing} {rest : List Outgoing}
  {due count : Nat}

theorem effort_begun (due : Nat) (hwriting : r.writing = .next (o :: rest) count)
    (h : r.sealer.write o.frame = .ok (job, s')) :
    Drive.effort { r with sealer := s', writing := .writing job due o rest count } < r.effort := by
  obtain ⟨hjob, houtlet⟩ : job.effort + 2 = o.effort ∧ s'.outlet = r.sealer.outlet :=
    Sealer.effort_of_write h
  simp only [Drive.effort, WriteLoop.effort, efforts, hwriting, houtlet]
  omega

theorem effort_placing (hwriting : r.writing = .writing job due o rest count)
    (h : r.sealer.advance job p = some (.ok (some job', s', p'))) :
    Drive.effort { r with sealer := s', writing := .writing job' due o rest count } <
      r.effort := by
  have hless := Sealer.advance_less h
  simp only [Drive.effort, WriteLoop.effort, hwriting]
  omega

theorem effort_placed (hwriting : r.writing = .writing job due o rest count)
    (h : r.sealer.advance job p = some (.ok (none, s', p'))) :
    Drive.effort { r with sealer := s', writing := .next rest count } < r.effort := by
  obtain rfl := Sealer.advance_done h
  simp only [Drive.effort, WriteLoop.effort, hwriting]
  omega

theorem effort_batchDone (due : Nat) (hwriting : r.writing = .next [] count) :
    Drive.effort { r with writing := .flushing due count } < r.effort := by
  simp only [Drive.effort, WriteLoop.effort, efforts, hwriting]
  omega

/-- Flushing and closing put out some of what is buffered. -/
theorem effort_draining (hjob : job.effort = 0)
    (h : r.sealer.advance job p = some (.ok (some job', s', p'))) :
    Drive.effort { r with sealer := s' } < r.effort := by
  have hless := Sealer.advance_less h
  simp only [Drive.effort]
  omega

/-- What it gains by flushing pays for looking at the queue again. -/
theorem effort_flushed (hwriting : r.writing = .flushing due count)
    (h : r.sealer.advance .flushing p = some (.ok (none, s', p'))) :
    Drive.effort { r with sealer := s', writing := .looking } + 2 = r.effort := by
  obtain rfl := Sealer.advance_done h
  simp only [Drive.effort, WriteLoop.effort, hwriting]
  omega

end

theorem length_leave_lt {c : Call} (hc : c ∈ e.calls) :
    (e.calls.filter (·.id != c.id)).length < e.calls.length :=
  List.length_filter_lt_length_iff_exists.mpr ⟨c, hc, by simp⟩

theorem load_tell (e : Engine) (ids : List CallId) (o : Outcome) :
    (e.tell ids o).load = e.load := by
  rw [load, load, tell, List.length_map]

/-- The end of a drive leaves nothing to do but to let calls return. -/
theorem effort_finished_lt {e' : Engine} (hr : e.drive = some r)
    (howed : e'.owed ≤ e.owed + 1) (hcalls : e'.calls.length = e.calls.length) :
    e'.finished.effort < e.effort := by
  have hloop := r.writing.two_le_effort
  have hfinished : e'.finished.load = e'.owed + e'.calls.length := by
    simp only [load, finished, tell, List.length_map, efforts, List.length_nil, Nat.mul_zero,
      Nat.add_zero]
  rw [effort_of_none rfl, hfinished, effort_of_drive hr, load, Drive.effort]
  omega

/-- **Every step lowers the effort**, once it is decided what the drive comes to. -/
theorem effort_stepped (hw : Decided res s)
    (h : Stepped env s.engine s.stream e stream events) : e.effort < s.engine.effort := by
  have hwinds : ∀ {r}, s.engine.drive = some r → Winds res s r := fun hr => by
    rcases hw with ⟨r', hw⟩ | hw
    · rwa [hw.drive_eq hr]
    · rw [hw.drive] at hr
      cases hr
  cases h with
  | notified howed =>
    simp only [effort, load]
    omega
  | answered hc
  | expired hc =>
    have hless := length_leave_lt (List.mem_of_find?_eq_some hc)
    simp only [leave_eq, effort, load]
    omega
  | cancelled hr hserving =>
    have := (hwinds hr).not_serving
    rw [hserving] at this
    cases this
  -- A write loop that goes back to waiting would undo what it gained by waking.
  | waited hr _ _ hopen =>
    have := (hwinds hr).stopped
    rw [hopen] at this
    cases this
  | closed hr
  | closeFailed hr => exact effort_finished_lt hr (Nat.le_succ _) rfl
  | writeFailed hr =>
    rw [completeAll_eq]
    exact effort_finished_lt hr (Nat.le_refl _) (List.length_map _)
  -- Closing owes one more notification, which the end of the write loop pays for.
  | emptied hr hwriting =>
    rw [effort_of_drive hr, effort_of_drive rfl]
    simp only [load, Engine.close, Engine.stop, driving, Drive.effort, WriteLoop.effort, hwriting]
    omega
  | batched hr hwriting hqueue =>
    have := List.length_pos_iff.mpr hqueue
    rw [effort_of_drive hr, effort_of_drive rfl]
    simp only [load, driving, Drive.effort, WriteLoop.effort, efforts, List.length_nil, hwriting]
    omega
  | woken hr hwriting =>
    refine effort_driving_lt hr rfl ?_
    simp only [Drive.effort, WriteLoop.effort, hwriting]
    omega
  | batchDone hr hwriting => exact effort_driving_lt hr rfl (effort_batchDone _ hwriting)
  | begun hr hwriting hwrite => exact effort_driving_lt hr rfl (effort_begun _ hwriting hwrite)
  | placing hr hwriting hadv => exact effort_driving_lt hr rfl (effort_placing hwriting hadv)
  | placed hr hwriting hadv =>
    rw [complete_eq]
    exact effort_driving_lt hr (load_tell ..) (effort_placed hwriting hadv)
  | flushing hr _ hadv
  | draining hr _ hadv => exact effort_driving_lt hr rfl (effort_draining rfl hadv)
  | flushed hr hwriting hadv =>
    have hless := effort_flushed hwriting hadv
    exact effort_driving_lt hr rfl (by omega)
  | collected hr hread
  | readEnded hr hread
  | readExpired hr hread
  | handed hr hread
  | resolved hr hread
  | overflowed hr hread
  | handled hr hread
  | replied hr hread =>
    have := (hwinds hr).reading
    rw [hread] at this
    cases this

/-! ### The end is reached -/

/-- Whatever steps are made, and in whatever surroundings, the drive ends with this result: it
has, or there is a step to make once it is late enough, and after every step it still does. -/
inductive Ends (res : Except Error Unit) : Site → Prop where
  | over {s : Site} (hended : s.log.ended = [res]) : Ends res s
  | next {s : Site}
      (hready : ∃ late, ∀ env : Env, late ≤ env.now → ∃ t, s.engine.step env t s.stream ≠ none)
      (hsteps : ∀ env t e d events, s.engine.step env t s.stream = some (e, d, events) →
        Ends res (s.after e d events)) : Ends res s

theorem exists_late (dues : List Nat) : ∃ late, ∀ due ∈ dues, due ≤ late := by
  induction dues with
  | nil => exact ⟨0, fun _ h => nomatch h⟩
  | cons due dues ih =>
    obtain ⟨late, hlate⟩ := ih
    refine ⟨max due late, List.forall_mem_cons.mpr ⟨Nat.le_max_left .., fun x hx => ?_⟩⟩
    exact Nat.le_trans (hlate x hx) (Nat.le_max_right ..)

/-- A drive that is to end has a step to make, once its deadlines have passed. -/
theorem Winds.ready (hw : Winds res s r) (hl : Looped s.engine) :
    ∃ late, ∀ env : Env, late ≤ env.now → ∃ t, s.engine.step env t s.stream ≠ none := by
  obtain ⟨late, hlate⟩ := exists_late r.dues
  refine ⟨late, fun env hnow => ?_⟩
  rcases (hl r hw.drive).ready (d := s.stream) hw.drive hw.stopped
    fun due hdue => Nat.le_trans (hlate due hdue) hnow with hstep | hstep | hstep
  · exact ⟨.notify, hstep⟩
  · exact ⟨.write, hstep⟩
  · exact ⟨.close, hstep⟩

/-- **A drive that is to end does**, with the result that is decided. -/
theorem ends_of_winds (hw : Winds res s r) (hl : Looped s.engine) : Ends res s := by
  -- The stream stays driven, or is over with the result; the effort says that it cannot stay so.
  induction hm : s.engine.effort using Nat.strongRecOn generalizing s r with
  | ind m ih =>
    subst hm
    refine .next (hw.ready hl) fun env t e d events hstep => ?_
    have hs := stepped_of_step hstep
    rcases winds_stepped hw hs with ⟨r', hw'⟩ | ⟨-, hended⟩
    · exact ih _ (effort_stepped (.inl ⟨r, hw⟩) hs) hw' (looped_stepped hs hl) rfl
    · exact .over hended

/-- From here on the drive ends with this result or not at all, and unless it is given up it
does end. -/
def Concludes (key : SessionKey) (role : Role) (res : Except Error Unit) (w : World) : Prop :=
  ∀ w', World.Leads key role w w' →
    (w'.log.ended = [] ∨ w'.log.ended = [res]) ∧ (w'.engine.drive ≠ none → Ends res w'.toSite)

/-- What is decided comes about. -/
theorem concludes_of_decided (h : World.Reachable key role w) (hw : Decided res w.toSite)
    (hbusy : w.engine.phase ≠ .idle) : Concludes key role res w := by
  intro w' hlater
  have hdecided := decided_leads hw hbusy hlater
  refine ⟨hdecided.ended, fun hdriven => ?_⟩
  rcases hdecided with ⟨r, hw'⟩ | hw'
  · exact ends_of_winds hw' fun r hr => loops_of_reachable (h.leads hlater) hr
  · exact absurd hw'.drive hdriven

end Parley.Engine
