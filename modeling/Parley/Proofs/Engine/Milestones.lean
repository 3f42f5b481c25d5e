import Parley.Proofs.Engine.Loops
import Parley.Proofs.Engine.Settlement

/-! What brings a drive nearer to its end.

Of all that happens at a site its `Milestone`s are what the end of the drive is about: a
cancellation is taken up, one of the loops ends, the stream is to be closed and is closed. `Does`
says what each of them needs and what shows of the drive after it, and every move is by one of its
rules (`does_of_move`): the read loop ends as long as it is served, so never while the stream is
being closed. A `Trail` is a run with its milestones in order, and every run is one
(`exists_trail`). -/
namespace Parley.Engine
open Channel

/-- Something that brings a drive nearer to its end. -/
inductive Milestone where
  /-- A cancellation is taken up. -/
  | cancelled
  | readEnded (res : Except Error Unit)
  | writeEnded (res : Except Error Unit)
  /-- The stream is to be closed, under this deadline. -/
  | closing (due : Nat)
  | closed (due : Nat)
  | closeFailed (err : Error)

def ReadLoop.goesOn : ReadLoop → Bool
  | .ended => false
  | _ => true

/-- What shows of the drive. -/
@[ext] structure Watch where
  idle : Bool
  stopped : Bool
  /-- Where the supervisor is, if the stream is driven. -/
  control : Option Control
  /-- Whether the read loop goes on. -/
  reads : Bool
  /-- What driving the stream came to. -/
  ended : List (Except Error Unit)

/-- What shows when the drive is over, with this result. -/
def Watch.finish (v : Watch) (res : Except Error Unit) : Watch where
  idle := false
  stopped := true
  control := none
  reads := false
  ended := v.ended ++ [res]

def Site.watch (s : Site) : Watch where
  idle := s.engine.phase = .idle
  stopped := s.engine.stopped
  control := s.engine.drive.map (·.control)
  reads := s.engine.drive.any (·.reading.goesOn)
  ended := s.log.ended

/-- How the read loop ends: with what it has read, when it has waited for too long, or with a
response that the request it is for cannot take. -/
inductive Drive.ReadEnds (env : Env) (s : Site) (r : Drive) : Except Error Unit → Prop where
  | read {c due reading o inc res} (hread : r.reading = .reading c due)
      (h : r.opener.advance c s.stream.incoming = some (reading, o, inc))
      (hres : readingEnd reading = some res) : ReadEnds env s r res
  | late {c due} (hread : r.reading = .reading c due) (hdue : due.any (· ≤ env.now) = true) :
      ReadEnds env s r (.error (.timeout .read))
  | overflow {c due f o inc a} (hread : r.reading = .reading c due)
      (h : r.opener.advance c s.stream.incoming = some (.frame f, o, inc))
      (ha : s.engine.table.find? (·.seq == f.seq) = some a)
      (hover : a.capacity < f.payload.length) :
      ReadEnds env s r (.error (.framing (.responseTooLarge a.seq f.payload.length a.capacity)))

/-- What a move does to the drive. -/
inductive Does (env : Env) (s s' : Site) : List Milestone → Prop where
  | goesOn (h : s'.watch = s.watch) : Does env s s' []
  | starts (hidle : s.watch.idle = true)
      (h : s'.watch = { s.watch with idle := false, control := some .serving, reads := true }) :
      Does env s s' []
  /-- The drive is given up. -/
  | dropped {r} (hr : s.engine.drive = some r)
      (h : s'.watch = { s.watch with control := none, reads := false }) : Does env s s' []
  | cancelled {r} (hr : s.engine.drive = some r) (hserving : r.control = .serving)
      (htold : env.cancelled = true)
      (h : s'.watch = { s.watch with stopped := true, control := some (.draining (.ok ())) }) :
      Does env s s' [.cancelled]
  | readEnded {r res} (hr : s.engine.drive = some r) (hserved : r.control.reads = true)
      (hends : r.ReadEnds env s res)
      (h : s'.watch = { s.watch with
        stopped := s.engine.stopped || r.control.isServing
        control := some (r.control.readEnded res)
        reads := false }) : Does env s s' [.readEnded res]
  /-- There is nothing left to write, and never will be. -/
  | writeEnded {r} (hr : s.engine.drive = some r) (hw : r.writing = .looking)
      (hqueue : s.engine.queue = []) (hstopped : s.engine.stopped = true)
      (h : s'.watch = { s.watch with
        control := some (.closing (r.control.writeEnded (.ok ())) (s.engine.writeDue env.now)) }) :
      Does env s s' [.writeEnded (.ok ()), .closing (s.engine.writeDue env.now)]
  /-- The stream is dropped as it is. -/
  | writeFailed {r err} (hr : s.engine.drive = some r)
      (hfails : r.writing.Fails env.now r.sealer s.stream.outgoing err)
      (hstream : s'.stream = s.stream.hangUp)
      (h : s'.watch = s.watch.finish (r.control.writeEnded (.error err))) :
      Does env s s' [.writeEnded (.error err)]
  | closed {r res due sealer out} (hr : s.engine.drive = some r)
      (hclosing : r.control = .closing res due)
      (hcloses : r.sealer.advance .closing s.stream.outgoing = some (.ok (none, sealer, out)))
      (hstream : s'.stream = Duplex.hangUp { s.stream with outgoing := out })
      (h : s'.watch = s.watch.finish res) : Does env s s' [.closed due]
  | closeFailed {r res due err} (hr : s.engine.drive = some r)
      (hclosing : r.control = .closing res due) (hbuffer : r.sealer.outlet.held ≠ [])
      (htroubles : s'.log.troubles = s.log.troubles ++ [err])
      (h : s'.watch = s.watch.finish res) : Does env s s' [.closeFailed err]

/-! ### Every move does one of these -/

section
variable {key : SessionKey} {role : Role} {env : Env} {s s' : Site} {e e' : Engine}
  {d d' : Duplex} {events : List Event} {r r' : Drive}

theorem watch_of_drive (hr : s.engine.drive = some r) :
    s.watch = {
      idle := s.engine.phase = .idle
      stopped := s.engine.stopped
      control := some r.control
      reads := r.reading.goesOn
      ended := s.log.ended } := by
  rw [Site.watch, hr]
  rfl

theorem drive_stepCall {now : Nat} {id : CallId}
    (h : e.stepCall now id d = some (e', d', events)) : e'.drive = e.drive := by
  unfold stepCall at h
  split at h
  · cases h
  · split at h
    · cases h
      rw [leave_eq]
    · cases h
    · split at h
      · cases h
        rw [leave_eq]
      · cases h

/-- Once the stream is being closed, the read loop stays where it is. -/
theorem served_of_step {t : Task} (h : e.step env t d = some (e', d', events))
    (hr : e.drive = some r) (hl : Loops e r) (hr' : e'.drive = some r')
    (hchanged : r'.reading ≠ r.reading) : r.control.reads = true := by
  cases hcontrol : r.control with
  | serving
  | draining => rfl
  | closing res due =>
    have hsame : e'.drive ≠ e.drive := fun hdrive => by
      rw [hdrive, hr] at hr'
      exact hchanged (congrArg Drive.reading (Option.some.inj hr').symm)
    have hw : r.writing = .ended := hl.writes.mpr (by rw [hcontrol]; rfl)
    cases t with
    | notify =>
      simp only [step, stepNotify] at h
      split at h
      · cases h
      · cases h
        exact absurd rfl hsame
    | call id => exact absurd (drive_stepCall h) hsame
    | cancel => simp [step, stepCancel, hr, hcontrol] at h
    | read => simp [step, stepRead, hr, hcontrol, Control.reads] at h
    | write => simp [step, stepWrite, hr, hw] at h
    | close =>
      simp only [step, stepClose, hr, hcontrol, finish_eq] at h
      split at h
      · cases h
        cases hr'
      · cases h
        cases hr'
      · cases h
        cases hr'
        exact absurd rfl hchanged
      · obtain ⟨err, -, hfinished⟩ := Option.bind_eq_some_iff.mp h
        cases hfinished
        cases hr'

/-- The end of the read loop, as far as it shows. -/
theorem watch_readEnds (hr : s.engine.drive = some r) (opener : Opener) (res : Except Error Unit)
    (hphase : e.phase = s.engine.phase) (hstopped : e.stopped = s.engine.stopped)
    (hended : (s.logged (e.readLoopEnds { r with opener } res) d events).ended = s.log.ended) :
    (s.after (e.readLoopEnds { r with opener } res) d events).watch = { s.watch with
      stopped := s.engine.stopped || r.control.isServing
      control := some (r.control.readEnded res)
      reads := false } := by
  rw [watch_of_drive hr]
  refine Watch.ext ?_ ?_ ?_ ?_ hended
  · show decide ((e.readLoopEnds _ res).phase = .idle) = decide (s.engine.phase = .idle)
    rw [readLoopEnds_eq]
    exact decide_eq_decide.mpr (by rw [← hphase])
  · show (e.readLoopEnds _ res).stopped = _
    rw [readLoopEnds_eq, ← hstopped]
  · show (e.readLoopEnds _ res).drive.map (·.control) = _
    rw [readLoopEnds_eq]
    rfl
  · show (e.readLoopEnds _ res).drive.any (·.reading.goesOn) = _
    rw [readLoopEnds_eq]
    rfl

theorem does_stepped (h : Stepped env s.engine s.stream e d events)
    (hserved : ∀ r r', s.engine.drive = some r → e.drive = some r' → r'.reading ≠ r.reading →
      r.control.reads = true) : ∃ ys, Does env s (s.after e d events) ys := by
  have hreads : ∀ {r c due} {e' : Engine} {o res}, s.engine.drive = some r →
      r.reading = .reading c due → e = e'.readLoopEnds { r with opener := o } res →
      r.control.reads = true := fun hr hread he => by
    refine hserved _ _ hr (by rw [he, readLoopEnds_eq]) ?_
    rw [hread]
    rintro ⟨⟩
  cases h with
  | notified => exact ⟨_, .goesOn rfl⟩
  | answered
  | expired =>
    rw [leave_eq]
    exact ⟨_, .goesOn rfl⟩
  | cancelled hr hserving htold =>
    exact ⟨_, .cancelled hr hserving htold (by rw [watch_of_drive hr]; rfl)⟩
  | closed hr hclosing hadv => exact ⟨_, .closed hr hclosing hadv rfl rfl⟩
  | closeFailed hr hclosing hbuffer => exact ⟨_, .closeFailed hr hclosing hbuffer rfl rfl⟩
  | emptied hr hw hqueue hstopped hresult =>
    refine ⟨_, .writeEnded hr hw hqueue hstopped ?_⟩
    rw [hresult, watch_of_drive hr, hstopped]
    rfl
  | writeFailed hr hresult hfails =>
    exact ⟨_, .writeFailed hr hfails rfl (by rw [hresult, completeAll_eq]; rfl)⟩
  | readEnded hr hread hadv hres =>
    exact ⟨_, .readEnded hr (hreads hr hread rfl) (.read hread hadv hres)
      (watch_readEnds hr _ _ rfl rfl rfl)⟩
  | readExpired hr hread hexpired =>
    exact ⟨_, .readEnded hr (hreads hr hread rfl) (.late hread (expired_eq_some_iff.mp hexpired).1)
      (watch_readEnds hr _ _ rfl rfl rfl)⟩
  | overflowed hr hread hserves hadv hf ha hover herr =>
    subst herr
    exact ⟨_, .readEnded hr hserves (.overflow hread hadv ha hover)
      (watch_readEnds hr _ _ (by rw [answer_eq]; rfl) (by rw [answer_eq]; rfl) rfl)⟩
  | placed hr =>
    rw [complete_eq]
    exact ⟨_, .goesOn (by rw [watch_of_drive hr]; rfl)⟩
  | resolved hr hread =>
    rw [answer_eq]
    exact ⟨_, .goesOn (by rw [watch_of_drive hr, hread]; rfl)⟩
  | collected hr hread
  | handed hr hread
  | handled hr hread
  | replied hr hread => exact ⟨_, .goesOn (by rw [watch_of_drive hr, hread]; rfl)⟩
  | draining hr
  | batched hr
  | waited hr
  | woken hr
  | batchDone hr
  | begun hr
  | placing hr
  | flushing hr
  | flushed hr => exact ⟨_, .goesOn (by rw [watch_of_drive hr]; rfl)⟩

/-- **Every move does something to the drive, or nothing.** -/
theorem does_of_move (h : Move key role env s s') (hl : Looped s.engine) :
    ∃ ys, Does env s s' ys := by
  cases h with
  | post h =>
    obtain ⟨-, rfl⟩ := post_eq_ok h
    exact ⟨_, .goesOn rfl⟩
  | write _ h =>
    obtain ⟨-, rfl⟩ := write_eq_ok h
    exact ⟨_, .goesOn rfl⟩
  | request _ _ h =>
    obtain ⟨-, rfl⟩ := request_eq_ok h
    exact ⟨_, .goesOn rfl⟩
  | refuse => exact ⟨_, .goesOn rfl⟩
  | giveUp hc =>
    simp only [giveUp, hc, leave_eq]
    exact ⟨_, .goesOn rfl⟩
  | start h =>
    obtain ⟨hidle, rfl⟩ := start_eq_ok h
    exact ⟨_, .starts (decide_eq_true hidle) rfl⟩
  | abandon =>
    cases hr : s.engine.drive with
    | none =>
      simp only [abandon, hr]
      exact ⟨_, .goesOn rfl⟩
    | some r =>
      simp only [abandon, hr, completeAll_eq]
      exact ⟨_, .dropped hr rfl⟩
  | step h =>
    exact does_stepped (stepped_of_step h) fun r r' hr => served_of_step h hr (hl r hr)

end

/-! ### Runs -/

namespace World
variable {key : SessionKey} {role : Role} {w w' w'' : World} {xs ys : List Milestone}

/-- A run, and its milestones in order. -/
inductive Trail (key : SessionKey) (role : Role) (w : World) : List Milestone → World → Prop where
  | refl : Trail key role w [] w
  | near {xs ys w' env s} (h : Trail key role w xs w') (hm : Move key role env w'.toSite s)
      (hdoes : Does env w'.toSite s ys) : Trail key role w (xs ++ ys) { w' with toSite := s }
  | far {xs w' d bytes} (h : Trail key role w xs w')
      (hbytes : bytes ++ d.outgoing.held = w'.stream.outgoing.held) :
      Trail key role w xs { w' with stream := d, heard := w'.heard ++ bytes }

theorem Trail.leads (h : Trail key role w xs w') : Leads key role w w' := by
  induction h with
  | refl => exact .refl
  | near _ hm _ ih => exact ih.tail (.near hm)
  | far _ hbytes ih => exact ih.tail (.far hbytes)

/-- **Every run is a trail.** -/
theorem exists_trail (hw : Reachable key role w) (h : Leads key role w w') :
    ∃ xs, Trail key role w xs w' := by
  induction h with
  | refl => exact ⟨[], .refl⟩
  | @tail u v hleads hstep ih =>
    obtain ⟨xs, htrail⟩ := ih
    cases hstep with
    | near hm =>
      obtain ⟨ys, hdoes⟩ := does_of_move hm fun r => loops_of_reachable (hw.leads hleads)
      exact ⟨xs ++ ys, htrail.near hm hdoes⟩
    | far hbytes => exact ⟨xs, htrail.far hbytes⟩

end World
end Parley.Engine
