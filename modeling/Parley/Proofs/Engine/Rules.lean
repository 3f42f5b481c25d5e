import Parley.Engine.Step

/-! What one step of an engine can do.

The operations of an engine are given by what they leave behind: answering leaves all but
the calls (`completeAll_eq`), a call that is over leaves all but its own entries (`leave_eq`),
the end of a drive leaves nothing waiting (`finish_eq`).

`Stepped` lists the steps themselves, one rule for each thing that can happen, with what has
to hold before and everything that is different after. Whatever task is run, its step is by
one of the rules (`stepped_of_step`). -/
namespace Parley.Engine
open Channel

/-! ### Answers -/

/-- A call, told this outcome if it is one of these and has no answer yet. -/
def Call.told (ids : List CallId) (o : Outcome) (c : Call) : Call :=
  if c.id ∈ ids ∧ c.answer.isNone then { c with answer := some o } else c

@[simp] theorem Call.told_id (ids : List CallId) (o : Outcome) (c : Call) :
    (c.told ids o).id = c.id := by
  unfold told
  split <;> rfl

theorem Call.told_of_answer {ids : List CallId} {o o' : Outcome} {c : Call}
    (h : c.answer = some o') : c.told ids o = c := by
  rw [told, if_neg]
  simp [h]

theorem Call.told_of_not_mem {ids : List CallId} {o : Outcome} {c : Call} (h : c.id ∉ ids) :
    c.told ids o = c := by
  rw [told, if_neg]
  exact fun hc => h hc.1

theorem Call.told_of_mem {ids : List CallId} {o : Outcome} {c : Call} (h : c.id ∈ ids)
    (hc : c.answer = none) : c.told ids o = { c with answer := some o } := by
  rw [told, if_pos]
  exact ⟨h, by rw [hc]; rfl⟩

theorem Call.told_nil (o : Outcome) (c : Call) : c.told [] o = c :=
  told_of_not_mem (List.not_mem_nil)

theorem Call.told_told (ids ids' : List CallId) (o : Outcome) (c : Call) :
    (c.told ids o).told ids' o = c.told (ids ++ ids') o := by
  cases hc : c.answer with
  | some _ => rw [told_of_answer hc, told_of_answer hc, told_of_answer hc]
  | none =>
    by_cases h : c.id ∈ ids
    · rw [told_of_mem h hc, told_of_mem (List.mem_append_left ids' h) hc]
      exact told_of_answer rfl
    · rw [told_of_not_mem h]
      by_cases h' : c.id ∈ ids'
      · rw [told_of_mem h' hc, told_of_mem (List.mem_append_right ids h') hc]
      · rw [told_of_not_mem h', told_of_not_mem]
        exact fun hmem => (List.mem_append.mp hmem).elim h h'

/-- These calls are told an outcome. -/
def tell (e : Engine) (ids : List CallId) (o : Outcome) : Engine :=
  { e with calls := e.calls.map (Call.told ids o) }

theorem tell_nil (e : Engine) (o : Outcome) : e.tell [] o = e := by
  have hcalls : e.calls.map (Call.told [] o) = e.calls :=
    (List.map_congr_left fun c _ => Call.told_nil o c).trans (List.map_id e.calls)
  rw [tell, hcalls]

theorem tell_tell (e : Engine) (ids ids' : List CallId) (o : Outcome) :
    (e.tell ids o).tell ids' o = e.tell (ids ++ ids') o := by
  simp only [tell, List.map_map, Function.comp_def, Call.told_told]

theorem answer_eq (e : Engine) (id : CallId) (o : Outcome) : e.answer id o = e.tell [id] o := by
  have htold : Call.told [id] o =
      fun c => if c.id = id ∧ c.answer.isNone then { c with answer := some o } else c := by
    funext c
    simp only [Call.told, List.mem_singleton]
  rw [tell, htold, answer]

/-- What a call comes to when its frame is disposed of. -/
def disposal (written : Bool) : Outcome := if written then .done else .failed .closed

theorem complete_eq (e : Engine) (o : Outgoing) (written : Bool) :
    e.complete o written = e.tell o.waiter.toList (disposal written) := by
  cases h : o.waiter with
  | none => simp only [complete, h, Option.toList_none, tell_nil]
  | some id => simp only [complete, h, answer_eq, Option.toList_some, disposal]

/-- Completing frames tells the calls that wait for them, and changes nothing else. -/
theorem completeAll_eq (e : Engine) (os : List Outgoing) (written : Bool) :
    e.completeAll os written = e.tell (os.filterMap (·.waiter)) (disposal written) := by
  induction os generalizing e with
  | nil => exact (tell_nil e _).symm
  | cons o os ih =>
    show (e.complete o written).completeAll os written = _
    rw [ih, complete_eq, tell_tell]
    cases h : o.waiter <;> simp [h]

theorem answerAll_eq (e : Engine) (as : List Awaited) (o : Outcome) :
    as.foldl (fun e a => e.answer a.call o) e = e.tell (as.map (·.call)) o := by
  induction as generalizing e with
  | nil => exact (tell_nil e _).symm
  | cons a as ih =>
    rw [List.foldl_cons, ih, answer_eq, tell_tell]
    rfl

/-! ### Ends -/

/-- A call that is over leaves its own entry and no other. -/
theorem leave_eq (e : Engine) (c : Call) :
    e.leave c = { e with
      calls := e.calls.filter (·.id != c.id)
      table := match c.wait with
        | .written => e.table
        | .response seq _ => e.table.filter fun a =>
            a.seq != seq || (e.calls.filter (·.id != c.id)).any (·.id == a.call) } := by
  unfold leave
  cases c.wait <;> rfl

theorem queue_leave (e : Engine) (c : Call) : (e.leave c).queue = e.queue := by
  rw [leave_eq]

/-- What the end of a drive leaves: nothing that waits, and no call without an answer
whose frame was queued or whose response was awaited. -/
def finished (e : Engine) : Engine :=
  { e.tell (e.queue.filterMap (·.waiter) ++ e.table.map (·.call)) (.failed .closed) with
    phase := .closed
    stopped := true
    queue := []
    table := []
    drive := none }

/-- Calls that were told before that the stream is gone are told so once. -/
theorem calls_finished {e e' : Engine} {ids : List CallId}
    (hcalls : e'.calls = e.calls.map (Call.told ids (.failed .closed))) :
    e'.finished.calls = e.calls.map (Call.told
      (ids ++ (e'.queue.filterMap (·.waiter) ++ e'.table.map (·.call))) (.failed .closed)) := by
  simp only [finished, tell, hcalls, List.map_map, Function.comp_def, Call.told_told]

theorem finish_eq (e : Engine) (d : Duplex) (result : Except Error Unit) (causes : List Event) :
    e.finish d result causes = some (e.finished, d.hangUp, causes ++ [.ended result]) := by
  unfold finish finished
  simp only [completeAll_eq]
  rw [answerAll_eq, ← tell_tell]
  rfl

/-- Where the end of the read loop leaves the supervisor. -/
def Control.readEnded (res : Except Error Unit) : Control → Control
  | .serving => .draining res
  | c => c

/-- What the drive comes to when the write loop ends: what came first counts. -/
def Control.writeEnded (res : Except Error Unit) : Control → Except Error Unit
  | .serving => res
  | .draining result => result
  | .closing result _ => result

/-- Whether the end of the read loop stops the engine. -/
def Control.isServing : Control → Bool
  | .serving => true
  | _ => false

theorem readLoopEnds_eq (e : Engine) (r : Drive) (res : Except Error Unit) :
    e.readLoopEnds r res = { e with
      stopped := e.stopped || r.control.isServing
      owed := if r.control.isServing then e.owed + 1 else e.owed
      drive := some { r with reading := .ended, control := r.control.readEnded res } } := by
  unfold readLoopEnds
  cases h : r.control <;> simp [stop, driving, Control.isServing, Control.readEnded]

/-- A frame is taken if its payload may be sent and frames still are. -/
theorem refusal_eq_none {e : Engine} {length : Nat} (h : e.refusal length = none) :
    Frame.checkPayload length e.settings.maxWrite = .ok () ∧ e.stopped = false := by
  unfold refusal at h
  split at h
  · cases h
  · rename_i hcheck
    split at h
    · cases h
    · rename_i hopen
      exact ⟨hcheck, Bool.eq_false_iff.mpr hopen⟩

/-! ### The rules -/

/-- What the write loop is at, under a deadline. -/
def WriteLoop.job? : WriteLoop → Option (Sealer.Job × Nat)
  | .writing job due _ _ _ => some (job, due)
  | .flushing due _ => some (.flushing, due)
  | _ => none

/-- Why the write loop fails: a frame cannot be sealed, the stream is gone, or what it is at has
taken too long. -/
inductive WriteLoop.Fails (now : Nat) (s : Sealer) (p : Pipe) (l : WriteLoop) : Error → Prop where
  | sealing {o rest count err} (hl : l = .next (o :: rest) count)
      (h : s.write o.frame = .error err) : Fails now s p l err
  | broken {job due err} (hl : l.job? = some (job, due)) (h : s.advance job p = some (.error err)) :
      Fails now s p l (.io err)
  | late {job due} (hl : l.job? = some (job, due)) (h : s.advance job p = none)
      (hdue : due ≤ now) : Fails now s p l (.timeout .write)

/-- What reading comes to, if there is no more to read. -/
def readingEnd : Opener.Reading → Option (Except Error Unit)
  | .ended => some (.ok ())
  | .failed err => some (.error err)
  | _ => none

/-- One step of an engine and its stream, and what it reports. -/
inductive Stepped (env : Env) (e : Engine) (d : Duplex) : Engine → Duplex → List Event → Prop where
  | notified (howed : e.owed ≠ 0) :
      Stepped env e d { e with owed := e.owed - 1, notified := true } d []
  -- Calls
  | answered {id c o} (hc : e.calls.find? (·.id == id) = some c) (ho : c.answer = some o) :
      Stepped env e d (e.leave c) d [.returned id o]
  | expired {id c seq due} (hc : e.calls.find? (·.id == id) = some c) (ho : c.answer = none)
      (hwait : c.wait = .response seq due) (hdue : due ≤ env.now) :
      Stepped env e d (e.leave c) d
        [.requestTimedOut, .returned id (.failed (.timeout .request))]
  -- The supervisor
  | cancelled {r} (hr : e.drive = some r) (hserving : r.control = .serving)
      (htold : env.cancelled = true) :
      Stepped env e d (e.stop.driving { r with control := .draining (.ok ()) }) d []
  | draining {r result due job s out} (hr : e.drive = some r)
      (hclosing : r.control = .closing result due)
      (h : r.sealer.advance .closing d.outgoing = some (.ok (some job, s, out))) :
      Stepped env e d (e.driving { r with sealer := s }) { d with outgoing := out } []
  | closed {r result due s out} (hr : e.drive = some r) (hclosing : r.control = .closing result due)
      (h : r.sealer.advance .closing d.outgoing = some (.ok (none, s, out))) :
      Stepped env e d e.finished (Duplex.hangUp { d with outgoing := out }) [.ended result]
  | closeFailed {r result due err} (hr : e.drive = some r)
      (hclosing : r.control = .closing result due) (hbuffer : r.sealer.outlet.held ≠ []) :
      Stepped env e d e.finished d.hangUp [.closeFailed err, .ended result]
  -- The write loop
  | batched {r} (hr : e.drive = some r) (hw : r.writing = .looking) (hqueue : e.queue ≠ []) :
      Stepped env e d
        ({ e with queue := [] }.driving { r with writing := .next e.queue e.queue.length }) d []
  | emptied {r result} (hr : e.drive = some r) (hw : r.writing = .looking) (hqueue : e.queue = [])
      (hstopped : e.stopped = true) (hresult : r.control.writeEnded (.ok ()) = result) :
      Stepped env e d (e.close env.now r result) d []
  | waited {r} (hr : e.drive = some r) (hw : r.writing = .looking) (hqueue : e.queue = [])
      (hopen : e.stopped = false) :
      Stepped env e d (e.driving { r with writing := .waiting }) d []
  | woken {r} (hr : e.drive = some r) (hw : r.writing = .waiting) (hnotified : e.notified = true) :
      Stepped env e d ({ e with notified := false }.driving { r with writing := .looking }) d []
  | batchDone {r count} (hr : e.drive = some r) (hw : r.writing = .next [] count) :
      Stepped env e d (e.driving { r with writing := .flushing (e.writeDue env.now) count }) d []
  | begun {r o rest count job s} (hr : e.drive = some r) (hw : r.writing = .next (o :: rest) count)
      (h : r.sealer.write o.frame = .ok (job, s)) :
      Stepped env e d
        (e.driving { r with
          sealer := s, writing := .writing job (e.writeDue env.now) o rest count }) d []
  | placing {r job due current rest count job' s out} (hr : e.drive = some r)
      (hw : r.writing = .writing job due current rest count)
      (h : r.sealer.advance job d.outgoing = some (.ok (some job', s, out))) :
      Stepped env e d
        (e.driving { r with sealer := s, writing := .writing job' due current rest count })
        { d with outgoing := out } []
  | placed {r job due current rest count s out} (hr : e.drive = some r)
      (hw : r.writing = .writing job due current rest count)
      (h : r.sealer.advance job d.outgoing = some (.ok (none, s, out))) :
      Stepped env e d
        ((e.complete current true).driving { r with sealer := s, writing := .next rest count })
        { d with outgoing := out } [.written current]
  | flushing {r due count job s out} (hr : e.drive = some r) (hw : r.writing = .flushing due count)
      (h : r.sealer.advance .flushing d.outgoing = some (.ok (some job, s, out))) :
      Stepped env e d (e.driving { r with sealer := s }) { d with outgoing := out } []
  | flushed {r due count s out} (hr : e.drive = some r) (hw : r.writing = .flushing due count)
      (h : r.sealer.advance .flushing d.outgoing = some (.ok (none, s, out))) :
      Stepped env e d (e.driving { r with sealer := s, writing := .looking })
        { d with outgoing := out } [.sent count]
  | writeFailed {r err result} (hr : e.drive = some r)
      (hresult : r.control.writeEnded (.error err) = result)
      (hfails : r.writing.Fails env.now r.sealer d.outgoing err) :
      Stepped env e d (e.completeAll r.writing.batch false).stop.finished d.hangUp
        [.writeFailed err, .ended result]
  -- The read loop
  | collected {r c due c' o inc} (hr : e.drive = some r) (hread : r.reading = .reading c due)
      (h : r.opener.advance c d.incoming = some (.partly c', o, inc)) :
      Stepped env e d (e.driving { r with opener := o, reading := .reading c' due })
        { d with incoming := inc } []
  | readEnded {r c due reading o inc res} (hr : e.drive = some r)
      (hread : r.reading = .reading c due)
      (h : r.opener.advance c d.incoming = some (reading, o, inc))
      (hres : readingEnd reading = some res) :
      Stepped env e d (e.readLoopEnds { r with opener := o } res) { d with incoming := inc } []
  | readExpired {r c due} (hr : e.drive = some r) (hread : r.reading = .reading c due)
      (hexpired : expired due .read env.now = some (.timeout .read)) :
      Stepped env e d (e.readLoopEnds r (.error (.timeout .read))) d []
  | handed {r c due f o inc} (hr : e.drive = some r) (hread : r.reading = .reading c due)
      (h : r.opener.advance c d.incoming = some (.frame f, o, inc))
      (hother : f.isMessage = true ∨ e.table.find? (·.seq == f.seq) = none) :
      Stepped env e d (e.driving { r with opener := o, reading := .handling f })
        { d with incoming := inc } [.received f]
  | resolved {r c due f o inc a} (hr : e.drive = some r) (hread : r.reading = .reading c due)
      (h : r.opener.advance c d.incoming = some (.frame f, o, inc)) (hf : f.isMessage = false)
      (ha : e.table.find? (·.seq == f.seq) = some a) (hfits : f.payload.length ≤ a.capacity) :
      Stepped env e d
        (({ e with table := e.table.filter (·.seq != a.seq) }.answer a.call
          (.response f.payload)).readOn env { r with opener := o })
        { d with incoming := inc } [.received f]
  | overflowed {r c due f o inc a err} (hr : e.drive = some r) (hread : r.reading = .reading c due)
      (hreads : r.control.reads = true)
      (h : r.opener.advance c d.incoming = some (.frame f, o, inc)) (hf : f.isMessage = false)
      (ha : e.table.find? (·.seq == f.seq) = some a) (hover : a.capacity < f.payload.length)
      (herr : err = .framing (.responseTooLarge a.seq f.payload.length a.capacity)) :
      Stepped env e d
        (({ e with table := e.table.filter (·.seq != a.seq) }.answer a.call
          (.failed err)).readLoopEnds { r with opener := o } (.error err))
        { d with incoming := inc } [.received f]
  | handled {r f} (hr : e.drive = some r) (hread : r.reading = .handling f)
      (hsilent : f.isMessage = true ∨
        ∀ payload, env.reply f.payload = some payload → e.refusal payload.length ≠ none) :
      Stepped env e d (e.readOn env r) d [.delivered f]
  | replied {r f payload} (hr : e.drive = some r) (hread : r.reading = .handling f)
      (hf : f.isMessage = false) (hreply : env.reply f.payload = some payload)
      (htaken : e.refusal payload.length = none) :
      Stepped env e d ((e.readOn env r).enqueue { frame := ⟨f.seq, payload⟩ }) d [.delivered f]

section
variable {env : Env} {e e' : Engine} {d d' : Duplex} {events : List Event}

theorem stepped_of_stepNotify (h : e.stepNotify d = some (e', d', events)) :
    Stepped env e d e' d' events := by
  unfold stepNotify at h
  split at h
  · cases h
  · rename_i howed
    cases h
    exact .notified howed

theorem stepped_of_stepCall {id : CallId} (h : e.stepCall env.now id d = some (e', d', events)) :
    Stepped env e d e' d' events := by
  unfold stepCall at h
  cases hc : e.calls.find? (·.id == id) with
  | none => simp only [hc] at h; cases h
  | some c =>
    simp only [hc] at h
    cases ho : c.answer with
    | some o =>
      simp only [ho] at h
      cases h
      exact .answered hc ho
    | none =>
      cases hwait : c.wait with
      | written => simp only [ho, hwait] at h; cases h
      | response seq due =>
        simp only [ho, hwait] at h
        split at h
        · rename_i hdue
          cases h
          exact .expired hc ho hwait hdue
        · cases h

theorem stepped_of_stepCancel (h : e.stepCancel env d = some (e', d', events)) :
    Stepped env e d e' d' events := by
  unfold stepCancel at h
  cases hr : e.drive with
  | none => simp only [hr] at h; cases h
  | some r =>
    obtain ⟨sealer, opener, writing, reading, control⟩ := r
    cases control with
    | serving =>
      simp only [hr] at h
      split at h
      · rename_i htold
        cases h
        exact .cancelled hr rfl htold
      · cases h
    | draining => simp only [hr] at h; cases h
    | closing => simp only [hr] at h; cases h

theorem stepped_of_stepClose (h : e.stepClose env d = some (e', d', events)) :
    Stepped env e d e' d' events := by
  unfold stepClose at h
  cases hr : e.drive with
  | none => simp only [hr] at h; cases h
  | some r =>
    obtain ⟨sealer, opener, writing, reading, control⟩ := r
    cases control with
    | serving => simp only [hr] at h; cases h
    | draining => simp only [hr] at h; cases h
    | closing result due =>
      simp only [hr, finish_eq] at h
      -- An empty buffer is closed at once.
      have hempty : sealer.outlet.held = [] →
          sealer.advance .closing d.outgoing = some (.ok (none, sealer, d.outgoing.close)) :=
        fun hheld => by rw [Sealer.advance, if_pos hheld]
      cases hadv : sealer.advance .closing d.outgoing with
      | none =>
        simp only [hadv] at h
        obtain ⟨err, -, h⟩ := Option.bind_eq_some_iff.mp h
        cases h
        exact .closeFailed hr rfl fun hheld => nomatch hadv.symm.trans (hempty hheld)
      | some x =>
        match x with
        | .error err =>
          simp only [hadv] at h
          cases h
          exact .closeFailed hr rfl fun hheld => nomatch hadv.symm.trans (hempty hheld)
        | .ok (none, s, out) =>
          simp only [hadv] at h
          cases h
          exact .closed hr rfl hadv
        | .ok (some job, s, out) =>
          simp only [hadv] at h
          cases h
          exact .draining hr rfl hadv

/-! The write loop -/

theorem stepped_of_takeBatch {r : Drive} (hr : e.drive = some r) (hw : r.writing = .looking)
    (h : e.takeBatch env r d = some (e', d', events)) : Stepped env e d e' d' events := by
  unfold takeBatch at h
  split at h
  · rename_i hqueue
    cases h
    exact .batched hr hw hqueue
  · rename_i hqueue
    have hempty : e.queue = [] := Decidable.not_not.mp hqueue
    split at h
    · rename_i hstopped
      cases hcontrol : r.control <;> simp only [writeLoopEnds, hcontrol] at h <;> cases h <;>
        exact .emptied hr hw hempty hstopped (by rw [hcontrol]; rfl)
    · rename_i hopen
      cases h
      exact .waited hr hw hempty (Bool.eq_false_iff.mpr hopen)

/-- Whatever writing failed on, the drive is over. -/
theorem stepped_of_writeFails {r : Drive} {err : Error} (hr : e.drive = some r)
    (hfails : r.writing.Fails env.now r.sealer d.outgoing err)
    (h : e.writeFails env r d r.writing.batch err = some (e', d', events)) :
    Stepped env e d e' d' events := by
  cases hcontrol : r.control <;> simp only [writeFails, writeLoopEnds, hcontrol, finish_eq] at h <;>
    cases h <;> exact .writeFailed hr (by rw [hcontrol]; rfl) hfails

theorem stepped_of_startFrame {r : Drive} {batch : List Outgoing} {count : Nat}
    (hr : e.drive = some r) (hw : r.writing = .next batch count)
    (h : e.startFrame env r d count batch = some (e', d', events)) :
    Stepped env e d e' d' events := by
  cases batch with
  | nil =>
    cases h
    exact .batchDone hr hw
  | cons o rest =>
    simp only [startFrame] at h
    cases hwrite : r.sealer.write o.frame with
    | error err =>
      simp only [hwrite] at h
      have hfails : e.writeFails env r d r.writing.batch err = some (e', d', events) := by
        rw [hw]
        exact h
      exact stepped_of_writeFails hr (.sealing hw hwrite) hfails
    | ok x =>
      obtain ⟨job, s⟩ := x
      simp only [hwrite] at h
      cases h
      exact .begun hr hw hwrite

theorem stepped_of_stepWrite (h : e.stepWrite env d = some (e', d', events)) :
    Stepped env e d e' d' events := by
  unfold stepWrite at h
  cases hr : e.drive with
  | none => simp only [hr] at h; cases h
  | some r =>
    obtain ⟨sealer, opener, writing, reading, control⟩ := r
    simp only [hr] at h
    cases writing with
    | looking => exact stepped_of_takeBatch hr rfl h
    | waiting =>
      simp only at h
      split at h
      · rename_i hnotified
        cases h
        exact .woken hr rfl hnotified
      · cases h
    | next batch count => exact stepped_of_startFrame hr rfl h
    | writing job due current rest count =>
      cases hadv : sealer.advance job d.outgoing with
      | none =>
        simp only [hadv] at h
        obtain ⟨err, hexpired, h⟩ := Option.bind_eq_some_iff.mp h
        obtain ⟨hdue, rfl⟩ := expired_eq_some_iff.mp hexpired
        exact stepped_of_writeFails hr (.late rfl hadv (of_decide_eq_true hdue)) h
      | some x =>
        match x with
        | .error err =>
          simp only [hadv] at h
          exact stepped_of_writeFails hr (.broken rfl hadv) h
        | .ok (some job, s, out) =>
          simp only [hadv] at h
          cases h
          exact .placing hr rfl hadv
        | .ok (none, s, out) =>
          simp only [hadv] at h
          cases h
          exact .placed hr rfl hadv
    | flushing due count =>
      cases hadv : sealer.advance .flushing d.outgoing with
      | none =>
        simp only [hadv] at h
        obtain ⟨err, hexpired, h⟩ := Option.bind_eq_some_iff.mp h
        obtain ⟨hdue, rfl⟩ := expired_eq_some_iff.mp hexpired
        exact stepped_of_writeFails hr (.late rfl hadv (of_decide_eq_true hdue)) h
      | some x =>
        match x with
        | .error err =>
          simp only [hadv] at h
          exact stepped_of_writeFails hr (.broken rfl hadv) h
        | .ok (some job, s, out) =>
          simp only [hadv] at h
          cases h
          exact .flushing hr rfl hadv
        | .ok (none, s, out) =>
          simp only [hadv] at h
          cases h
          exact .flushed hr rfl hadv
    | ended => cases h

/-! The read loop -/

/-- A frame that was read goes to the application or to the request it answers. -/
theorem stepped_of_dispatch {r : Drive} {c : Bytes} {due : Option Nat} {f : Frame} {o : Opener}
    {inc : Pipe} (hr : e.drive = some r) (hreads : r.control.reads = true)
    (hread : r.reading = .reading c due)
    (hadv : r.opener.advance c d.incoming = some (.frame f, o, inc)) :
    Stepped env e d (e.dispatch env { r with opener := o } f) { d with incoming := inc }
      [.received f] := by
  unfold dispatch
  split
  · rename_i hf
    exact .handed (r := r) hr hread hadv (.inl hf)
  · rename_i hf
    cases ha : e.table.find? (·.seq == f.seq) with
    | none => exact .handed (r := r) hr hread hadv (.inr ha)
    | some a =>
      simp only [resolve]
      split
      · rename_i hover
        exact .overflowed (r := r) hr hread hreads hadv (Bool.eq_false_iff.mpr hf) ha hover rfl
      · rename_i hfits
        exact .resolved (r := r) hr hread hadv (Bool.eq_false_iff.mpr hf) ha
          (Nat.le_of_not_gt hfits)

/-- The application's reply is queued, or there is none that can be. -/
theorem stepped_of_handled {r : Drive} {f : Frame} (hr : e.drive = some r)
    (hread : r.reading = .handling f) :
    Stepped env e d (e.handled env r f) d [.delivered f] := by
  unfold handled
  split
  · rename_i hf
    exact .handled hr hread (.inl hf)
  · rename_i hf
    cases hreply : env.reply f.payload with
    | none =>
      refine .handled hr hread (.inr fun payload hsome => ?_)
      rw [hreply] at hsome
      cases hsome
    | some payload =>
      simp only [reply]
      cases htaken : (e.readOn env r).refusal payload.length with
      | some err =>
        refine .handled hr hread (.inr fun payload' hsome hnone => ?_)
        obtain rfl := Option.some.inj (hreply.symm.trans hsome)
        exact absurd (htaken.symm.trans hnone) (Option.some_ne_none err)
      | none => exact .replied hr hread (Bool.eq_false_iff.mpr hf) hreply htaken

theorem stepped_of_stepRead (h : e.stepRead env d = some (e', d', events)) :
    Stepped env e d e' d' events := by
  unfold stepRead at h
  cases hr : e.drive with
  | none => simp only [hr] at h; cases h
  | some r =>
    obtain ⟨sealer, opener, writing, reading, control⟩ := r
    simp only [hr] at h
    split at h
    · cases h
    · rename_i hstill
      have hreads : control.reads = true := by simpa using hstill
      cases reading with
      | ended => cases h
      | handling f =>
        simp only at h
        split at h
        · cases h
          exact stepped_of_handled hr rfl
        · cases h
      | reading c due =>
        simp only at h
        cases hadv : opener.advance c d.incoming with
        | none =>
          simp only [hadv] at h
          obtain ⟨err, hexpired, h⟩ := Option.map_eq_some_iff.mp h
          obtain ⟨-, rfl⟩ := expired_eq_some_iff.mp hexpired
          cases h
          exact .readExpired hr rfl hexpired
        | some x =>
          obtain ⟨reading, o, inc⟩ := x
          simp only [hadv] at h
          cases reading with
          | partly c' =>
            cases h
            exact .collected hr rfl hadv
          | ended =>
            cases h
            exact .readEnded hr rfl hadv rfl
          | failed err =>
            cases h
            exact .readEnded hr rfl hadv rfl
          | frame f =>
            cases h
            exact stepped_of_dispatch hr hreads rfl hadv

/-- Every step is by one of the rules. -/
theorem stepped_of_step {t : Task} (h : e.step env t d = some (e', d', events)) :
    Stepped env e d e' d' events := by
  cases t with
  | notify => exact stepped_of_stepNotify h
  | call id => exact stepped_of_stepCall h
  | cancel => exact stepped_of_stepCancel h
  | read => exact stepped_of_stepRead h
  | write => exact stepped_of_stepWrite h
  | close => exact stepped_of_stepClose h

end
end Parley.Engine
