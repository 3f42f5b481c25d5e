import Parley.Proofs.Engine.Attending

/-! What a serving engine sends back.

Every step of an engine that only serves, and of its far end, brings both closer to the end:
something is read, or nothing is read and less is left to write, or a byte that was written is
read at the far end (`Attends.lighter`). Where the engine can make no step the far end can
(`Attends.ready`). So whatever the order in which they go, they come to the end, and what the far
end has read then are the answers to its frames (`service_law`). -/
namespace Parley.Engine
open Channel

/-! ### What is left to do -/

/-- How many steps the read loop makes at most, with what it has at hand. -/
def ReadLoop.weight : ReadLoop → Nat
  | .reading .. => 1
  | .handling _ => 2
  | .ended => 0

/-- Looking at an empty queue costs more than waiting for a frame. -/
def WriteLoop.unrest : WriteLoop → Nat
  | .looking => 3
  | _ => 0

def Drive.unread (r : Drive) : Nat := 2 * r.opener.ahead.length + r.reading.weight

/-- What is left to write, if nothing more is read. -/
def toil (e : Engine) : Nat :=
  2 * e.effort + e.owed + 2 * e.notified.toNat + (e.drive.map (·.writing.unrest)).getD 0

/-- What is left to read. -/
def Attended.unread (x : Attended) : Nat :=
  6 * x.coming.length + 4 * x.stream.incoming.held.length +
    (x.engine.drive.map Drive.unread).getD 0 + (!x.stream.incoming.closed).toNat

/-- Less is left to read; or no more, and less to write; or no more, and less to be heard. -/
def Attended.Lighter (y x : Attended) : Prop :=
  y.unread < x.unread ∨ y.unread ≤ x.unread ∧ (y.engine.toil < x.engine.toil ∨
    y.engine.toil ≤ x.engine.toil ∧
      y.stream.outgoing.held.length < x.stream.outgoing.held.length)

variable {key : SessionKey} {role : Role} {env : Env} {reply : Bytes → Option Bytes}
  {c : Config.Connection} {out inc : Nat} {fs : List Frame} {x y : Attended}
  {r : Drive} {e e' : Engine} {d d' : Duplex} {events : List Event}

theorem toil_of_drive (hr : e.drive = some r) : e.toil =
    2 * (e.load + r.effort) + e.owed + 2 * e.notified.toNat + r.writing.unrest := by
  rw [toil, effort_of_drive hr, hr]
  rfl

theorem toil_of_none (hr : e.drive = none) : e.toil =
    2 * e.load + e.owed + 2 * e.notified.toNat := by
  rw [toil, effort_of_none hr, hr]
  rfl

theorem Attended.unread_of_drive (hr : x.engine.drive = some r) : x.unread =
    2 * r.opener.effort x.stream.incoming x.coming + r.reading.weight +
      (!x.stream.incoming.closed).toNat := by
  rw [unread, hr]
  show _ + (2 * r.opener.ahead.length + r.reading.weight) + _ = _
  rw [Opener.effort]
  omega

/-- No more is left to read when the drive is over and the stream is given up. -/
theorem Attended.unread_over_le (x : Attended) {s : Site} (hdrive : s.engine.drive = none)
    (hheld : s.stream.incoming.held = x.stream.incoming.held)
    (hclosed : s.stream.incoming.closed = true) : (x.near s).unread ≤ x.unread := by
  simp only [unread, hdrive, hheld, hclosed]
  simp only [Option.map_none, Option.getD_none, Bool.not_true, Bool.toNat_false]
  omega

/-- The end of a drive leaves less to write, though it may owe one more notification. -/
theorem toil_finished_lt (hr : e.drive = some r) (howed : e'.owed ≤ e.owed + 1)
    (hcalls : e'.calls.length = e.calls.length) (hnotified : e'.notified = e.notified) :
    e'.finished.toil < e.toil := by
  have hless := effort_finished_lt hr howed hcalls
  have hnone : e'.finished.drive = none := rfl
  have howed' : e'.finished.owed = e'.owed := rfl
  have hnotified' : e'.finished.notified = e.notified := hnotified
  rw [toil, toil, hnone, howed', hnotified']
  simp only [Option.map_none, Option.getD_none]
  omega

/-- The engine has less to read, or no more and less to write. -/
def Attended.Relieved (y x : Attended) : Prop :=
  y.unread < x.unread ∨ y.unread ≤ x.unread ∧ y.engine.toil < x.engine.toil

theorem Attended.Relieved.lighter (h : y.Relieved x) : y.Lighter x :=
  h.imp_right fun ⟨hle, hlt⟩ => ⟨hle, .inl hlt⟩

theorem toil_leave_lt {call : Call} (hcall : call ∈ e.calls) : (e.leave call).toil < e.toil := by
  have hless := length_leave_lt hcall
  rw [leave_eq]
  simp only [toil, effort, load]
  omega

/-- The write loop does some of its work, and the read loop stays as it is. -/
theorem relieved_of_work {r' : Drive} (hr : x.engine.drive = some r) (hr' : e.drive = some r')
    (hopener : r'.opener = r.opener) (hreading : r'.reading = r.reading)
    (hincoming : d.incoming = x.stream.incoming)
    (hless : 2 * (e.load + r'.effort) + e.owed + 2 * e.notified.toNat + r'.writing.unrest <
      2 * (x.engine.load + r.effort) + x.engine.owed + 2 * x.engine.notified.toNat +
        r.writing.unrest) :
    (x.near (x.after e d events)).Relieved x := by
  refine .inr ⟨Nat.le_of_eq ?_, ?_⟩
  · rw [Attended.unread_of_drive hr, Attended.unread_of_drive (x := x.near _) hr', hopener,
      hreading]
    show 2 * r.opener.effort d.incoming x.coming + _ + (!d.incoming.closed).toNat = _
    rw [hincoming]
  · show e.toil < x.engine.toil
    rw [toil_of_drive hr', toil_of_drive hr]
    exact hless

/-- The write loop lowers its effort, and there is no more to do besides. -/
theorem relieved_of_effort {r' : Drive} (hr : x.engine.drive = some r) (hr' : e.drive = some r')
    (hopener : r'.opener = r.opener) (hreading : r'.reading = r.reading)
    (hincoming : d.incoming = x.stream.incoming) (hload : e.load = x.engine.load)
    (howed : e.owed = x.engine.owed) (hnotified : e.notified = x.engine.notified)
    (hless : r'.effort < r.effort) (hunrest : r'.writing.unrest ≤ r.writing.unrest) :
    (x.near (x.after e d events)).Relieved x := by
  refine relieved_of_work hr hr' hopener hreading hincoming ?_
  rw [hload, howed, hnotified]
  omega

/-- The read loop does some of its work. -/
theorem relieved_of_read {r' : Drive} (hr : x.engine.drive = some r) (hr' : e.drive = some r')
    (hless : 2 * r'.opener.effort d.incoming x.coming + r'.reading.weight +
        (!d.incoming.closed).toNat <
      2 * r.opener.effort x.stream.incoming x.coming + r.reading.weight +
        (!x.stream.incoming.closed).toNat) :
    (x.near (x.after e d events)).Relieved x := by
  left
  rw [Attended.unread_of_drive hr, Attended.unread_of_drive (x := x.near _) hr']
  exact hless

/-- **A step of the engine leaves less to read, or no more and less to write**, unless it takes up
a cancellation. -/
theorem relieved_stepped (hr : x.engine.drive = some r)
    (hahead : ∀ c', r.reading.collected = some c' →
      ∃ gs, r.opener.Ahead c' x.stream.incoming x.coming gs)
    (h : Stepped env x.engine x.stream e d events) :
    (x.near (x.after e d events)).Relieved x ∨ env.cancelled = true ∧ r.control = .serving ∧
      e = x.engine.stop.driving { r with control := .draining (.ok ()) } ∧ d = x.stream := by
  have hdrive : ∀ {r'}, x.engine.drive = some r' → r = r' := fun hr' =>
    Option.some.inj (hr.symm.trans hr')
  by_cases hcancel : env.cancelled = true ∧ r.control = .serving ∧
      e = x.engine.stop.driving { r with control := .draining (.ok ()) } ∧ d = x.stream
  · exact .inr hcancel
  refine .inl ?_
  cases h with
  | notified howed =>
    have := Bool.toNat_le x.engine.notified
    have hless : Engine.toil { x.engine with owed := x.engine.owed - 1, notified := true } <
        x.engine.toil := by
      simp only [toil, effort, load, Bool.toNat_true]
      omega
    exact .inr ⟨Nat.le_refl _, hless⟩
  | answered hc
  | expired hc =>
    have hcall := List.mem_of_find?_eq_some hc
    refine .inr ⟨Nat.le_of_eq ?_, toil_leave_lt hcall⟩
    rw [leave_eq]
    rfl
  | cancelled hr' hserving htold =>
    obtain rfl := hdrive hr'
    exact absurd ⟨htold, hserving, rfl, rfl⟩ hcancel
  | closed hr'
  | closeFailed hr' =>
    exact .inr ⟨x.unread_over_le rfl rfl rfl, toil_finished_lt hr' (Nat.le_succ _) rfl rfl⟩
  | writeFailed hr' =>
    refine .inr ⟨x.unread_over_le rfl rfl rfl, ?_⟩
    rw [completeAll_eq]
    exact toil_finished_lt hr' (Nat.le_refl _) (List.length_map _) rfl
  -- The write loop goes on.
  | batched hr' hw hqueue =>
    obtain rfl := hdrive hr'
    have := List.length_pos_iff.mpr hqueue
    refine relieved_of_work hr rfl rfl rfl rfl ?_
    simp only [load, driving, Drive.effort, WriteLoop.effort, WriteLoop.unrest, efforts,
      List.length_nil, hw]
    omega
  | emptied hr' hw
  | waited hr' hw =>
    obtain rfl := hdrive hr'
    refine relieved_of_work hr rfl rfl rfl rfl ?_
    simp only [load, driving, Engine.close, Engine.stop, Drive.effort, WriteLoop.effort,
      WriteLoop.unrest, hw]
    omega
  | woken hr' hw hnotified =>
    obtain rfl := hdrive hr'
    refine relieved_of_work hr rfl rfl rfl rfl ?_
    simp only [load, driving, Drive.effort, WriteLoop.effort, WriteLoop.unrest, hw, hnotified,
      Bool.toNat_true, Bool.toNat_false]
    omega
  | batchDone hr' hw =>
    obtain rfl := hdrive hr'
    exact relieved_of_effort hr rfl rfl rfl rfl rfl rfl rfl (effort_batchDone _ hw) (Nat.zero_le _)
  | begun hr' hw hwrite =>
    obtain rfl := hdrive hr'
    exact relieved_of_effort hr rfl rfl rfl rfl rfl rfl rfl (effort_begun _ hw hwrite)
      (Nat.zero_le _)
  | placing hr' hw hadv =>
    obtain rfl := hdrive hr'
    exact relieved_of_effort hr rfl rfl rfl rfl rfl rfl rfl (effort_placing hw hadv)
      (Nat.zero_le _)
  | @placed _ _ _ current _ _ _ _ hr' hw hadv =>
    obtain rfl := hdrive hr'
    have hload := load_tell x.engine current.waiter.toList (disposal true)
    rw [complete_eq]
    exact relieved_of_effort hr rfl rfl rfl rfl hload rfl rfl (effort_placed hw hadv)
      (Nat.zero_le _)
  | flushing hr' _ hadv
  | draining hr' _ hadv =>
    obtain rfl := hdrive hr'
    exact relieved_of_effort hr rfl rfl rfl rfl rfl rfl rfl (effort_draining rfl hadv)
      (Nat.le_refl _)
  | flushed hr' hw hadv =>
    obtain rfl := hdrive hr'
    have hless := effort_flushed hw hadv
    refine relieved_of_work hr rfl rfl rfl rfl ?_
    show 2 * (x.engine.load + _) + x.engine.owed + 2 * x.engine.notified.toNat + 3 < _
    omega
  -- The read loop goes on.
  | collected hr' hread hadv
  | handed hr' hread hadv
  | resolved hr' hread hadv =>
    obtain rfl := hdrive hr'
    obtain ⟨gs, hbefore⟩ := hahead _ (by rw [hread]; rfl)
    have hless := (hbefore.effort_advance hadv).2 (by rintro ⟨⟩)
    have hclosed := congrArg Pipe.closed (Opener.advance_pipe hadv)
    refine relieved_of_read hr rfl ?_
    simp only [hread, ReadLoop.weight, hclosed]
    omega
  | readEnded hr' hread hadv
  | overflowed hr' hread _ hadv =>
    obtain rfl := hdrive hr'
    obtain ⟨gs, hbefore⟩ := hahead _ (by rw [hread]; rfl)
    have hle := (hbefore.effort_advance hadv).1
    have hclosed := congrArg Pipe.closed (Opener.advance_pipe hadv)
    rw [readLoopEnds_eq]
    refine relieved_of_read hr rfl ?_
    simp only [hread, ReadLoop.weight, hclosed]
    omega
  | readExpired hr' hread =>
    obtain rfl := hdrive hr'
    rw [readLoopEnds_eq]
    refine relieved_of_read hr rfl ?_
    simp only [hread, ReadLoop.weight]
    omega
  | handled hr' hread
  | replied hr' hread =>
    obtain rfl := hdrive hr'
    refine relieved_of_read hr rfl ?_
    simp only [hread, ReadLoop.weight]
    omega

theorem lighter_peer (h : x.Peer y) : y.Lighter x := by
  cases h with
  | @sends bs rest left p hne hcoming hpush =>
    obtain ⟨-, hroom, rfl, rfl⟩ := Pipe.push_ok hpush
    have hpos := List.length_pos_iff.mpr hne
    refine .inl ?_
    simp only [Attended.unread, hcoming, List.length_append, List.length_drop, List.length_take]
    omega
  | finishes hdone hopen =>
    refine .inl ?_
    simp only [Attended.unread, Pipe.close, hopen, Bool.not_true, Bool.not_false, Bool.toNat_true,
      Bool.toNat_false]
    omega
  | @hears bs rest hne h =>
    have hpos := List.length_pos_iff.mpr hne
    refine .inr ⟨Nat.le_refl _, .inr ⟨Nat.le_refl _, ?_⟩⟩
    rw [← h, List.length_append]
    show rest.length < _
    omega

/-- **Every step brings the end closer.** -/
theorem Attends.lighter (hx : Attends key role reply c out inc fs x) (h : x.Step reply y) :
    y.Lighter x := by
  cases h with
  | peer h => exact lighter_peer h
  | engine hcalm h =>
    have hs := stepped_of_step h
    cases hr : x.engine.drive with
    | none =>
      obtain ⟨howed, rfl, rfl, rfl⟩ := over_stepped hs hr hx.calls
      refine .inr ⟨Nat.le_refl _, .inl ?_⟩
      have := Bool.toNat_le x.engine.notified
      have hafter := toil_of_none
        (e := { x.engine with owed := x.engine.owed - 1, notified := true }) hr
      refine Nat.lt_of_le_of_lt (Nat.le_of_eq hafter) ?_
      rw [toil_of_none hr]
      simp only [load, Bool.toNat_true]
      omega
    | some r =>
      refine ((relieved_stepped hr (fun c' hc' => ?_) hs).resolve_right ?_).lighter
      case refine_2 =>
        rintro ⟨htold, -⟩
        rw [hcalm.uncancelled] at htold
        cases htold
      cases hx.stage with
      | serving h =>
        obtain rfl := Option.some.inj (hr.symm.trans h.drive)
        obtain ⟨c, gs, hc, hahead, -⟩ := h.ahead
        obtain rfl := Option.some.inj (hc.symm.trans hc')
        exact ⟨gs, hahead⟩
      | draining h =>
        obtain rfl := h.drive_eq hr
        rw [h.reading] at hc'
        cases hc'
      | done hdrive =>
        rw [hr] at hdrive
        cases hdrive

/-! ### Somebody can go on -/

/-- What a peer finds that reads to the end: the stream is closed after these frames, and the drive
was a success. -/
structure Attended.Finished (key : SessionKey) (role : Role) (fs : List Frame) (x : Attended) :
    Prop where
  ended : x.log.ended = [.ok ()]
  closed : x.stream.outgoing.closed = true
  heard : x.heard = wire key role.outbound 0 fs
  read : x.stream.outgoing.held = []

/-- A drive that is to end waits only for room. -/
theorem room_of_stopped (hr : e.drive = some r) (hl : Loops e r) (hstopped : e.stopped = true)
    (hserving : r.control.isServing = false) (hstuck : ∀ t, e.step env t d = none) :
    d.outgoing.room = 0 := by
  rcases stepWrite_eq_none hr (hstuck .write) with ⟨hwaiting, hnotified⟩ | hended | ⟨hfull, -⟩
  · rcases hl.notice hwaiting (.inr hstopped) with howed | hstored
    · exact absurd (stepNotify_eq_none (hstuck .notify)) howed
    · rw [hnotified] at hstored
      cases hstored
  · have hbuffer := hl.flushed (by rw [hended]; rfl)
    have hclosing := hl.writes.mp hended
    have hclose := hstuck .close
    cases hcontrol : r.control with
    | serving =>
      rw [hcontrol] at hserving
      cases hserving
    | draining =>
      rw [hcontrol] at hclosing
      cases hclosing
    | closing =>
      simp [step, stepClose, hr, hcontrol, Sealer.advance, hbuffer, finish_eq] at hclose
  · exact hfull

/-- A drive that serves waits for the far end: for its next byte, or the end of its stream. -/
theorem Serving.peer_of_stuck {max : Nat} (hs : Serving reply max fs x r)
    (hl : Loops x.engine r) (hinc : 0 < x.stream.incoming.capacity)
    (hattentive : env.attentive = true)
    (hstuck : ∀ t, x.engine.step env t x.stream = none) : ∃ y, x.Peer y := by
  obtain ⟨⟨c', due, hread, hahead, hempty⟩, -⟩ :=
    stuck_of_served hl hs.drive hs.control hattentive hstuck
  obtain ⟨c, gs, hc, hbefore, -⟩ := hs.ahead
  cases hcoming : x.coming with
  | cons b rest =>
    -- The far end has room for another byte.
    have hopen : x.stream.incoming.closed = false := by
      refine Bool.eq_false_iff.mpr fun hclosed => ?_
      have hnil := hbefore.arrived hclosed
      rw [hcoming] at hnil
      cases hnil
    have hfits : [b].length ≤ x.stream.incoming.room := by
      rw [Pipe.room, hempty, List.length_nil, List.length_singleton]
      exact hinc
    exact ⟨_, .sends (List.cons_ne_nil b []) hcoming
      (Pipe.push_of_fits hopen (List.cons_ne_nil b []) hfits)⟩
  | nil =>
    cases hclosed : x.stream.incoming.closed with
    | false => exact ⟨_, .finishes hcoming hclosed⟩
    | true =>
      -- Nothing is left to read, so the end of the stream would be found.
      rw [hread] at hc
      cases hc
      rw [hcoming] at hbefore
      obtain ⟨rfl, -⟩ := hbefore.nothing_left hahead hempty
      have hread' := hstuck .read
      simp [step, stepRead, hs.drive, hs.control, Control.reads, hread,
        Opener.advance_empty [] hahead hempty, hclosed] at hread'

/-- Where the engine can make no step, the far end can do something. -/
theorem Attends.ready (hx : Attends key role reply c out inc fs x) (hout : 0 < out) (hinc : 0 < inc)
    (hunfinished : ¬ x.Finished key role (answers reply c.settings.maxWrite fs))
    (hattentive : env.attentive = true) :
    (∃ t, x.engine.step env t x.stream ≠ none) ∨ ∃ y, x.Peer y := by
  by_contra hnone
  obtain ⟨hstuck, hidle⟩ := not_or.mp hnone
  have hstuck : ∀ t, x.engine.step env t x.stream = none := fun t =>
    Decidable.not_not.mp fun hne => hstuck ⟨t, hne⟩
  have hheld : x.stream.outgoing.held = [] := by
    by_contra hheld
    exact hidle ⟨_, .hears hheld (List.append_nil _)⟩
  obtain ⟨hcapout, hcapin⟩ := Prod.ext_iff.mp hx.capacities
  cases hx.stage with
  | serving h =>
    have hl := loops_of_reachable hx.world h.drive
    exact hidle (h.peer_of_stuck hl (Nat.lt_of_lt_of_eq hinc hcapin.symm) hattentive hstuck)
  | draining h =>
    have hroom := room_of_stopped h.drive (loops_of_reachable hx.world h.drive) h.stopped
      h.not_serving hstuck
    rw [Pipe.room, hheld, List.length_nil] at hroom
    exact Nat.ne_of_gt (Nat.lt_of_lt_of_eq hout hcapout.symm) hroom
  | done hdrive hended haccepted =>
    refine hunfinished ⟨hended, by rw [hx.closed, hdrive]; rfl, ?_, hheld⟩
    have hall := (all_out_of_clean hx.world (by rw [hended]; exact List.cons_ne_nil _ _)
      hx.troubles).2
    rwa [hheld, List.append_nil, haccepted] at hall

/-! ### The service law -/

/-- Whatever the engine and the far end do, they come to this: they are there, or somebody can go
on as soon as the application does, and after every step they still come to it. -/
inductive Attended.Serves (reply : Bytes → Option Bytes) (goal : Attended → Prop) :
    Attended → Prop where
  | done {x : Attended} (h : goal x) : Serves reply goal x
  | next {x : Attended}
      (hready : ∀ env : Env, Calm reply env x.engine → env.attentive = true →
        (∃ t, x.engine.step env t x.stream ≠ none) ∨ ∃ y, x.Peer y)
      (hsteps : ∀ y, x.Step reply y → Serves reply goal y) : Serves reply goal x

/-- What becomes lighter with every step does so only finitely often. -/
theorem lighter_induction {motive : Attended → Prop}
    (h : ∀ x, (∀ y : Attended, y.Lighter x → motive y) → motive x) (x : Attended) : motive x :=
  h x fun y _ => lighter_induction h y
termination_by (x.unread, x.engine.toil, x.stream.outgoing.held.length)
decreasing_by
  rcases ‹y.Lighter x› with hlt | ⟨hle, hlt | ⟨hle', hlt⟩⟩
  · exact .left _ _ hlt
  · exact Prod.Lex.right' _ hle (.left _ _ hlt)
  · exact Prod.Lex.right' _ hle (Prod.Lex.right' _ hle' hlt)

/-- **An engine that only serves, and its far end, come to the end.** -/
theorem Attends.serves (hx : Attends key role reply c out inc fs x)
    (hspell : ∀ f ∈ answers reply c.settings.maxWrite fs, f.Spellable)
    (hcount : fs.length ≤ Nonce.last) (hout : 0 < out) (hinc : 0 < inc) :
    x.Serves reply (·.Finished key role (answers reply c.settings.maxWrite fs)) := by
  induction x using lighter_induction with
  | h x ih =>
    by_cases hfinished : x.Finished key role (answers reply c.settings.maxWrite fs)
    · exact .done hfinished
    · refine .next (fun env _ hattentive => hx.ready hout hinc hfinished hattentive)
        fun y hstep => ih y (hx.lighter hstep) ?_
      cases hstep with
      | engine hcalm h => exact hx.engine hspell hcount hcalm h
      | peer h => exact hx.peer h

/-- All that the far end has read and will read from the stream begins the answers. -/
theorem Attends.heard (hx : Attends key role reply c out inc fs x)
    (hspell : ∀ f ∈ answers reply c.settings.maxWrite fs, f.Spellable) :
    x.heard <+: wire key role.outbound 0 (answers reply c.settings.maxWrite fs) ∧
      x.arrived key role <+: answers reply c.settings.maxWrite fs := by
  obtain ⟨gs, ⟨rest, rfl⟩, haccepted⟩ := hx.stage.accepted
  have hbegins : frames x.log.accepted <+: answers reply c.settings.maxWrite (gs ++ rest) := by
    rw [haccepted, answers_append]
    exact List.prefix_append ..
  obtain ⟨more, hmore⟩ := out_prefix hx.world hbegins
  rw [List.append_assoc] at hmore
  exact ⟨⟨_, hmore⟩, (framesIn_first key role.outbound hspell hmore).1⟩

/-- The engine shuts its direction down only when all answers are written, and then it is done. -/
theorem Attends.shut (hx : Attends key role reply c out inc fs x)
    (hclosed : x.stream.outgoing.closed = true) : x.log.ended = [.ok ()] ∧
      x.heard ++ x.stream.outgoing.held =
        wire key role.outbound 0 (answers reply c.settings.maxWrite fs) := by
  have hdrive := hx.closed.symm.trans hclosed
  cases hx.stage with
  | serving h =>
    rw [h.drive] at hdrive
    cases hdrive
  | draining h =>
    rw [h.drive] at hdrive
    cases hdrive
  | done _ hended haccepted =>
    have hall := (all_out_of_clean hx.world (by rw [hended]; exact List.cons_ne_nil _ _)
      hx.troubles).2
    exact ⟨hended, by rw [hall, haccepted]⟩

theorem Attends.result (hx : Attends key role reply c out inc fs x) :
    x.log.ended = [] ∨ x.log.ended = [.ok ()] := by
  cases hx.stage with
  | serving h => exact .inl h.running
  | draining h => exact .inl h.running
  | done _ hended => exact .inr hended

/-- What an application sends back that returns every payload. -/
theorem answers_echo (max : Nat) (fs : List Frame) : answers some max fs = fs.filter fun f =>
    !f.isMessage && decide (Frame.checkPayload f.payload.length max = .ok ()) := by
  rw [answers, ← List.filterMap_eq_filter]
  refine List.filterMap_congr fun f _ => ?_
  cases hf : f.isMessage <;> simp [answer?, hf, Option.guard]

/-- A frame without an answer is of no concern to the others. -/
theorem answers_without {max : Nat} {f : Frame} (h : answer? reply max f = none)
    (fs gs : List Frame) : answers reply max (fs ++ f :: gs) = answers reply max (fs ++ gs) := by
  rw [answers_append, answers_append, answers, answers, answers, List.filterMap_cons_none h]

/-- **A serving engine sends back the answers, and nothing else.** Its far end sends frames that it
may read and ends its stream after them, and reads whatever comes; the application replies by a
function of the payload. Then, whatever the sizes of the pipes and the pieces in which bytes cross
them, the far end gets exactly the answers to its frames, in their order, then the end of the
stream, and the drive is a success. Nothing else is ever sent, and the direction is shut down only
after the last answer. If the application returns every payload, every frame that is not a message
and fits comes back; and a reply that is missing or too long changes nothing for the others. -/
theorem service_law (hfs : ∀ f ∈ fs, f.Spellable ∧ Admits c.settings.maxRead f)
    (hcount : fs.length ≤ Nonce.last)
    (hspell : ∀ f ∈ answers reply c.settings.maxWrite fs, f.Spellable)
    (hout : 0 < out) (hinc : 0 < inc) :
    (Attended.fresh key role env c out inc fs).Serves reply
      (·.Finished key role (answers reply c.settings.maxWrite fs)) ∧
    (∀ x, Attended.Leads reply (.fresh key role env c out inc fs) x →
      x.heard <+: wire key role.outbound 0 (answers reply c.settings.maxWrite fs) ∧
      x.arrived key role <+: answers reply c.settings.maxWrite fs ∧
      (x.log.ended = [] ∨ x.log.ended = [.ok ()]) ∧
      (x.stream.outgoing.closed = true → x.log.ended = [.ok ()] ∧
        x.heard ++ x.stream.outgoing.held =
          wire key role.outbound 0 (answers reply c.settings.maxWrite fs))) ∧
    (∀ max gs, answers some max gs = gs.filter fun f =>
      !f.isMessage && decide (Frame.checkPayload f.payload.length max = .ok ())) ∧
    (∀ max f gs gs', answer? reply max f = none →
      answers reply max (gs ++ f :: gs') = answers reply max (gs ++ gs')) := by
  refine ⟨?_, fun x hx => ?_, answers_echo, fun max f gs gs' h => answers_without h gs gs'⟩
  · exact (attends_fresh hfs hcount).serves hspell hcount hout hinc
  · have hattends := attends_of_leads hfs hcount hspell hx
    obtain ⟨hheard, harrived⟩ := hattends.heard hspell
    exact ⟨hheard, harrived, hattends.result, hattends.shut⟩

/-- One byte is sent to an engine that returns it, over pipes that hold less than a frame. -/
theorem byte_is_served :
    (∀ f ∈ [Frame.mk 1 [1]], f.Spellable ∧ Admits ({} : Config.Connection).settings.maxRead f) ∧
    [Frame.mk 1 [1]].length ≤ Nonce.last ∧
    (∀ f ∈ answers some ({} : Config.Connection).settings.maxWrite [Frame.mk 1 [1]],
      f.Spellable) ∧ 0 < 5 ∧ 0 < 3 ∧
    (Attended.fresh ⟨[7]⟩ .server (prompt false some) {} 5 3 [⟨1, [1]⟩]).Serves some
      (·.Finished ⟨[7]⟩ .server [⟨1, [1]⟩]) := by
  have hadmits : ∀ f ∈ [Frame.mk 1 [1]],
      f.Spellable ∧ Admits ({} : Config.Connection).settings.maxRead f := fun f hf => by
    rw [List.mem_singleton.mp hf]
    exact ⟨spellable_byte 1, rfl⟩
  have hspell : ∀ f ∈ answers some ({} : Config.Connection).settings.maxWrite [Frame.mk 1 [1]],
      f.Spellable := spellable_of_checkBuffer rfl
  exact ⟨hadmits, by decide, hspell, by decide, by decide,
    (@service_law ⟨[7]⟩ .server (prompt false some) some {} 5 3 [⟨1, [1]⟩] hadmits (by decide)
      hspell (by decide) (by decide)).1⟩

end Parley.Engine
