import Parley.Proofs.Engine.Settlement

/-! The two loops over a stream and their supervisor.

What each of them waits for will come: a write loop that waits has nothing to do or is owed a
notification, what is left in the buffer is flushed before the loop looks at the queue again,
and neither loop has ended while the stream is served (`Loops`). Every move keeps this
(`loops_of_reachable`). -/
namespace Parley.Engine
open Channel

/-- Whether the write loop is neither at a batch nor at a flush. -/
def WriteLoop.isFree : WriteLoop → Bool
  | .looking | .waiting | .ended => true
  | _ => false

/-- Where the loops are, as they can be. -/
structure Loops (e : Engine) (r : Drive) : Prop where
  /-- No notification is lost. -/
  notice : r.writing = .waiting → e.queue ≠ [] ∨ e.stopped = true → e.owed ≠ 0 ∨ e.notified = true
  /-- No tail is left in the buffer. -/
  flushed : r.writing.isFree = true → r.sealer.outlet.held = []
  reads : r.control.isServing = true → r.reading ≠ .ended
  writes : r.writing = .ended ↔ r.control.isClosing = true
  stopped : r.control.isServing = false → e.stopped = true
  /-- Reading goes on only after a cancellation. -/
  drains : ∀ res, r.control = .draining res → r.reading ≠ .ended → res = .ok ()

/-- The loops over the stream, if one is driven, are where they can be. -/
def Looped (e : Engine) : Prop := ∀ r, e.drive = some r → Loops e r

variable {key : SessionKey} {role : Role} {env : Env} {w : World} {s s' : Site} {e e' : Engine}
  {d d' : Duplex} {events : List Event} {r : Drive}

theorem Looped.of_drive (h : e.drive = some r) (hl : Loops e r) : Looped e := by
  intro r' hr'
  rw [h] at hr'
  obtain rfl := Option.some.inj hr'
  exact hl

theorem Looped.none (h : e.drive = none) : Looped e := by
  intro r hr
  rw [h] at hr
  cases hr

/-- More frames are queued, and the write loop is to be notified. -/
theorem Loops.owe (h : Loops e r) (hstopped : e'.stopped = e.stopped) (howed : e'.owed ≠ 0) :
    Loops e' r :=
  { h with notice := fun _ _ => .inl howed, stopped := fun hs => hstopped ▸ h.stopped hs }

/-- Nothing changes that the loops depend on. -/
theorem Loops.same (h : Loops e r) (hqueue : e'.queue = e.queue) (hstopped : e'.stopped = e.stopped)
    (howed : e'.owed = e.owed) (hnotified : e'.notified = e.notified) : Loops e' r := by
  refine { h with notice := fun hw hsome => ?_, stopped := fun hs => hstopped ▸ h.stopped hs }
  rw [hqueue, hstopped] at hsome
  rw [howed, hnotified]
  exact h.notice hw hsome

/-- The write loop goes on. -/
theorem Loops.write (h : Loops e r) {writing : WriteLoop} {sealer : Sealer}
    (hw : r.writing ≠ .ended) (hne : writing ≠ .ended) (hwaiting : writing ≠ .waiting)
    (hflushed : writing.isFree = true → sealer.outlet.held = [])
    (hstopped : e'.stopped = e.stopped) : Loops e' { r with sealer, writing } where
  notice hwait := absurd hwait hwaiting
  flushed := hflushed
  reads := h.reads
  writes := ⟨fun hend => absurd hend hne, fun hclosing => absurd (h.writes.mpr hclosing) hw⟩
  stopped hs := hstopped ▸ h.stopped hs
  drains := h.drains

/-- The read loop goes on. -/
theorem Loops.read (h : Loops e r) {reading : ReadLoop} {opener : Opener}
    (hr : r.reading ≠ .ended) (hne : reading ≠ .ended) :
    Loops e { r with opener, reading } :=
  { h with reads := fun _ => hne, drains := fun res hres _ => h.drains res hres hr }

theorem isServing_readEnded (res : Except Error Unit) (c : Control) :
    (c.readEnded res).isServing = false := by
  cases c <;> rfl

/-- The read loop ends. -/
theorem Loops.readEnds (h : Loops e r) (opener : Opener) (res : Except Error Unit) :
    Looped (e.readLoopEnds { r with opener } res) := by
  rw [readLoopEnds_eq]
  refine .of_drive rfl ⟨fun hw hsome => ?_, h.flushed, fun hs => ?_, ?_, fun _ => ?_,
    fun _ _ hne => absurd rfl hne⟩
  · cases hs : r.control.isServing with
    | true => exact .inl (Nat.succ_ne_zero _)
    | false =>
      simp only [hs, Bool.or_false] at hsome ⊢
      exact h.notice hw hsome
  · rw [isServing_readEnded] at hs
    cases hs
  · rw [isClosing_readEnded]
    exact h.writes
  · cases hs : r.control.isServing with
    | true => exact Bool.or_true _
    | false => rw [h.stopped hs, Bool.true_or]

/-- The supervisor goes on, and no more frames are taken. -/
theorem Loops.cancel (h : Loops e r) (hserving : r.control = .serving) :
    Looped (e.stop.driving { r with control := .draining (.ok ()) }) := by
  refine .of_drive rfl ⟨fun _ _ => .inl (Nat.succ_ne_zero _), h.flushed, (fun hs => nomatch hs),
    ?_, fun _ => rfl, ?_⟩
  · refine h.writes.trans ?_
    rw [hserving]
    exact Iff.rfl
  · rintro res ⟨⟩ -
    rfl

/-- The write loop has ended, and the stream is to be closed. -/
theorem looped_close (e : Engine) (now : Nat) (hheld : r.sealer.outlet.held = [])
    (result : Except Error Unit) : Looped (e.close now r result) :=
  .of_drive rfl ⟨(fun hw => nomatch hw), fun _ => hheld, (fun hs => nomatch hs),
    ⟨fun _ => rfl, fun _ => rfl⟩, fun _ => rfl, fun _ hres => nomatch hres⟩

/-! ### Every step keeps it -/

theorem looped_stepped (h : Stepped env e d e' d' events) (hl : Looped e) : Looped e' := by
  cases h with
  | notified => exact fun r hr => { hl r hr with notice := fun _ _ => .inr rfl }
  | answered
  | expired =>
    rw [leave_eq]
    exact fun r hr => (hl r hr).same rfl rfl rfl rfl
  | cancelled hr hserving => exact (hl _ hr).cancel hserving
  | draining hr hclosing hadv =>
    -- The buffer was empty when the write loop ended.
    have hheld := (hl _ hr).flushed (by rw [(hl _ hr).writes.mpr (by rw [hclosing]; rfl)]; rfl)
    rw [Sealer.advance, if_pos hheld] at hadv
    cases hadv
  | closed
  | closeFailed
  | writeFailed => exact .none rfl
  | batched hr hw
  | batchDone hr hw
  | begun hr hw
  | placing hr hw =>
    exact .of_drive rfl ((hl _ hr).write (by rw [hw]; rintro ⟨⟩) (by rintro ⟨⟩) (by rintro ⟨⟩)
      (by rintro ⟨⟩) rfl)
  | emptied hr hw => exact looped_close _ _ ((hl _ hr).flushed (by rw [hw]; rfl)) _
  | waited hr hw hqueue hopen =>
    have hl := hl _ hr
    refine .of_drive rfl ⟨fun _ hsome => ?_, fun _ => hl.flushed (by rw [hw]; rfl), hl.reads, ?_,
      hl.stopped, hl.drains⟩
    · rcases hsome with hne | hstopped
      · exact absurd hqueue hne
      · exact absurd hopen (ne_false_of_eq_true hstopped)
    · rw [← hl.writes, hw]
      exact ⟨by rintro ⟨⟩, by rintro ⟨⟩⟩
  | woken hr hw =>
    exact .of_drive rfl ((hl _ hr).write (by rw [hw]; rintro ⟨⟩) (by rintro ⟨⟩) (by rintro ⟨⟩)
      (fun _ => (hl _ hr).flushed (by rw [hw]; rfl)) rfl)
  | placed hr hw =>
    rw [complete_eq]
    exact .of_drive rfl ((hl _ hr).write (by rw [hw]; rintro ⟨⟩) (by rintro ⟨⟩) (by rintro ⟨⟩)
      (by rintro ⟨⟩) rfl)
  | flushing hr hw =>
    refine .of_drive rfl { hl _ hr with flushed := fun hfree => ?_ }
    rw [hw] at hfree
    cases hfree
  | flushed hr hw hadv =>
    have hheld := ((Sealer.advance_advanced hadv).emptied rfl).2 (by rintro ⟨⟩)
    exact .of_drive rfl ((hl _ hr).write (by rw [hw]; rintro ⟨⟩) (by rintro ⟨⟩) (by rintro ⟨⟩)
      (fun _ => hheld) rfl)
  | collected hr hread
  | handed hr hread =>
    exact .of_drive rfl (((hl _ hr).read (by rw [hread]; rintro ⟨⟩) (by rintro ⟨⟩)).same
      rfl rfl rfl rfl)
  | readEnded hr
  | readExpired hr => exact (hl _ hr).readEnds _ _
  | resolved hr hread =>
    rw [answer_eq]
    exact .of_drive rfl (((hl _ hr).read (by rw [hread]; rintro ⟨⟩) (by rintro ⟨⟩)).same
      rfl rfl rfl rfl)
  | overflowed hr =>
    rw [answer_eq]
    have hsame := hl _ hr
    exact Loops.readEnds (hsame.same (by rfl) (by rfl) (by rfl) (by rfl)) _ _
  | handled hr hread =>
    exact .of_drive rfl (((hl _ hr).read (by rw [hread]; rintro ⟨⟩) (by rintro ⟨⟩)).same
      rfl rfl rfl rfl)
  | replied hr hread =>
    exact .of_drive rfl (((hl _ hr).read (by rw [hread]; rintro ⟨⟩) (by rintro ⟨⟩)).owe
      rfl (Nat.succ_ne_zero _))

theorem looped_move (h : Move key role env s s') (hl : Looped s.engine) : Looped s'.engine := by
  cases h with
  | post h =>
    obtain ⟨-, rfl⟩ := post_eq_ok h
    exact fun r hr => (hl r hr).owe rfl (Nat.succ_ne_zero _)
  | write _ h =>
    obtain ⟨-, rfl⟩ := write_eq_ok h
    exact fun r hr => (hl r hr).owe rfl (Nat.succ_ne_zero _)
  | request _ _ h =>
    obtain ⟨-, rfl⟩ := request_eq_ok h
    exact fun r hr => (hl r hr).owe rfl (Nat.succ_ne_zero _)
  | refuse => exact hl
  | giveUp hc =>
    simp only [giveUp, hc, leave_eq]
    exact fun r hr => (hl r hr).same rfl rfl rfl rfl
  | start h =>
    obtain ⟨-, rfl⟩ := start_eq_ok h
    refine .of_drive rfl ⟨?_, fun _ => rfl, fun _ => ?_, ?_, ?_, ?_⟩
    · rintro ⟨⟩
    · rintro ⟨⟩
    · constructor <;> rintro ⟨⟩
    · rintro ⟨⟩
    · rintro _ ⟨⟩
  | abandon =>
    cases hr : s.engine.drive with
    | none =>
      simp only [abandon, hr]
      exact hl
    | some r =>
      simp only [abandon, hr]
      exact .none rfl
  | step h => exact looped_stepped (stepped_of_step h) hl

/-- **The loops are where they can be**, whatever has happened. -/
theorem loops_of_reachable (h : World.Reachable key role w) {r : Drive}
    (hr : w.engine.drive = some r) : Loops w.engine r := by
  refine World.Reachable.induct (motive := fun w => Looped w.engine) ?_ ?_ h r hr
  · exact fun c out inc => .none rfl
  · intro w w' _ ih hstep
    cases hstep with
    | near h => exact looped_move h ih
    | far => exact ih

/-! ### What the tasks wait for -/

theorem stepNotify_eq_none (h : e.stepNotify d = none) : e.owed = 0 := by
  unfold stepNotify at h
  split at h
  · assumption
  · cases h

/-- A read loop that is served waits for bytes, unless the application has a frame. -/
theorem stepRead_eq_none (hr : e.drive = some r) (hreads : r.control.reads = true)
    (hattentive : env.attentive = true) (h : e.stepRead env d = none) :
    r.reading = .ended ∨
      ∃ c due, r.reading = .reading c due ∧ r.opener.ahead = [] ∧ d.incoming.held = [] := by
  simp only [stepRead, hr, hreads, Bool.not_true, Bool.false_eq_true, if_false] at h
  cases hread : r.reading with
  | ended => exact .inl rfl
  | handling f => simp [hread, hattentive] at h
  | reading c due =>
    simp only [hread] at h
    cases hadv : r.opener.advance c d.incoming with
    | none => exact .inr ⟨c, due, rfl, Opener.empty_of_advance hadv⟩
    | some x =>
      obtain ⟨reading, o, inc⟩ := x
      rw [hadv] at h
      cases reading <;> cases h

/-- The end of the write loop is never waited for. -/
theorem not_writeLoopEnds {now : Nat} {res : Except Error Unit}
    (h : e.writeLoopEnds now r d res = none) : False := by
  cases res <;> cases h

/-- A write loop waits to be notified, or for room in the pipe until a deadline. -/
theorem stepWrite_eq_none (hr : e.drive = some r) (h : e.stepWrite env d = none) :
    (r.writing = .waiting ∧ e.notified = false) ∨ r.writing = .ended ∨
      (d.outgoing.room = 0 ∧ ∃ due, r.writing.dues = [due] ∧ env.now < due) := by
  simp only [stepWrite, hr] at h
  cases hw : r.writing with
  | looking =>
    simp only [hw, takeBatch] at h
    split at h
    · cases h
    · split at h
      · exact (not_writeLoopEnds h).elim
      · cases h
  | waiting =>
    simp only [hw] at h
    split at h
    · cases h
    · rename_i hnotified
      exact .inl ⟨rfl, Bool.eq_false_iff.mpr hnotified⟩
  | next batch count =>
    cases batch with
    | nil => simp [hw, startFrame] at h
    | cons o rest =>
      simp only [hw, startFrame] at h
      split at h
      · exact (not_writeLoopEnds h).elim
      · cases h
  | writing job due current rest count =>
    simp only [hw] at h
    split at h
    · exact (not_writeLoopEnds h).elim
    · cases h
    · cases h
    · rename_i hadv
      have hearly := expired_of_bind h fun _ => not_writeLoopEnds
      exact .inr (.inr ⟨Sealer.room_of_advance hadv, due, rfl, expired_some_eq_none_iff.mp hearly⟩)
  | flushing due count =>
    simp only [hw] at h
    split at h
    · exact (not_writeLoopEnds h).elim
    · cases h
    · cases h
    · rename_i hadv
      have hearly := expired_of_bind h fun _ => not_writeLoopEnds
      exact .inr (.inr ⟨Sealer.room_of_advance hadv, due, rfl, expired_some_eq_none_iff.mp hearly⟩)
  | ended => exact .inr (.inl rfl)

/-- Closing the stream waits until a deadline at most. -/
theorem stepClose_eq_none (hr : e.drive = some r) (hclosing : r.control.isClosing = true)
    (h : e.stepClose env d = none) : ∃ due, r.control.dues = [due] ∧ env.now < due := by
  simp only [stepClose, hr] at h
  cases hc : r.control with
  | serving => rw [hc] at hclosing; cases hclosing
  | draining => rw [hc] at hclosing; cases hclosing
  | closing result due =>
    simp only [hc] at h
    split at h
    · cases h
    · cases h
    · cases h
    · have hearly := expired_of_bind h fun _ hnone => by cases hnone
      exact ⟨due, rfl, expired_some_eq_none_iff.mp hearly⟩

/-! ### Waiting longer -/

section
variable {env' : Env} {t : Task}

theorem stepCall_earlier {now now' : Nat} (hnow : now ≤ now') {id : CallId}
    (h : e.stepCall now' id d = none) : e.stepCall now id d = none := by
  unfold stepCall at h ⊢
  split at h
  · rfl
  · split at h
    · cases h
    · rfl
    · split at h
      · cases h
      · rename_i hlate
        rw [if_neg fun hle => hlate (Nat.le_trans hle hnow)]

theorem stepRead_earlier (hnow : env.now ≤ env'.now) (hattentive : env'.attentive = env.attentive)
    (h : e.stepRead env' d = none) : e.stepRead env d = none := by
  unfold stepRead at h ⊢
  rw [hattentive] at h
  split at h
  · rfl
  · split at h
    · rw [if_pos (by assumption)]
    · rw [if_neg (by assumption)]
      split at h
      · rfl
      · split at h
        · cases h
        · rw [if_neg (by assumption)]
      · split at h
        · rw [Option.map_eq_none_iff] at h ⊢
          exact expired_earlier hnow h
        · split at h <;> cases h

theorem stepWrite_earlier (hnow : env.now ≤ env'.now) (h : e.stepWrite env' d = none) :
    e.stepWrite env d = none := by
  cases hr : e.drive with
  | none => simp [stepWrite, hr]
  | some r =>
    simp only [stepWrite, hr] at h ⊢
    cases hw : r.writing with
    | looking =>
      simp only [hw, takeBatch] at h
      split at h
      · cases h
      · split at h
        · exact (not_writeLoopEnds h).elim
        · cases h
    | waiting =>
      simp only [hw] at h ⊢
      exact h
    | next batch count =>
      cases batch with
      | nil => simp [hw, startFrame] at h
      | cons o rest =>
        simp only [hw, startFrame] at h
        split at h
        · exact (not_writeLoopEnds h).elim
        · cases h
    | writing job due current rest count =>
      simp only [hw] at h
      split at h
      · exact (not_writeLoopEnds h).elim
      · cases h
      · cases h
      · rename_i hadv
        have hearly := expired_earlier hnow (expired_of_bind h fun _ => not_writeLoopEnds)
        simp only [hadv, hearly, Option.bind_none]
    | flushing due count =>
      simp only [hw] at h
      split at h
      · exact (not_writeLoopEnds h).elim
      · cases h
      · cases h
      · have hearly := expired_earlier hnow (expired_of_bind h fun _ => not_writeLoopEnds)
        simp only [hearly, Option.bind_none]
    | ended => rfl

theorem stepClose_earlier (hnow : env.now ≤ env'.now) (h : e.stepClose env' d = none) :
    e.stepClose env d = none := by
  unfold stepClose at h ⊢
  split at h
  · split at h
    · split at h
      · cases h
      · cases h
      · cases h
      · rw [expired_earlier hnow (expired_of_bind h fun _ hnone => by cases hnone)]
        rfl
    · rfl
  · rfl

/-- An engine that can make a step can make one later. -/
theorem step_later (hstep : e.step env t d ≠ none) (hnow : env.now ≤ env'.now)
    (hcancelled : env'.cancelled = env.cancelled) (hattentive : env'.attentive = env.attentive) :
    e.step env' t d ≠ none := by
  refine fun h => hstep ?_
  cases t with
  | notify => exact h
  | call id => exact stepCall_earlier hnow h
  | cancel =>
    have h : e.stepCancel env' d = none := h
    show e.stepCancel env d = none
    unfold stepCancel at h ⊢
    rw [hcancelled] at h
    exact h
  | read => exact stepRead_earlier hnow hattentive h
  | write => exact stepWrite_earlier hnow h
  | close => exact stepClose_earlier hnow h

end

/-- The deadline that runs on writing, flushing or closing. -/
def Drive.limit (r : Drive) : Option Nat := (r.writing.dues ++ r.control.dues).head?

theorem Drive.mem_dues_of_limit {due : Nat} (h : r.limit = some due) : due ∈ r.dues := by
  have hmem := List.mem_of_head? h
  rw [List.mem_append] at hmem
  rw [dues, List.append_assoc, List.mem_append, List.mem_append]
  exact hmem.imp_right .inr

theorem mem_dues_of_drive {due : Nat} (hr : e.drive = some r) (hdue : due ∈ r.dues) :
    due ∈ e.dues := by
  rw [dues, hr]
  exact List.mem_append_right _ hdue

theorem mem_dues_of_call {c : Call} {seq : UInt32} {due : Nat} (hc : c ∈ e.calls)
    (hwait : c.wait = .response seq due) : due ∈ e.dues := by
  refine List.mem_append_left _ (List.mem_flatMap.mpr ⟨c, hc, ?_⟩)
  rw [hwait]
  exact List.mem_singleton_self due

/-- As long as no deadline of the drive has passed, the one on reading has not. -/
theorem Drive.read_early {c : Bytes} {due : Option Nat} {now : Nat}
    (hread : r.reading = .reading c due) (hearly : ∀ due ∈ r.dues, now < due) :
    expired due .read now = none :=
  expired_of_early fun t ht => hearly t (by simp [dues, hread, ReadLoop.dues, ht])

/-- The stream is closed only after the write loop has ended. -/
theorem Loops.dues_control (h : Loops e r) (hw : r.writing ≠ .ended) : r.control.dues = [] := by
  cases hc : r.control with
  | serving => rfl
  | draining => rfl
  | closing => exact absurd (h.writes.mpr (by rw [hc]; rfl)) hw

/-- What waits on the writing side waits for the deadline there, or, as long as frames are
taken, for a frame. -/
theorem Loops.held (h : Loops e r) (hr : e.drive = some r) (hnotify : e.stepNotify d = none)
    (hwrite : e.stepWrite env d = none) (hclose : e.stepClose env d = none) :
    (r.limit = none ∧ e.stopped = false) ∨ ∃ due, r.limit = some due ∧ env.now < due := by
  rcases stepWrite_eq_none hr hwrite with ⟨hwaiting, hnotified⟩ | hended | ⟨-, due, hdue, hlt⟩
  · refine .inl ⟨?_, Bool.eq_false_iff.mpr fun hstopped => ?_⟩
    · rw [Drive.limit, h.dues_control (by rw [hwaiting]; rintro ⟨⟩), hwaiting]
      rfl
    · rcases h.notice hwaiting (.inr hstopped) with howed | hstored
      · exact howed (stepNotify_eq_none hnotify)
      · rw [hnotified] at hstored
        cases hstored
  · obtain ⟨due, hdue, hlt⟩ := stepClose_eq_none hr (h.writes.mp hended) hclose
    exact .inr ⟨due, by rw [Drive.limit, hended, hdue]; rfl, hlt⟩
  · exact .inr ⟨due, by rw [Drive.limit, hdue]; rfl, hlt⟩

/-- A drive that is to end goes on, at the latest when its deadlines have passed. -/
theorem Loops.ready (h : Loops e r) (hr : e.drive = some r) (hstopped : e.stopped = true)
    (hlate : ∀ due ∈ r.dues, due ≤ env.now) :
    e.stepNotify d ≠ none ∨ e.stepWrite env d ≠ none ∨ e.stepClose env d ≠ none := by
  by_contra hnone
  simp only [not_or, ne_eq, not_not] at hnone
  obtain ⟨hnotify, hwrite, hclose⟩ := hnone
  rcases h.held hr hnotify hwrite hclose with ⟨-, hopen⟩ | ⟨due, hlimit, hlt⟩
  · exact absurd hstopped (by rw [hopen]; decide)
  · exact absurd (hlate due (Drive.mem_dues_of_limit hlimit)) (Nat.not_le_of_lt hlt)

end Parley.Engine
