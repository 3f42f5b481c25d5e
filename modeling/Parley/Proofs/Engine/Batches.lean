import Parley.Proofs.Engine.Dealings
import Parley.Proofs.Engine.Loops
import Parley.Proofs.Engine.Running

/-! What the write loop takes from the queue, and when it waits.

Whoever queues a frame, or stops the engine, owes the write loop a notification, and hands it
over in a step of its own; the write loop looks at the queue in one step and waits in another.
In between anything may happen. Still a write loop that is asleep while nobody owes it a
notification has nothing to do: a notification that it did not wait for yet is stored.

To the queue itself only three things happen (`Queueing`): a frame is put at its end, the write
loop takes all of it as a batch, or what is in it is refused because writing has failed. So the
batches of a whole run, one after the other, and the frames in the queue are the frames that
were accepted (`no_wakeup_is_lost`). -/
namespace Parley.Engine
open Channel

/-! ### Waiting -/

/-- The write loop waits to be notified, and has not been. One that has been is as good as awake:
its task has a step. -/
def Asleep (e : Engine) : Prop :=
  ∃ r, e.drive = some r ∧ r.writing = .waiting ∧ e.notified = false

variable {key : SessionKey} {role : Role} {env : Env} {w w' : World} {s s' : Site} {e e' : Engine}
  {d d' : Duplex} {events : List Event} {r r' : Drive}

/-- Where nobody owes a notification, a write loop that is asleep has nothing to do. -/
theorem idle_of_asleep (h : World.Reachable key role w) (hasleep : w.engine.Asleep)
    (howed : w.engine.owed = 0) : w.engine.queue = [] ∧ w.engine.stopped = false := by
  obtain ⟨r, hr, hw, hnotified⟩ := hasleep
  have hnotice := (loops_of_reachable h hr).notice hw
  have hnone : ¬ (w.engine.queue ≠ [] ∨ w.engine.stopped = true) := fun hwork =>
    (hnotice hwork).elim (absurd howed) (by rw [hnotified]; exact Bool.false_ne_true)
  rw [not_or, not_ne_iff, Bool.not_eq_true] at hnone
  exact hnone

/-! ### Batches -/

/-- What the write loop has taken when it has just looked at the queue: the batch in its hands,
or nothing if it has ended. -/
def WriteLoop.took (before after : WriteLoop) : Option (List Outgoing) :=
  match before, after with
  | .looking, .next batch _ => some batch
  | .looking, .ended => some []
  | _, _ => none

/-- The batch that the write loop takes between two moments, if it takes one. -/
def taken? (e e' : Engine) : Option (List Outgoing) :=
  e.drive.bind fun r => e'.drive.bind fun r' => r.writing.took r'.writing

@[simp] theorem WriteLoop.took_self (l : WriteLoop) : l.took l = none := by
  cases l <;> rfl

theorem WriteLoop.took_of_ne {before : WriteLoop} (h : before ≠ .looking) (after : WriteLoop) :
    before.took after = none := by
  cases before with
  | looking => exact absurd rfl h
  | _ => rfl

theorem taken_of_some (hr : e.drive = some r) (hr' : e'.drive = some r') :
    taken? e e' = r.writing.took r'.writing := by
  rw [taken?, hr, hr']
  rfl

theorem taken_of_none (h : e.drive = none) : taken? e e' = none := by
  rw [taken?, h]
  rfl

theorem taken_of_over (h : e'.drive = none) : taken? e e' = none := by
  rw [taken?, h]
  cases e.drive <;> rfl

theorem taken_of_same (h : e'.drive = e.drive) : taken? e e' = none := by
  rw [taken?, h]
  cases e.drive with
  | none => rfl
  | some r => exact r.writing.took_self

/-- A write loop that stays where it is takes no batch. -/
theorem taken_of_writing (hr : e.drive = some r) (hr' : e'.drive = some r')
    (hw : r'.writing = r.writing) : taken? e e' = none := by
  rw [taken_of_some hr hr', hw, WriteLoop.took_self]

/-- Nor does one that was not looking at the queue. -/
theorem taken_of_busy (hr : e.drive = some r) (hr' : e'.drive = some r')
    (hw : r.writing ≠ .looking) : taken? e e' = none := by
  rw [taken_of_some hr hr', WriteLoop.took_of_ne hw]

/-! ### What happens to the queue -/

/-- All that one step does to the queue. -/
inductive Queueing (s s' : Site) : Prop where
  | kept (hqueue : s'.engine.queue = s.engine.queue) (haccepted : s'.log.accepted = s.log.accepted)
      (htaken : taken? s.engine s'.engine = none) : Queueing s s'
  /-- A frame is put at the end, and a notification is owed. -/
  | appended {o} (hqueue : s'.engine.queue = s.engine.queue ++ [o])
      (haccepted : s'.log.accepted = s.log.accepted ++ [o])
      (howed : s'.engine.owed = s.engine.owed + 1)
      (htaken : taken? s.engine s'.engine = none) : Queueing s s'
  /-- The write loop takes everything. -/
  | taken (hqueue : s'.engine.queue = []) (haccepted : s'.log.accepted = s.log.accepted)
      (htaken : taken? s.engine s'.engine = some s.engine.queue) : Queueing s s'
  /-- Writing has failed, and with it the drive is over. -/
  | refused (hqueue : s'.engine.queue = []) (haccepted : s'.log.accepted = s.log.accepted)
      (htaken : taken? s.engine s'.engine = none) (hended : s'.log.ended ≠ [])
      (htroubles : s'.log.troubles ≠ []) : Queueing s s'

/-- A step that leaves the queue alone, and takes no batch. -/
theorem Queueing.of_queue (hqueue : e.queue = s.engine.queue)
    (htaken : taken? s.engine e = none) : Queueing s (s.after e d events) :=
  .kept hqueue (accepted_of_queue _ (Nat.le_of_eq (congrArg _ hqueue))) htaken

/-- While the stream is being closed nothing is queued. -/
theorem queue_of_closing (h : World.Reachable key role w) (hr : w.engine.drive = some r)
    (hclosing : r.control.isClosing = true) : w.engine.queue = [] := by
  have hout := outbound_of_reachable h
  rw [World.lane, hr, Option.map_some] at hout
  cases hout with
  | driven hc => exact (hc.closing hclosing).2.1

theorem queueing_stepped (h : World.Reachable key role w)
    (hstep : Stepped env w.engine w.stream e d events) :
    Queueing w.toSite (w.toSite.after e d events) := by
  cases hstep with
  | notified => exact .of_queue rfl (taken_of_same rfl)
  | answered
  | expired =>
    rw [leave_eq]
    exact .of_queue rfl (taken_of_same rfl)
  | cancelled hr
  | draining hr
  | flushing hr
  | collected hr
  | handed hr
  | handled hr => exact .of_queue rfl (taken_of_writing hr rfl rfl)
  | closed hr hcontrol
  | closeFailed hr hcontrol =>
    exact .of_queue (queue_of_closing h hr (by rw [hcontrol]; rfl)).symm (taken_of_over rfl)
  | batched hr hw =>
    refine .taken rfl (accepted_of_queue _ (Nat.zero_le _)) ?_
    rw [taken_of_some hr rfl, hw]
    rfl
  | emptied hr hw hqueue =>
    refine .taken hqueue (accepted_of_queue _ (Nat.le_refl _)) ?_
    rw [taken_of_some hr rfl, hw, hqueue]
    rfl
  | waited hr hw =>
    refine .of_queue rfl ?_
    rw [taken_of_some hr rfl, hw]
    rfl
  | woken hr hw
  | batchDone hr hw
  | begun hr hw
  | placing hr hw
  | flushed hr hw =>
    exact .of_queue rfl (taken_of_busy hr rfl (by rw [hw]; rintro ⟨⟩))
  | placed hr hw =>
    rw [complete_eq]
    exact .of_queue rfl (taken_of_busy hr rfl (by rw [hw]; rintro ⟨⟩))
  | writeFailed =>
    exact .refused rfl (accepted_of_queue _ (Nat.zero_le _)) (taken_of_over rfl)
      (List.append_ne_nil_of_right_ne_nil _ (List.cons_ne_nil _ _))
      (List.append_ne_nil_of_right_ne_nil _ (List.cons_ne_nil _ _))
  | readEnded hr
  | readExpired hr =>
    rw [readLoopEnds_eq]
    exact .of_queue rfl (taken_of_writing hr rfl rfl)
  | resolved hr =>
    rw [answer_eq]
    exact .of_queue rfl (taken_of_writing hr rfl rfl)
  | overflowed hr =>
    rw [answer_eq, readLoopEnds_eq]
    exact .of_queue rfl (taken_of_writing hr rfl rfl)
  | replied hr =>
    exact .appended rfl (accepted_enqueue _ rfl) rfl (taken_of_writing hr rfl rfl)

theorem queueing_move (h : World.Reachable key role w) (hmove : Move key role env w.toSite s) :
    Queueing w.toSite s := by
  cases hmove with
  | post hpost =>
    obtain ⟨-, rfl⟩ := post_eq_ok hpost
    exact .appended rfl (accepted_enqueue _ rfl) rfl (taken_of_same rfl)
  | write _ hwrite =>
    obtain ⟨-, rfl⟩ := write_eq_ok hwrite
    exact .appended rfl (accepted_enqueue _ rfl) rfl (taken_of_same rfl)
  | request _ _ hrequest =>
    obtain ⟨-, rfl⟩ := request_eq_ok hrequest
    exact .appended rfl (accepted_enqueue _ rfl) rfl (taken_of_same rfl)
  | refuse => exact .kept rfl rfl (taken_of_same rfl)
  | giveUp hc =>
    simp only [giveUp, hc, leave_eq]
    exact .kept rfl rfl (taken_of_same rfl)
  | start hstart =>
    obtain ⟨hidle, rfl⟩ := start_eq_ok hstart
    exact .of_queue rfl (taken_of_none (drive_of_idle (outbound_of_reachable h) hidle))
  | abandon =>
    cases hr : w.engine.drive with
    | none =>
      simp only [abandon, hr]
      exact .of_queue rfl (taken_of_same rfl)
    | some r =>
      simp only [abandon, hr, completeAll_eq]
      exact .of_queue rfl (taken_of_over rfl)
  | step hstep => exact queueing_stepped h (stepped_of_step hstep)

theorem queueing_step (h : World.Reachable key role w) (hstep : World.Step key role w w') :
    Queueing w.toSite w'.toSite := by
  cases hstep with
  | near hmove => exact queueing_move h hmove
  | far => exact .kept rfl rfl (taken_of_same rfl)

/-- A batch is the whole queue, which is empty then. -/
theorem Queueing.batch (h : Queueing s s') {batch : List Outgoing}
    (hbatch : taken? s.engine s'.engine = some batch) :
    batch = s.engine.queue ∧ s'.engine.queue = [] := by
  cases h with
  | kept _ _ htaken
  | appended _ _ _ htaken
  | refused _ _ htaken =>
    rw [htaken] at hbatch
    cases hbatch
  | taken hqueue _ htaken =>
    rw [htaken] at hbatch
    exact ⟨(Option.some.inj hbatch).symm, hqueue⟩

/-! ### Runs -/

/-- A run, with the batches that are taken in it. -/
inductive World.Course (key : SessionKey) (role : Role) : List (List Outgoing) → World → Prop where
  | fresh (c : Config.Connection) (out inc : Nat) : Course key role [] (fresh c out inc)
  | step {batches w w'} (h : Course key role batches w) (hstep : World.Step key role w w') :
      Course key role (batches ++ (taken? w.engine w'.engine).toList) w'

variable {batches : List (List Outgoing)}

theorem World.Course.reachable (h : World.Course key role batches w) :
    World.Reachable key role w := by
  induction h with
  | fresh c out inc => exact ⟨c, out, inc, .refl⟩
  | step _ hstep ih => exact ih.leads (.single hstep)

theorem World.exists_course (h : World.Reachable key role w) :
    ∃ batches, World.Course key role batches w := by
  refine World.Reachable.induct (motive := fun w => ∃ batches, World.Course key role batches w)
    ?_ ?_ h
  · exact fun c out inc => ⟨[], .fresh c out inc⟩
  · rintro w w' - ⟨batches, hcourse⟩ hstep
    exact ⟨_, hcourse.step hstep⟩

/-- **Every frame that was accepted is in a batch or in the queue, in order**, unless a drive has
ended in trouble. -/
theorem World.Course.conserves (h : World.Course key role batches w) :
    ∃ refused, batches.flatten ++ refused ++ w.engine.queue = w.log.accepted ∧
      (refused ≠ [] → w.log.ended ≠ [] ∧ w.log.troubles ≠ []) := by
  induction h with
  | fresh => exact ⟨[], rfl, fun hne => absurd rfl hne⟩
  | @step batches w w' hcourse hstep ih =>
    obtain ⟨refused, hall, hwhen⟩ := ih
    have hgrows := World.grows_leads (.single hstep)
    have hstays : refused ≠ [] → w'.log.ended ≠ [] ∧ w'.log.troubles ≠ [] := fun hne =>
      ⟨fun h => (hwhen hne).1 (List.prefix_nil.mp (h ▸ hgrows.ended)),
        fun h => (hwhen hne).2 (List.prefix_nil.mp (h ▸ hgrows.troubles))⟩
    cases queueing_step hcourse.reachable hstep with
    | kept hqueue haccepted htaken =>
      refine ⟨refused, ?_, hstays⟩
      rw [htaken, hqueue, haccepted, Option.toList_none, List.append_nil, hall]
    | appended hqueue haccepted _ htaken =>
      refine ⟨refused, ?_, hstays⟩
      rw [htaken, hqueue, haccepted, Option.toList_none, List.append_nil, ← hall,
        List.append_assoc _ w.engine.queue]
    | taken hqueue haccepted htaken =>
      -- After a refusal there is no write loop that could take a batch.
      have hnone : refused = [] := by
        by_contra hne
        rw [taken_of_none (over_of_ended hcourse.reachable (hwhen hne).1).drive] at htaken
        cases htaken
      refine ⟨[], ?_, fun hne => absurd rfl hne⟩
      rw [hnone, List.append_nil] at hall
      rw [htaken, hqueue, haccepted, Option.toList_some, List.flatten_append,
        List.flatten_singleton, List.append_nil, List.append_nil, hall]
    | refused hqueue haccepted htaken hended htroubles =>
      refine ⟨refused ++ w.engine.queue, ?_, fun _ => ⟨hended, htroubles⟩⟩
      rw [htaken, hqueue, haccepted, Option.toList_none, List.append_nil, List.append_nil,
        ← List.append_assoc, hall]

/-- **No wake-up is lost.** A write loop that is asleep while nobody owes it a notification has
nothing to write, and nobody has told it to end; every batch is the whole queue, in order; and the
batches of a run, followed by what is queued, are the frames accepted in it. Only when writing has
failed, and the drive is over, were the frames refused that were queued then. -/
theorem no_wakeup_is_lost (h : World.Course key role batches w) :
    (w.engine.Asleep → w.engine.owed = 0 → w.engine.queue = [] ∧ w.engine.stopped = false) ∧
    (∀ w' batch, World.Step key role w w' → taken? w.engine w'.engine = some batch →
      batch = w.engine.queue ∧ w'.engine.queue = []) ∧
    (w.log.ended = [] ∨ w.log.troubles = [] →
      batches.flatten ++ w.engine.queue = w.log.accepted) ∧
    batches.flatten <+: w.log.accepted := by
  obtain ⟨refused, hall, hwhen⟩ := h.conserves
  refine ⟨idle_of_asleep h.reachable,
    fun _ _ hstep => (queueing_step h.reachable hstep).batch, fun hfine => ?_, ?_⟩
  · have hnone : refused = [] := by
      by_contra hne
      exact hfine.elim (hwhen hne).1 (hwhen hne).2
    rw [hnone, List.append_nil] at hall
    exact hall
  · rw [List.append_assoc] at hall
    exact ⟨_, hall⟩

/-- A write loop that has been notified looks at the queue again. -/
theorem wakes (hr : s.engine.drive = some r) (hw : r.writing = .waiting)
    (hnotified : s.engine.notified = true) :
    Move key role env s { s with
      engine := { s.engine with notified := false }.driving { r with writing := .looking } } := by
  refine Move.of_quiet .write [] ?_ (Nat.le_refl _) rfl
  simp [step, stepWrite, hr, hw, hnotified]

/-- A write loop that was asleep is woken by a message, writes it, and is asleep again. -/
theorem message_wakes : ∃ batches w, World.Course ⟨[7]⟩ .client batches w ∧
    w.engine.Asleep ∧ w.engine.owed = 0 ∧ w.engine.queue = [] ∧ w.engine.stopped = false ∧
    batches.flatten = [{ frame := ⟨Frame.noResponse, [1]⟩ }] := by
  let key : SessionKey := ⟨[7]⟩
  let env : Env := prompt false fun _ => none
  let settings : Settings := ({} : Config.Connection).settings
  let r : Drive := firstDrive key .client env settings
  let w₀ : World := .fresh {} 100 100
  let started : Site := .started key .client env settings roomy
  let waiting : Site :=
    { started with engine := started.engine.driving { r with writing := .waiting } }
  let posted : Site := waiting.posted [1]
  let woken : Site := { posted with engine := { posted.engine with owed := 0 }.driving r }
  let bytes : Bytes := wire key .clientToServer 0 [⟨Frame.noResponse, [1]⟩]
  let sent : Site := woken.sent r bytes
  have hstart : Move key .client env w₀.toSite started := starts settings roomy
  have hwaits : Move key .client env started waiting := waits rfl rfl rfl rfl
  have hposts : Move key .client env waiting posted := (posts rfl).2
  have hnotifies : Move key .client env posted _ := notifies (Nat.succ_ne_zero 0)
  have hwakes : Move key .client env _ woken := wakes (s := { posted with
    engine := { posted.engine with owed := 0, notified := true } }) rfl rfl rfl
  have hsends : Moves key .client env woken sent :=
    sends_byte rfl rfl rfl rfl rfl rfl rfl rfl rfl (by decide : 25 ≤ 100)
  obtain ⟨r', hr', hlooks⟩ : ∃ r', sent.engine.drive = some r' ∧ r'.writing = .looking :=
    ⟨_, rfl, rfl⟩
  let asleep : Site := { sent with engine := sent.engine.driving { r' with writing := .waiting } }
  have hrests : Move key .client env sent asleep := waits hr' hlooks rfl rfl
  have hmoves : Moves key .client env w₀.toSite asleep :=
    .head hstart (.head hwaits (.head hposts (.head hnotifies (.head hwakes
      (hsends.trans (.single hrests))))))
  obtain ⟨batches, hcourse⟩ := World.exists_course ⟨_, _, _, w₀.leads hmoves⟩
  have hasleep : asleep.engine.Asleep := ⟨_, rfl, rfl, rfl⟩
  obtain ⟨hidle, -, hall, -⟩ := no_wakeup_is_lost hcourse
  refine ⟨batches, _, hcourse, hasleep, rfl, (hidle hasleep rfl).1, (hidle hasleep rfl).2, ?_⟩
  exact (List.append_nil _).symm.trans (hall (.inl rfl))

end Parley.Engine
