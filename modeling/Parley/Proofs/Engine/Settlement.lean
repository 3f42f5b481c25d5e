import Parley.Proofs.Engine.Ledger
import Parley.Proofs.Engine.Running
import Parley.Proofs.Sequence

/-! No call is left hanging.

Every step of an engine, and every call into it, is one of the operations on the ledger, so
that its books are always in order (`kept_of_reachable`). -/
namespace Parley.Engine
open Channel

variable {key : SessionKey} {role : Role} {env : Env} {w : World} {s : Site} {e : Engine}
  {stream : Duplex} {events : List Event}

/-! ### Every step keeps the books -/

theorem tell_batch_nil (hbatch : s.engine.batch = []) : s.engine.calls =
    (s.engine.tell (s.engine.batch.filterMap (·.waiter)) (.failed .closed)).calls := by
  rw [hbatch, List.filterMap_nil, tell_nil]

theorem batch_of_drive {r : Drive} (hr : e.drive = some r) : e.batch = r.writing.batch := by
  rw [batch, hr]
  rfl

/-- While the stream is being closed no frame is in the write loop's hands. -/
theorem batch_of_closing (h : Outbound key d w.outlook w.lane) {r : Drive}
    (hr : w.engine.drive = some r) {result : Except Error Unit} {due : Nat}
    (hclosing : r.control = .closing result due) : r.writing.batch = [] := by
  have hc := h.carries hr
  obtain ⟨-, -, hrest, hhand⟩ := hc.closing (by rw [Drive.lane, hclosing]; rfl)
  simp only [Drive.lane] at hrest hhand
  cases hw : r.writing <;> rw [hw] at hrest hhand <;> first | rfl | exact hrest | cases hhand

/-- A call that is over. -/
theorem ledger_leave (h : s.ledger.Kept) {id : CallId} {c : Call}
    (hc : s.engine.calls.find? (·.id == id) = some c) :
    c ∈ s.engine.calls ∧ c.id = id ∧ s.engine.leave c = { s.engine with
      calls := (s.ledger.leave c).calls, table := (s.ledger.leave c).table } := by
  have hmem := List.mem_of_find?_eq_some hc
  have hid : c.id = id := by simpa using List.find?_some hc
  refine ⟨hmem, hid, ?_⟩
  rw [leave_eq]
  exact congrArg (fun table => { s.engine with
    calls := s.engine.calls.filter (·.id != c.id), table }) (h.release_eq hmem)

/-- The end of a drive disposes of every frame and every request: the batch is refused, or was
empty, then the queue, then the table. -/
theorem kept_finished (hk : s.ledger.Kept) {e : Engine}
    (hcalls : e.calls =
      (s.engine.tell (s.engine.batch.filterMap (·.waiter)) (.failed .closed)).calls)
    (hqueue : e.queue = s.engine.queue) (htable : e.table = s.engine.table) :
    { s.ledger with calls := e.finished.calls, table := [], pending := [] }.Kept := by
  have hkept := (hk.dispose (List.append_nil s.ledger.pending).symm false).clear
  have hfinished : e.finished.calls =
      (s.ledger.dispose s.ledger.pending [] false).clear.calls := by
    simp only [finished, tell, hcalls, hqueue, htable, Ledger.clear, Ledger.dispose, Ledger.tell,
      Site.ledger, List.map_map, Function.comp_def, Call.told_told, List.filterMap_append,
      List.append_assoc, disposal, Bool.false_eq_true, if_false]
  rw [hfinished]
  exact hkept

section

-- The operations, as the books see them.
attribute [local simp] Site.ledger Site.after Site.logged Log.note batch WriteLoop.batch driving
  readOn enqueue tell answer_eq readLoopEnds_eq finished Engine.stop Engine.close

theorem kept_stepped (h : Stepped env s.engine s.stream e stream events) (hk : s.ledger.Kept)
    (hclosing : ∀ r result due, s.engine.drive = some r → r.control = .closing result due →
      r.writing.batch = []) :
    (s.after e stream events).ledger.Kept := by
  cases h with
  | notified => simpa using hk
  | answered hc ho =>
    obtain ⟨hmem, rfl, hleave⟩ := ledger_leave hk hc
    have hkept := hk.returns hmem (o := _) (fun o' ho' => Option.some.inj (ho'.symm.trans ho))
      fun _ hnone => absurd (ho.symm.trans hnone) (Option.some_ne_none _)
    rw [hleave]
    simpa [Ledger.returns, Ledger.leave] using hkept
  | @expired id c seq due hc ho hwait hdue =>
    obtain ⟨hmem, rfl, hleave⟩ := ledger_leave hk hc
    have hkept := hk.returns hmem (o := .failed (.timeout .request))
      (fun o' ho' => absurd (ho'.symm.trans ho) (Option.some_ne_none o'))
      fun hwritten => by rw [hwait] at hwritten; cases hwritten
    rw [hleave]
    simpa [Ledger.returns, Ledger.leave] using hkept
  | cancelled hr
  | draining hr
  | collected hr
  | readEnded hr
  | readExpired hr
  | handed hr
  | handled hr => simpa [hr] using hk
  | closed hr hc
  | closeFailed hr hc =>
    have hbatch := (batch_of_drive hr).trans (hclosing _ _ _ hr hc)
    have hkept := kept_finished hk (tell_batch_nil hbatch) rfl rfl
    simpa using hkept
  | batched hr hwriting
  | waited hr hwriting
  | woken hr hwriting
  | batchDone hr hwriting
  | begun hr hwriting
  | placing hr hwriting
  | flushing hr hwriting
  | flushed hr hwriting => simpa [hr, hwriting] using hk
  | emptied hr hwriting hqueue => simpa [hr, hwriting, hqueue] using hk
  | @placed r job due current rest count s' out hr hwriting hadv =>
    have hpending : s.ledger.pending = [current] ++ (rest ++ s.engine.queue) := by
      simp [hr, hwriting]
    have hcomplete : s.engine.complete current true = _ := completeAll_eq s.engine [current] true
    rw [hcomplete]
    simpa [hr, hwriting, Ledger.dispose, Ledger.tell] using hk.dispose hpending true
  | @writeFailed r err result hr =>
    have hkept := kept_finished hk (e := (s.engine.completeAll r.writing.batch false).stop)
      (by rw [completeAll_eq, batch_of_drive hr]; rfl) (by rw [completeAll_eq]; rfl)
      (by rw [completeAll_eq]; rfl)
    simpa using hkept
  | resolved hr hread hadv hf ha hfits =>
    simpa [hr, Ledger.resolve, Ledger.tell] using
      hk.resolve (List.mem_of_find?_eq_some ha) (.response _)
  | overflowed hr hread hreads hadv hf ha hover =>
    simpa [hr, Ledger.resolve, Ledger.tell] using
      hk.resolve (List.mem_of_find?_eq_some ha) (.failed _)
  | @replied r f payload hr hread hf hreply htaken =>
    simpa [hr, Ledger.accept] using hk.accept ⟨f.seq, payload⟩

/-- An engine that has not begun has no stream. -/
theorem drive_of_idle (h : Outbound key d w.outlook w.lane) (hidle : w.engine.phase = .idle) :
    w.engine.drive = none := by
  cases hr : w.engine.drive with
  | none => rfl
  | some r =>
    have hbusy := (h.carries hr).busy
    simp [World.outlook, hidle] at hbusy

theorem kept_move (h : Move key role env w.toSite s)
    (ho : Outbound key role.outbound w.outlook w.lane) (hk : w.ledger.Kept) : s.ledger.Kept := by
  cases h with
  | @post payload e h =>
    obtain ⟨-, rfl⟩ := post_eq_ok h
    simpa [Ledger.accept] using hk.accept ⟨Frame.noResponse, payload⟩
  | @write id payload e hnew h =>
    obtain ⟨-, rfl⟩ := write_eq_ok h
    simpa [Ledger.write] using hk.write hnew ⟨Frame.noResponse, payload⟩
  | @request id payload capacity due e hnew hfree h =>
    obtain ⟨-, rfl⟩ := request_eq_ok h
    have hseq : w.engine.nextSeq ∉ w.ledger.table.map (·.seq) :=
      Sequence.nextFree_not_mem (by rw [List.length_map]; exact hfree) w.engine.sequence
    simpa [Ledger.request, Ledger.accept] using
      hk.request hnew (f := ⟨w.engine.nextSeq, payload⟩) hseq capacity due
  | @refuse id err hnew h => simpa [Ledger.refuse] using hk.refuse hnew err
  | giveUp hc =>
    obtain ⟨hmem, rfl, hleave⟩ := ledger_leave hk hc
    have hkept := hk.drops hmem
    simp only [giveUp, hc, hleave]
    simpa [Ledger.drops, Ledger.leave] using hkept
  | start h =>
    obtain ⟨hidle, rfl⟩ := start_eq_ok h
    have hdrive := drive_of_idle ho hidle
    simpa [hdrive] using hk
  | abandon =>
    cases hr : w.engine.drive with
    | none => simpa [abandon, hr] using hk
    | some r =>
      have hpending : w.ledger.pending = r.writing.batch ++ w.engine.queue := by simp [hr]
      simpa [abandon, hr, completeAll_eq, Ledger.dispose, Ledger.tell] using
        hk.dispose hpending false
  | step h =>
    exact kept_stepped (stepped_of_step h) hk fun _ _ _ hr hclosing =>
      batch_of_closing ho hr hclosing

theorem kept_fresh (c : Config.Connection) (out inc : Nat) :
    (World.fresh c out inc).ledger.Kept := by
  refine ⟨⟨?_, ?_, ?_, ?_, ?_⟩, ⟨?_, ?_, ?_, ?_, ?_, ?_⟩, ⟨?_, ?_, ?_, ?_, ?_, ?_⟩⟩ <;>
    simp [World.fresh]

end

/-- **The books are in order**, whatever has happened. -/
theorem kept_of_reachable (h : World.Reachable key role w) : w.ledger.Kept := by
  refine World.Reachable.induct (motive := fun w => w.ledger.Kept) kept_fresh ?_ h
  intro w w' hw ih hstep
  cases hstep with
  | near h => exact kept_move h (outbound_of_reachable hw) ih
  | far => exact ih

/-! ### The end of a drive -/

/-- Nothing waits in the engine any more, and nothing will. -/
structure Over (e : Engine) : Prop where
  phase : e.phase = .closed
  stopped : e.stopped = true
  queue : e.queue = []
  table : e.table = []
  drive : e.drive = none

theorem over_finished (e : Engine) : Over e.finished := ⟨rfl, rfl, rfl, rfl, rfl⟩

theorem Over.leave (h : Over e) (c : Call) : Over (e.leave c) := by
  rw [leave_eq]
  refine ⟨h.phase, h.stopped, h.queue, ?_, h.drive⟩
  simp only [h.table]
  cases c.wait <;> rfl

/-- An engine that is over makes no step but to let its calls return. -/
theorem Over.stepped (h : Over s.engine) (hs : Stepped env s.engine s.stream e stream events) :
    Over e := by
  have hnone : ∀ {r}, s.engine.drive ≠ some r := fun hr => by
    rw [h.drive] at hr
    cases hr
  cases hs with
  | notified => exact ⟨h.phase, h.stopped, h.queue, h.table, h.drive⟩
  | answered => exact h.leave _
  | expired => exact h.leave _
  | _ => exact absurd ‹s.engine.drive = some _› hnone

theorem Over.move (h : Over w.engine) (hm : Move key role env w.toSite s) : Over s.engine := by
  have hrefused : w.engine.stopped ≠ false := by rw [h.stopped]; decide
  cases hm with
  | post h => exact absurd (post_eq_ok h).1 hrefused
  | write _ h => exact absurd (write_eq_ok h).1 hrefused
  | request _ _ h => exact absurd (request_eq_ok h).1 hrefused
  | refuse => exact h
  | giveUp hc =>
    simp only [giveUp, hc]
    exact h.leave _
  | start hs =>
    have := (start_eq_ok hs).1
    rw [h.phase] at this
    cases this
  | abandon =>
    show Over (w.engine.abandon w.stream).1
    rw [abandon, h.drive]
    exact h
  | step hs => exact h.stepped (stepped_of_step hs)

/-- A step reports the end of the drive only if it leaves nothing that waits. -/
theorem ended_stepped (h : Stepped env s.engine s.stream e stream events) :
    Over e ∨ (s.logged e stream events).ended = s.log.ended := by
  cases h with
  | closed => exact .inl (over_finished _)
  | closeFailed => exact .inl (over_finished _)
  | writeFailed => exact .inl (over_finished _)
  | _ => exact .inr rfl

theorem over_of_ended (h : World.Reachable key role w) (hended : w.log.ended ≠ []) :
    Over w.engine := by
  refine World.Reachable.induct (motive := fun w => w.log.ended ≠ [] → Over w.engine) ?_ ?_ h hended
  · exact fun c out inc hnil => absurd rfl hnil
  · intro w w' _ ih hstep hended
    cases hstep with
    | far => exact ih hended
    | near h =>
      by_cases hbefore : w.log.ended = []
      · cases h with
        | step hs =>
          rcases ended_stepped (stepped_of_step hs) with hover | hsame
          · exact hover
          · exact absurd (hsame.trans hbefore) hended
        | _ => exact absurd hbefore hended
      · exact (ih hbefore).move h

/-- Neither stopping nor beginning is taken back. -/
structure Onward (e e' : Engine) : Prop where
  stopped : e.stopped = true → e'.stopped = true
  busy : e.phase ≠ .idle → e'.phase ≠ .idle

theorem Onward.of_eq {e' : Engine} (hstopped : e'.stopped = e.stopped)
    (hphase : e'.phase = e.phase) : Onward e e' := ⟨fun h => hstopped.trans h, fun h => hphase ▸ h⟩

theorem onward_finished (e' : Engine) : Onward e e'.finished :=
  ⟨fun _ => rfl, fun _ => (by decide : Phase.closed ≠ .idle)⟩

theorem onward_readLoopEnds {e' : Engine} (hstopped : e'.stopped = e.stopped)
    (hphase : e'.phase = e.phase) (r : Drive) (res : Except Error Unit) :
    Onward e (e'.readLoopEnds r res) := by
  rw [readLoopEnds_eq]
  exact ⟨fun h => by simp [hstopped, h], fun h => hphase ▸ h⟩

theorem onward_stepped (h : Stepped env s.engine s.stream e stream events) :
    Onward s.engine e := by
  cases h with
  | answered => rw [leave_eq]; exact .of_eq rfl rfl
  | expired => rw [leave_eq]; exact .of_eq rfl rfl
  | cancelled => exact ⟨fun _ => rfl, id⟩
  | emptied => exact ⟨fun _ => rfl, id⟩
  | closed => exact onward_finished _
  | closeFailed => exact onward_finished _
  | writeFailed => exact onward_finished _
  | placed => rw [complete_eq]; exact .of_eq rfl rfl
  | readEnded => exact onward_readLoopEnds rfl rfl _ _
  | readExpired => exact onward_readLoopEnds rfl rfl _ _
  | resolved => rw [answer_eq]; exact .of_eq rfl rfl
  | overflowed => rw [answer_eq]; refine onward_readLoopEnds ?_ ?_ _ _ <;> rfl
  | _ => exact .of_eq rfl rfl

theorem onward_move (h : Move key role env w.toSite s) : Onward w.engine s.engine := by
  cases h with
  | post h => obtain ⟨-, rfl⟩ := post_eq_ok h; exact .of_eq rfl rfl
  | write _ h => obtain ⟨-, rfl⟩ := write_eq_ok h; exact .of_eq rfl rfl
  | request _ _ h => obtain ⟨-, rfl⟩ := request_eq_ok h; exact .of_eq rfl rfl
  | refuse => exact .of_eq rfl rfl
  | giveUp hc =>
    simp only [giveUp, hc, leave_eq]
    exact .of_eq rfl rfl
  | start h =>
    obtain ⟨hidle, rfl⟩ := start_eq_ok h
    exact ⟨id, fun _ => (by decide : Phase.running ≠ .idle)⟩
  | abandon =>
    show Onward w.engine (w.engine.abandon w.stream).1
    rw [abandon]
    split
    · exact .of_eq rfl rfl
    · rw [completeAll_eq]
      exact .of_eq rfl rfl
  | step h => exact onward_stepped (stepped_of_step h)

theorem onward_leads {w' : World} (h : World.Leads key role w w') : Onward w.engine w'.engine := by
  induction h with
  | refl => exact .of_eq rfl rfl
  | tail _ hstep ih =>
    cases hstep with
    | near h =>
      have hnext := onward_move h
      exact ⟨fun h => hnext.stopped (ih.stopped h), fun h => hnext.busy (ih.busy h)⟩
    | far => exact ih

/-! ### The headline -/

/-- What a payload is refused with once no more frames are taken. -/
def rejection (e : Engine) (payload : Bytes) : Error :=
  match Frame.checkPayload payload.length e.settings.maxWrite with
  | .error cause => .framing cause
  | .ok _ => .shutdown

theorem refusal_of_stopped (hstopped : e.stopped = true) (payload : Bytes) :
    e.refusal payload.length = some (e.rejection payload) := by
  cases hcheck : Frame.checkPayload payload.length e.settings.maxWrite with
  | error cause => simp only [refusal, rejection, hcheck]
  | ok _ => simp only [refusal, rejection, hcheck, if_pos hstopped]

/-- What driving a stream leaves when it has come to an end: nothing waits, every call that
was taken and not given up has its outcome, and nothing is taken any more. -/
structure TornDown (w : World) : Prop where
  phase : w.engine.phase = .closed
  stopped : w.engine.stopped = true
  queue : w.engine.queue = []
  table : w.engine.table = []
  writes : ∀ x ∈ w.log.accepted, ∀ id, x.waiter = some id → id ∉ w.log.dropped →
    ∀ o, w.ledger.CameTo id o ↔ o = if x ∈ w.log.written then .done else .failed .closed
  requests : ∀ q ∈ w.log.issued, q.call ∉ w.log.dropped →
    ∃ o, w.ledger.CameTo q.call o ∧ ∀ o', w.ledger.CameTo q.call o' → o' = o
  noPost : ∀ payload, w.engine.post payload = .error (w.engine.rejection payload)
  noWrite : ∀ id payload, w.engine.write id payload = .error (w.engine.rejection payload)
  noRequest : ∀ id payload capacity due,
    w.engine.request id payload capacity due = .error (w.engine.rejection payload)
  noStart : ∀ now sealer opener, w.engine.start now sealer opener = .error .closed

/-- An engine drives one stream in its life. -/
theorem start_of_busy (hbusy : e.phase ≠ .idle) (now : Nat) (sealer : Sealer) (opener : Opener) :
    e.start now sealer opener = .error .closed := by
  unfold start
  split
  · rename_i hidle
    exact absurd hidle hbusy
  · rfl

theorem tornDown_of_ended (h : World.Reachable key role w) (hended : w.log.ended ≠ []) :
    TornDown w := by
  have hover := over_of_ended h hended
  have hk := kept_of_reachable h
  have hrefused := refusal_of_stopped hover.stopped
  have hpending : w.ledger.pending = [] := by
    simp [Site.ledger, batch, hover.drive, hover.queue]
  refine ⟨hover.phase, hover.stopped, hover.queue, hover.table, ?_, ?_, ?_, ?_, ?_, ?_⟩
  · intro x hx id hid hkept o
    have hcame : w.ledger.CameTo id (if x ∈ w.log.written then .done else .failed .closed) := by
      by_cases hwritten : x ∈ w.log.written
      · rw [if_pos hwritten]
        exact ((hk.queued.written x hwritten).2 id hid).resolve_left hkept
      · rw [if_neg hwritten]
        rcases hk.queued.settled x hx id hid with hdone | hwaiting | hrefused
        · exact absurd hdone hwritten
        · rw [hpending] at hwaiting
          cases hwaiting
        · exact hrefused.resolve_left hkept
    constructor
    · exact fun ho => hk.named.cameTo_inj ho hcame
    · rintro rfl
      exact hcame
  · intro q hq hkept
    rcases hk.tabled.settled q hq with ⟨o, htold⟩ | ⟨a, ha, -⟩
    · have hcame := htold.resolve_left hkept
      exact ⟨o, hcame, fun o' ho' => hk.named.cameTo_inj ho' hcame⟩
    · have htable : w.ledger.table = [] := hover.table
      rw [htable] at ha
      cases ha
  · intro payload
    rw [post, hrefused]
  · intro id payload
    rw [write, hrefused]
  · intro id payload capacity due
    rw [request, hrefused]
  · exact start_of_busy (by rw [hover.phase]; decide)

/-- **No call is left hanging, and the end is final.** Whatever brought the end of a drive
about, in the state in which it is reported and in all later ones every call taken has its
outcome and none is taken any more. An engine that was stopped stays so, and one that has
begun on a stream, whether it still drives it or not, takes no other. -/
theorem teardown_is_final (h : World.Reachable key role w) :
    (w.log.ended ≠ [] → ∀ w', World.Leads key role w w' → TornDown w') ∧
    (w.engine.stopped = true → ∀ w', World.Leads key role w w' → w'.engine.stopped = true) ∧
    (w.engine.phase ≠ .idle → ∀ w', World.Leads key role w w' →
      ∀ now sealer opener, w'.engine.start now sealer opener = .error .closed) := by
  refine ⟨fun hended w' hlater => ?_, fun hstopped w' hlater => ?_, fun hbusy w' hlater => ?_⟩
  · refine tornDown_of_ended (h.leads hlater) fun hnil => hended ?_
    have hgrows := (World.grows_leads hlater).ended
    rw [hnil] at hgrows
    exact List.prefix_nil.mp hgrows
  · exact (onward_leads hlater).stopped hstopped
  · exact start_of_busy ((onward_leads hlater).busy hbusy)

/-- A request without a response when the engine is cancelled. -/
theorem request_released_at_end : ∃ w, World.Reachable ⟨[7]⟩ .client w ∧ w.log.ended ≠ [] ∧
    w.log.issued = [⟨0, ⟨1, [1]⟩⟩] ∧ TornDown w ∧
    (0 ∉ w.log.dropped → ∃ o, w.ledger.CameTo 0 o) := by
  obtain ⟨w, h, hended, -, -, hissued, -⟩ := exists_life ⟨[7]⟩
  have hne : w.log.ended ≠ [] := by
    rw [hended]
    exact List.cons_ne_nil _ _
  have hdown := (teardown_is_final h).1 hne w .refl
  refine ⟨w, h, hne, hissued, hdown, fun hkept => ?_⟩
  have hq : ⟨0, ⟨1, [1]⟩⟩ ∈ w.log.issued := by
    rw [hissued]
    exact List.mem_singleton_self _
  obtain ⟨o, ho, -⟩ := hdown.requests _ hq hkept
  exact ⟨o, ho⟩

end Parley.Engine
