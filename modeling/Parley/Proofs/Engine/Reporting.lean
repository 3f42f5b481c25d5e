import Parley.Proofs.Engine.Milestones
import Parley.Proofs.Engine.Parting
import Parley.Proofs.Engine.Running

/-! What a drive reports, and how it parts with its stream.

Three things can end the service: a cancellation, the end of the read loop and the failure of the
write loop. Whichever comes first decides the result. After a cancellation the read loop may end as
well, and after either of them the write loop ends in its turn, by failing or with everything
written; nothing of this replaces the result (`Complete`). How the stream is left depends on the
write loop alone. Where it failed, at first or while the queue was emptied, the stream is dropped
and no byte is put on it any more (`Dropped`); otherwise everything that was accepted is out, to
the last byte, before the write direction is closed under a deadline (`Shut`).

The milestones of a run and what shows of the drive go together (`Stands`), step by step
(`stands_step`). -/
namespace Parley.Engine
open Channel

/-! ### The milestones of a drive -/

/-- What it brings the drive to if it comes first. -/
def Milestone.result : Milestone → Option (Except Error Unit)
  | .cancelled => some (.ok ())
  | .readEnded res | .writeEnded res => some res
  | _ => none

/-- The milestones of a drive that is to end with this result once its write loop does, and whether
its read loop goes on. -/
inductive Draining : List Milestone → Except Error Unit → Bool → Prop where
  | cancelled : Draining [.cancelled] (.ok ()) true
  | readAfter (res : Except Error Unit) : Draining [.cancelled, .readEnded res] (.ok ()) false
  | readEnded (res : Except Error Unit) : Draining [.readEnded res] res false

/-- The milestones of a drive that has ended with this result. -/
inductive Complete : List Milestone → Except Error Unit → Prop where
  | failed (err : Error) : Complete [.writeEnded (.error err)] (.error err)
  | failedDraining {xs res reads} (h : Draining xs res reads) (err : Error) :
      Complete (xs ++ [.writeEnded (.error err)]) res
  | closed {xs res reads} (h : Draining xs res reads) (due : Nat) :
      Complete (xs ++ [.writeEnded (.ok ()), .closing due, .closed due]) res

section
variable {xs : List Milestone} {res : Except Error Unit} {reads : Bool} {err : Error}

theorem Draining.first (h : Draining xs res reads) :
    ∃ x rest, xs = x :: rest ∧ x.result = some res := by
  cases h <;> exact ⟨_, _, rfl, rfl⟩

theorem Draining.error (h : Draining xs (.error err) reads) :
    xs = [.readEnded (.error err)] := by
  cases h
  rfl

/-- The write loop goes on until then. -/
theorem Draining.result_of_writeEnded (h : Draining xs res reads) (res' : Except Error Unit) :
    .writeEnded res' ∉ xs := by
  cases h <;> simp

theorem Draining.not_closing (h : Draining xs res reads) (due : Nat) : .closing due ∉ xs := by
  cases h <;> simp

theorem Complete.first (h : Complete xs res) : ∃ x rest, xs = x :: rest ∧ x.result = some res := by
  cases h with
  | failed err => exact ⟨_, _, rfl, rfl⟩
  | failedDraining h err =>
    obtain ⟨x, rest, rfl, hx⟩ := h.first
    exact ⟨x, _, rfl, hx⟩
  | closed h due =>
    obtain ⟨x, rest, rfl, hx⟩ := h.first
    exact ⟨x, _, rfl, hx⟩

/-- **An error is that of the loop that ended first**, and no cancellation was taken up. -/
theorem Complete.error (h : Complete xs (.error err)) : .cancelled ∉ xs ∧
    ((∃ rest, xs = .readEnded (.error err) :: rest) ∨ xs = [.writeEnded (.error err)]) := by
  cases h with
  | failed => exact ⟨by simp, .inr rfl⟩
  | failedDraining h =>
    obtain rfl := h.error
    exact ⟨by simp, .inl ⟨_, rfl⟩⟩
  | closed h =>
    obtain rfl := h.error
    exact ⟨by simp, .inl ⟨_, rfl⟩⟩

/-- Where the write loop failed, that was the last thing to happen. -/
theorem Complete.of_writeFailed (h : Complete xs res) (hmem : .writeEnded (.error err) ∈ xs) :
    (∃ ys, xs = ys ++ [.writeEnded (.error err)]) ∧ ∀ due, .closing due ∉ xs := by
  cases h with
  | failed => exact ⟨⟨[], by rw [List.mem_singleton.mp hmem]; rfl⟩, by simp⟩
  | failedDraining h err' =>
    have hlast := (List.mem_append.mp hmem).resolve_left (h.result_of_writeEnded _)
    exact ⟨⟨_, by rw [List.mem_singleton.mp hlast]⟩, fun due => by simp [h.not_closing due]⟩
  | closed h due =>
    have hlast := (List.mem_append.mp hmem).resolve_left (h.result_of_writeEnded _)
    simp at hlast

/-- Where it did not, the stream was closed. -/
theorem Complete.of_not_writeFailed (h : Complete xs res)
    (hnone : ∀ err, .writeEnded (.error err) ∉ xs) :
    ∃ ys due, xs = ys ++ [.writeEnded (.ok ()), .closing due, .closed due] := by
  cases h with
  | failed err => exact absurd (List.mem_singleton_self _) (hnone err)
  | failedDraining _ err =>
    exact absurd (List.mem_append_right _ (List.mem_singleton_self _)) (hnone err)
  | closed _ due => exact ⟨_, due, rfl⟩

end

/-! ### How far a drive is -/

/-- What shows of a drive with these milestones. -/
inductive Stands : List Milestone → Watch → Prop where
  | fresh {v} (hopen : v.stopped = false) (hcontrol : v.control = none) (hended : v.ended = []) :
      Stands [] v
  | serving {v} (hbusy : v.idle = false) (hopen : v.stopped = false)
      (hcontrol : v.control = some .serving) (hreads : v.reads = true) (hended : v.ended = []) :
      Stands [] v
  | draining {v xs res} (hbusy : v.idle = false) (hxs : Draining xs res v.reads)
      (hcontrol : v.control = some (.draining res)) (hended : v.ended = []) : Stands xs v
  | closing {v xs res reads due} (hbusy : v.idle = false) (hxs : Draining xs res reads)
      (hcontrol : v.control = some (.closing res due)) (hended : v.ended = []) :
      Stands (xs ++ [.writeEnded (.ok ()), .closing due]) v
  | finished {v xs res} (hbusy : v.idle = false) (hxs : Complete xs res)
      (hcontrol : v.control = none) (hended : v.ended = [res]) : Stands xs v
  | dropped {v xs} (hbusy : v.idle = false) (hcontrol : v.control = none) (hended : v.ended = []) :
      Stands xs v

section
variable {key : SessionKey} {role : Role} {env : Env} {s s' : Site} {res : Except Error Unit}
  {xs ys : List Milestone}

theorem control_of_drive {r : Drive} (hr : s.engine.drive = some r) :
    s.watch.control = some r.control := by
  rw [watch_of_drive hr]

theorem Stands.complete {v : Watch} (h : Stands xs v) (hended : v.ended = [res]) :
    Complete xs res := by
  cases h with
  | finished _ hxs _ hres =>
    obtain rfl := List.singleton_inj.mp (hres.symm.trans hended)
    exact hxs
  | fresh _ _ hnone
  | serving _ _ _ _ hnone
  | draining _ _ _ hnone
  | closing _ _ _ hnone
  | dropped _ _ hnone => exact absurd (hnone.symm.trans hended) (List.cons_ne_nil _ _).symm

/-- A cancellation is only taken up while the engine serves. -/
theorem Stands.cancel {v : Watch} (h : Stands xs v) (hserving : v.control = some .serving) :
    Stands (xs ++ [.cancelled])
      { v with stopped := true, control := some (.draining (.ok ())) } := by
  cases h with
  | serving hbusy hopen hcontrol hreads hended =>
    exact .draining hbusy (by rw [hreads]; exact .cancelled) rfl hended
  | fresh _ hcontrol
  | draining _ _ hcontrol
  | closing _ _ hcontrol
  | finished _ _ hcontrol
  | dropped _ hcontrol => exact nomatch hserving.symm.trans hcontrol

/-- The read loop ends while it is served. -/
theorem Stands.readEnd {v : Watch} {c : Control} (h : Stands xs v) (hc : v.control = some c)
    (hserved : c.reads = true) (hreads : v.reads = true) (res : Except Error Unit)
    (stopped : Bool) :
    Stands (xs ++ [.readEnded res])
      { v with stopped, control := some (c.readEnded res), reads := false } := by
  cases h with
  | serving hbusy hopen hcontrol _ hended =>
    obtain rfl := Option.some.inj (hc.symm.trans hcontrol)
    exact .draining hbusy (.readEnded res) rfl hended
  | draining hbusy hxs hcontrol hended =>
    obtain rfl := Option.some.inj (hc.symm.trans hcontrol)
    rw [hreads] at hxs
    cases hxs
    exact .draining hbusy (.readAfter res) rfl hended
  | closing _ _ hcontrol =>
    obtain rfl := Option.some.inj (hc.symm.trans hcontrol)
    cases hserved
  | fresh _ hcontrol
  | finished _ _ hcontrol
  | dropped _ hcontrol => exact nomatch hc.symm.trans hcontrol

/-- The write loop ends when it is told to, and not before. -/
theorem Stands.writeEnd {v : Watch} {c : Control} (h : Stands xs v) (hc : v.control = some c)
    (hgoing : c.isClosing = false) (hstopped : v.stopped = true) (due : Nat) :
    Stands (xs ++ [.writeEnded (.ok ()), .closing due])
      { v with control := some (.closing (c.writeEnded (.ok ())) due) } := by
  cases h with
  | serving _ hopen => exact nomatch hopen.symm.trans hstopped
  | draining hbusy hxs hcontrol hended =>
    obtain rfl := Option.some.inj (hc.symm.trans hcontrol)
    exact .closing hbusy hxs rfl hended
  | closing _ _ hcontrol =>
    obtain rfl := Option.some.inj (hc.symm.trans hcontrol)
    cases hgoing
  | fresh _ hcontrol
  | finished _ _ hcontrol
  | dropped _ hcontrol => exact nomatch hc.symm.trans hcontrol

theorem finish_ended {v : Watch} (hended : v.ended = []) (res : Except Error Unit) :
    (v.finish res).ended = [res] := by
  rw [Watch.finish, hended, List.nil_append]

/-- The write loop fails, before the stream is closed. -/
theorem Stands.writeFail {v : Watch} {c : Control} (h : Stands xs v) (hc : v.control = some c)
    (hgoing : c.isClosing = false) (err : Error) :
    Stands (xs ++ [.writeEnded (.error err)]) (v.finish (c.writeEnded (.error err))) := by
  cases h with
  | serving _ _ hcontrol _ hended =>
    obtain rfl := Option.some.inj (hc.symm.trans hcontrol)
    exact .finished rfl (.failed err) rfl (finish_ended hended _)
  | draining _ hxs hcontrol hended =>
    obtain rfl := Option.some.inj (hc.symm.trans hcontrol)
    exact .finished rfl (.failedDraining hxs err) rfl (finish_ended hended _)
  | closing _ _ hcontrol =>
    obtain rfl := Option.some.inj (hc.symm.trans hcontrol)
    cases hgoing
  | fresh _ hcontrol
  | finished _ _ hcontrol
  | dropped _ hcontrol => exact nomatch hc.symm.trans hcontrol

/-- A drive whose stream is being closed. -/
theorem Stands.of_closing {v : Watch} {due : Nat} (h : Stands xs v)
    (hclosing : v.control = some (.closing res due)) :
    v.ended = [] ∧ ∃ ys reads, Draining ys res reads ∧
      xs = ys ++ [.writeEnded (.ok ()), .closing due] := by
  cases h with
  | closing _ hxs hcontrol hended =>
    cases hclosing.symm.trans hcontrol
    exact ⟨hended, _, _, hxs, rfl⟩
  | fresh _ hcontrol
  | serving _ _ hcontrol
  | draining _ _ hcontrol
  | finished _ _ hcontrol
  | dropped _ hcontrol => exact nomatch hclosing.symm.trans hcontrol

/-- **The milestones and the drive go together**, whatever is done. -/
theorem stands_step (h : Stands xs s.watch) (hl : Looped s.engine) (hdoes : Does env s s' ys) :
    Stands (xs ++ ys) s'.watch := by
  have hgoing : ∀ {r}, s.engine.drive = some r → r.writing ≠ .ended →
      r.control.isClosing = false := fun hr hw =>
    Bool.eq_false_iff.mpr fun hclosing => hw ((hl _ hr).writes.mpr hclosing)
  cases hdoes with
  | goesOn hw =>
    rw [hw, List.append_nil]
    exact h
  | starts hidle hw =>
    rw [hw, List.append_nil]
    cases h with
    | fresh hopen _ hended => exact .serving rfl hopen rfl rfl hended
    | serving hbusy
    | draining hbusy
    | closing hbusy
    | finished hbusy
    | dropped hbusy => exact nomatch hbusy.symm.trans hidle
  | dropped hr hw =>
    rw [hw, List.append_nil]
    cases h with
    | serving hbusy _ _ _ hended
    | draining hbusy _ _ hended
    | closing hbusy _ _ hended => exact .dropped hbusy rfl hended
    | fresh _ hcontrol
    | finished _ _ hcontrol
    | dropped _ hcontrol => exact nomatch (control_of_drive hr).symm.trans hcontrol
  | cancelled hr hserving htold hw =>
    rw [hw]
    exact h.cancel (by rw [control_of_drive hr, hserving])
  | @readEnded r res hr hserved hends hw =>
    have hreads : s.watch.reads = true := by
      rw [watch_of_drive hr]
      cases hends <;> rw [‹r.reading = _›] <;> rfl
    rw [hw]
    exact h.readEnd (control_of_drive hr) hserved hreads res _
  | writeEnded hr hlooking hqueue hstopped hw =>
    rw [hw]
    exact h.writeEnd (control_of_drive hr) (hgoing hr (by rw [hlooking]; rintro ⟨⟩)) hstopped _
  | writeFailed hr hfails hstream hw =>
    rw [hw]
    exact h.writeFail (control_of_drive hr) (hgoing hr hfails.going) _
  | closed hr hclosing hcloses hstream hw =>
    obtain ⟨hended, ys, reads, hys, rfl⟩ := h.of_closing (by rw [control_of_drive hr, hclosing])
    rw [hw, List.append_assoc]
    exact .finished rfl (.closed hys _) rfl (finish_ended hended _)
  | @closeFailed r res due err hr hclosing hbuffer =>
    -- The buffer is empty once the write loop has ended.
    have hw : r.writing = .ended := (hl r hr).writes.mpr (by rw [hclosing]; rfl)
    exact absurd ((hl r hr).flushed (by rw [hw]; rfl)) hbuffer

end

namespace World
variable {key : SessionKey} {role : Role} {env : Env} {w₀ u w w' : World} {s s' : Site}
  {res : Except Error Unit} {xs ys : List Milestone} {m : Milestone}

theorem stands_of_trail {c : Config.Connection} {out inc : Nat}
    (h : Trail key role (fresh c out inc) xs w) : Stands xs w.watch := by
  induction h with
  | refl => exact .fresh rfl rfl rfl
  | near h _ hdoes ih =>
    exact stands_step ih (fun _ => loops_of_reachable ⟨c, out, inc, h.leads⟩) hdoes
  | far _ _ ih => exact ih

/-! ### Moments -/

/-- When a milestone was passed. -/
theorem Trail.moment (h : Trail key role w₀ xs w) (hm : m ∈ xs) :
    ∃ as ys bs u env s, xs = as ++ ys ++ bs ∧ m ∈ ys ∧ Trail key role w₀ as u ∧
      Move key role env u.toSite s ∧ Does env u.toSite s ys ∧
      Trail key role { u with toSite := s } bs w := by
  induction h with
  | refl => exact absurd hm List.not_mem_nil
  | @near xs ys v env s h hmove hdoes ih =>
    rcases List.mem_append.mp hm with hm | hm
    · obtain ⟨as, zs, bs, u, env', s', rfl, hz, hbefore, hmove', hdoes', hafter⟩ := ih hm
      exact ⟨as, zs, bs ++ ys, u, env', s', by simp only [List.append_assoc], hz, hbefore, hmove',
        hdoes', hafter.near hmove hdoes⟩
    · exact ⟨xs, ys, [], v, env, s, (List.append_nil _).symm, hm, h, hmove, hdoes, .refl⟩
  | far h hbytes ih =>
    obtain ⟨as, zs, bs, u, env', s', hxs, hz, hbefore, hmove', hdoes', hafter⟩ := ih hm
    exact ⟨as, zs, bs, u, env', s', hxs, hz, hbefore, hmove', hdoes', hafter.far hbytes⟩

/-- The bytes that were ever put on the stream. -/
def out (w : World) : Bytes := w.heard ++ w.stream.outgoing.held

theorem drive_ne_of_over {e : Engine} {r : Drive} (h : Over e) : e.drive ≠ some r := by
  rw [h.drive]
  exact (Option.some_ne_none r).symm

/-- A drive that is over does not touch the stream. -/
theorem stream_of_over (h : Over w.engine) (hm : Move key role env w.toSite s) :
    s.stream = w.stream := by
  cases hm with
  | abandon =>
    show (w.engine.abandon w.stream).2 = w.stream
    rw [abandon, h.drive]
  | step hs =>
    cases stepped_of_step hs with
    | notified
    | answered
    | expired => rfl
    | _ => exact absurd ‹w.engine.drive = some _› (drive_ne_of_over h)
  | _ => rfl

/-- Nothing is put on a stream whose drive is over. -/
theorem out_of_over (h : Over w.engine) (hleads : Leads key role w w') :
    Over w'.engine ∧ w'.out = w.out := by
  induction hleads with
  | refl => exact ⟨h, rfl⟩
  | tail _ hstep ih =>
    obtain ⟨hover, hout⟩ := ih
    cases hstep with
    | near hm => exact ⟨hover.move hm, hout ▸ by rw [out, out, stream_of_over hover hm]⟩
    | @far d bytes hbytes =>
      refine ⟨hover, hout ▸ ?_⟩
      rw [out, out, List.append_assoc, hbytes]

/-- A drive that is over does nothing. -/
theorem does_of_over (h : Over s.engine) (hdoes : Does env s s' ys) : ys = [] := by
  cases hdoes with
  | goesOn
  | starts
  | dropped => rfl
  | cancelled hr
  | readEnded hr
  | writeEnded hr
  | writeFailed hr
  | closed hr
  | closeFailed hr => exact absurd hr (drive_ne_of_over h)

theorem Trail.nil_of_over (h : Trail key role w xs w') (hover : Over w.engine) : xs = [] := by
  induction h with
  | refl => rfl
  | near h _ hdoes ih =>
    rw [ih, does_of_over (out_of_over hover h.leads).1 hdoes]
    rfl
  | far _ _ ih => exact ih

/-- What is out once no more frames are taken stays all there is. -/
theorem AllOut.leads (h : u.AllOut key role) (hu : Reachable key role u)
    (hstopped : u.engine.stopped = true) (hleads : Leads key role u w) (hout : w.out = u.out) :
    w.AllOut key role := by
  have haccepted : w.log.accepted = u.log.accepted := by
    clear hout
    induction hleads with
    | refl => rfl
    | tail hleads hstep ih =>
      cases hstep with
      | near hm => exact (accepted_of_stopped hm ((onward_leads hleads).stopped hstopped)).trans ih
      | far => exact ih
  have hwritten : w.log.written = w.log.accepted := by
    obtain ⟨cut, rest, hflow⟩ := (outbound_of_reachable (hu.leads hleads)).flow
    have hle : w.log.written <+: w.log.accepted := (List.prefix_append _ cut).trans hflow.order
    have hge : w.log.accepted <+: w.log.written := by
      rw [haccepted, ← h.written]
      exact (grows_leads hleads).written
    exact hle.eq_of_length_le hge.length_le
  refine ⟨hwritten, ?_⟩
  have hbytes : u.out = wire key role.outbound 0 (frames u.log.accepted) := h.bytes
  rw [haccepted, ← hbytes, ← hout]
  rfl

/-! ### The headline -/

/-- The write loop failed, and with that the stream was dropped: nothing was put on it any more,
and it was never to be closed. -/
inductive Dropped (key : SessionKey) (role : Role) (w₀ : World) (xs : List Milestone) (w : World)
    (err : Error) : Prop where
  | mk {ys : List Milestone} {u : World} {env : Env} {s : Site}
      (hbefore : Trail key role w₀ ys u) (hm : Move key role env u.toSite s)
      (hfails : Does env u.toSite s [.writeEnded (.error err)])
      (hafter : Leads key role { u with toSite := s } w)
      (hlast : xs = ys ++ [.writeEnded (.error err)]) (hopen : ∀ due, .closing due ∉ xs)
      (hstream : s.stream = u.stream.hangUp) (hout : w.out = u.out) : Dropped key role w₀ xs w err

/-- The write loop ended with everything written. Under the write deadline that began then the
write direction was closed, and nothing was put on the stream any more. -/
inductive Shut (key : SessionKey) (role : Role) (w₀ : World) (xs : List Milestone) (w : World) :
    Prop where
  | mk {ys : List Milestone} {due : Nat} {u v : World} {env env' : Env} {s s' : Site}
      (hbefore : Leads key role w₀ u)
      (hm : Move key role env u.toSite s)
      (hends : Does env u.toSite s [.writeEnded (.ok ()), .closing due])
      (hdue : due = u.engine.writeDue env.now)
      (hmeanwhile : Leads key role { u with toSite := s } v)
      (hm' : Move key role env' v.toSite s') (hcloses : Does env' v.toSite s' [.closed due])
      (hafter : Leads key role { v with toSite := s' } w)
      (hlast : xs = ys ++ [.writeEnded (.ok ()), .closing due, .closed due])
      (hclosed : s'.stream.outgoing = v.stream.outgoing.close) (hall : v.AllOut key role)
      (hout : w.out = v.out) : Shut key role w₀ xs w

/-- What the milestones of a drive say that is over, with this result. -/
structure Reported (key : SessionKey) (role : Role) (w₀ : World) (xs : List Milestone) (w : World)
    (res : Except Error Unit) : Prop where
  /-- The result is that of what came first. -/
  first : ∃ x rest, xs = x :: rest ∧ x.result = some res
  /-- An error is that of the loop that ended first, and no cancellation was taken up. -/
  error : ∀ err, res = .error err → .cancelled ∉ xs ∧
    ((∃ rest, xs = .readEnded (.error err) :: rest) ∨ xs = [.writeEnded (.error err)])
  /-- Where the write loop failed, the stream was dropped. -/
  failed : ∀ err, .writeEnded (.error err) ∈ xs → Dropped key role w₀ xs w err
  /-- Otherwise everything that was accepted is out, and the write direction was closed. -/
  closed : (∀ err, .writeEnded (.error err) ∉ xs) →
    w.AllOut key role ∧ Shut key role w₀ xs w

theorem over_of_watch {v : Watch} (hu : Reachable key role u) (hm : Move key role env u.toSite s)
    (hw : s.watch = v.finish res) : Over s.engine := by
  refine over_of_ended (hu.leads (.single (.near hm))) (?_ : s.watch.ended ≠ [])
  rw [hw, Watch.finish]
  exact List.concat_ne_nil _ _

theorem Dropped.of_trail {c : Config.Connection} {out inc : Nat} {err : Error}
    (h : Trail key role (fresh c out inc) xs w) (hended : w.log.ended = [res])
    (hmem : .writeEnded (.error err) ∈ xs) : Dropped key role (fresh c out inc) xs w err := by
  have hopen := (((stands_of_trail h).complete hended).of_writeFailed hmem).2
  obtain ⟨as, ys, bs, u, env, s, rfl, hy, hbefore, hm, hdoes, hafter⟩ := h.moment hmem
  have hu : Reachable key role u := ⟨c, out, inc, hbefore.leads⟩
  cases hdoes with
  | @writeFailed r err' hr hfails hstream hw =>
    obtain rfl : err = err' := by simpa using hy
    have hover : Over s.engine := over_of_watch hu hm hw
    have hbs := hafter.nil_of_over hover
    subst hbs
    refine .mk hbefore hm (.writeFailed hr hfails hstream hw) hafter.leads
      (List.append_nil _) hopen hstream ?_
    rw [(out_of_over hover hafter.leads).2, World.out, World.out, hstream]
    rfl
  | _ => simp at hy

theorem Shut.of_trail {c : Config.Connection} {out inc : Nat}
    (h : Trail key role (fresh c out inc) xs w) (hended : w.log.ended = [res])
    (hnone : ∀ err, .writeEnded (.error err) ∉ xs) :
    w.AllOut key role ∧ Shut key role (fresh c out inc) xs w := by
  obtain ⟨ys, due, hlast⟩ := ((stands_of_trail h).complete hended).of_not_writeFailed hnone
  obtain ⟨as, _, _, v, env', s', -, hz, hbefore', hm', hdoes', hafter'⟩ :=
    h.moment (m := .closed due) (by rw [hlast]; simp)
  have hv : Reachable key role v := ⟨c, out, inc, hbefore'.leads⟩
  cases hdoes' with
  | @closed r res' due' sealer p hr hclosing hcloses hstream hw =>
    obtain rfl : due = due' := by simpa using hz
    -- The closing began when the write loop ended.
    obtain ⟨-, _, _, -, has⟩ :=
      (stands_of_trail hbefore').of_closing (by rw [control_of_drive hr, hclosing])
    obtain ⟨_, zs, _, u, env, s, -, hz', hbefore, hm, hdoes, hmeanwhile⟩ :=
      hbefore'.moment (m := .closing due) (by rw [has]; simp)
    obtain ⟨rfl, hdue⟩ : zs = [.writeEnded (.ok ()), .closing due] ∧
        due = u.engine.writeDue env.now := by
      cases hdoes with
      | writeEnded =>
        obtain rfl : due = u.engine.writeDue env.now := by simpa using hz'
        exact ⟨rfl, rfl⟩
      | _ => simp at hz'
    obtain ⟨hall, hheld⟩ := allOut_of_closing hv hr (by rw [hclosing]; rfl)
    have hcloses' := hcloses
    rw [Sealer.advance, if_pos hheld] at hcloses'
    cases hcloses'
    have hout : w.out = v.out := by
      rw [(out_of_over (over_of_watch hv hm' hw) hafter'.leads).2, World.out, World.out, hstream]
      rfl
    have hstopped : v.engine.stopped = true :=
      (loops_of_reachable hv hr).stopped (by rw [hclosing]; rfl)
    have hlater : Leads key role v w := .head (.near hm') hafter'.leads
    refine ⟨hall.leads hv hstopped hlater hout, ?_⟩
    exact .mk hbefore.leads hm hdoes hdue hmeanwhile.leads hm'
      (.closed hr hclosing hcloses hstream hw) hafter'.leads hlast (by rw [hstream]; rfl) hall hout
  | _ => simp at hz

/-- **The first failure is the one reported**, and how the write loop ended decides how the stream
is left. Every run that has come to an end has its milestones, in whatever order things happened,
and this is what they say. -/
theorem first_failure_is_reported {c : Config.Connection} {out inc : Nat}
    (h : Leads key role (fresh c out inc) w) (hended : w.log.ended = [res]) :
    (∃ xs, Trail key role (fresh c out inc) xs w) ∧
      ∀ xs, Trail key role (fresh c out inc) xs w →
        Reported key role (fresh c out inc) xs w res := by
  refine ⟨exists_trail ⟨c, out, inc, .refl⟩ h, fun xs htrail => ?_⟩
  have hcomplete : Complete xs res := (stands_of_trail htrail).complete hended
  refine ⟨hcomplete.first, ?_, fun err hmem => .of_trail htrail hended hmem,
    fun hnone => Shut.of_trail htrail hended hnone⟩
  rintro err rfl
  exact hcomplete.error

end World

/-- A read loop that has waited for too long ends. -/
theorem readsLate {key : SessionKey} {role : Role} {env : Env} {s : Site} {r : Drive} {c : Bytes}
    {due : Option Nat} (hr : s.engine.drive = some r)
    (hserving : r.control = .serving) (hread : r.reading = .reading c due)
    (hnone : r.opener.advance c s.stream.incoming = none) (hdue : due.any (· ≤ env.now) = true) :
    Move key role env s { s with
      engine := s.engine.stop.driving
        { r with reading := .ended, control := .draining (.error (.timeout .read)) } } := by
  refine Move.of_quiet .read [] ?_ (Nat.le_refl _) rfl
  simp [step, stepRead, hr, hserving, Control.reads, hread, hnone, expired, hdue, readLoopEnds]

namespace World

/-- The far end neither sends nor reads: first reading takes too long, and then writing does. -/
theorem exists_two_failures (key : SessionKey) : ∃ w,
    Leads key .client (fresh { writeBufferSize := 64, readTimeoutMs := 3, writeTimeoutMs := 10 }
      5 5) w ∧ w.log.ended = [.error (.timeout .read)] ∧ w.log.troubles = [.timeout .write] := by
  let c : Config.Connection := { writeBufferSize := 64, readTimeoutMs := 3, writeTimeoutMs := 10 }
  let settings : Settings := c.settings
  let env : Env := prompt false fun _ => none
  let o : Outgoing := { frame := ⟨0, [1]⟩ }
  let first : Drive := firstDrive key .client env settings
  let w₀ : World := .fresh c 5 5
  let started : Site := .started key .client env settings w₀.stream
  let posted : Site := started.posted [1]
  have hposted : Moves key .client env w₀.toSite posted :=
    .head (starts settings w₀.stream) (.single (posts rfl).2)
  let last : Drive := { first with
    reading := .ended, control := .draining (.error (.timeout .read)) }
  let late : Site := { posted with engine := posted.engine.stop.driving last }
  have hlate : Move key .client { env with now := 3 } posted late :=
    readsLate rfl rfl rfl rfl rfl
  -- The frame goes into the buffer, and five bytes of it into the pipe.
  let bytes : Bytes := sealed key .clientToServer 0 o.frame
  have hlength : bytes.length = 25 := by
    rw [length_sealed, Frame.length_encode]
    rfl
  let stalled : Site := late.stalled last bytes 13
  have hstalled : Moves key .client { env with now := 3 } late stalled := by
    refine stalls (o := o) (r := last) rfl rfl rfl ⟨rfl, spellable_byte 1⟩ ?_ rfl rfl ?_ rfl ?_
    · exact (by decide : 0 < Nonce.last)
    · rw [hlength]
      exact (by decide : 25 < 84)
    · exact (by decide : 5 ≠ 0)
  have hheld : bytes.drop 5 ≠ [] := by
    rw [ne_eq, List.drop_eq_nil_iff, hlength]
    decide
  have hfull : stalled.stream.outgoing.room = 0 := by
    show 5 - ([] ++ bytes.take 5).length = 0
    rw [List.nil_append, List.length_take, hlength]
    rfl
  let gone : Site := stalled.gaveUp (.error (.timeout .read))
  have hgone : Move key .client { env with now := 13 } stalled gone :=
    givesUp rfl rfl hheld rfl hfull (Nat.le_refl 13)
  have hleads : Leads key .client { w₀ with toSite := posted } { w₀ with toSite := gone } :=
    .head (.near hlate) ((World.leads { w₀ with toSite := late } hstalled).tail (.near hgone))
  exact ⟨{ w₀ with toSite := gone }, (w₀.leads hposted).trans hleads, rfl, rfl⟩

/-- Where reading takes too long, and writing after it, the error is that of reading. -/
theorem read_timeout_is_reported : ∃ w xs,
    Trail ⟨[7]⟩ .client (fresh { writeBufferSize := 64, readTimeoutMs := 3, writeTimeoutMs := 10 }
      5 5) xs w ∧ w.log.ended = [.error (.timeout .read)] ∧ w.log.troubles = [.timeout .write] ∧
    .cancelled ∉ xs := by
  obtain ⟨w, hleads, hended, htroubles⟩ := exists_two_failures ⟨[7]⟩
  obtain ⟨⟨xs, htrail⟩, hreported⟩ := first_failure_is_reported hleads hended
  exact ⟨w, xs, htrail, hended, htroubles, ((hreported xs htrail).error _ rfl).1⟩

end World
end Parley.Engine
