import Parley.Proofs.Keyed
import Parley.Proofs.Engine.Settlement
import Parley.Proofs.Engine.Submission

/-! Refused submissions change nothing.

When a call is refused the only trace of it is that it was made and has returned. `World.without`
forgets a call by its name, and then a world in which a call was refused is the world before it.
Nothing that happens later makes a difference between the two: whatever comes after a refused call
also comes without it, and whatever comes without it also comes after it (`leads_without`,
`leads_with`), with the same frames, the same numbers, the same bytes, and the same outcomes of all
other calls. -/
namespace Parley.Engine
open Channel

variable {key : SessionKey} {role : Role} {env : Env} {s s' u : Site} {w v : World} {id : CallId}

/-- The same without what it says of a call. -/
def Log.without (id : CallId) (l : Log) : Log :=
  { l with
    calls := l.calls.filter (· != id)
    returned := l.returned.filter (·.1 != id) }

def Site.without (id : CallId) (s : Site) : Site := { s with log := s.log.without id }

/-- A call that is not there. -/
def Site.Gone (id : CallId) (s : Site) : Prop := ∀ c ∈ s.engine.calls, c.id ≠ id

/-! ### Steps -/

/-- A call that returns was there. -/
theorem mem_calls_of_returned {e e' : Engine} {d d' : Duplex} {events : List Event} {o : Outcome}
    (h : Stepped env e d e' d' events) (ho : .returned id o ∈ events) :
    ∃ c ∈ e.calls, c.id = id := by
  cases h with
  | answered hc =>
    obtain ⟨rfl, -⟩ := Event.returned.inj (List.mem_singleton.mp ho)
    exact ⟨_, Keyed.mem_of_find? hc⟩
  | expired hc =>
    simp only [List.mem_cons, reduceCtorEq, Event.returned.injEq, List.not_mem_nil, or_false,
      false_or] at ho
    obtain ⟨rfl, -⟩ := ho
    exact ⟨_, Keyed.mem_of_find? hc⟩
  | _ => simp at ho

theorem note_without {ev : Event} (h : ∀ o, ev ≠ .returned id o) (l : Log) :
    (l.note ev).without id = (l.without id).note ev := by
  cases ev with
  | returned other o =>
    have hother : other ≠ id := fun heq => h o (heq ▸ rfl)
    have hreturned : (l.returned ++ [(other, o)]).filter (·.1 != id) =
        l.returned.filter (·.1 != id) ++ [(other, o)] := by
      simp [List.filter_append, hother]
    simp only [Log.without, Log.note, hreturned]
  | _ => rfl

theorem notes_without {events : List Event} (h : ∀ o, .returned id o ∉ events) (l : Log) :
    (events.foldl Log.note l).without id = events.foldl Log.note (l.without id) := by
  induction events generalizing l with
  | nil => rfl
  | cons ev events ih =>
    rw [List.foldl_cons, List.foldl_cons, ih fun o ho => h o (List.mem_cons_of_mem _ ho),
      note_without fun o heq => h o (heq ▸ List.mem_cons_self)]

theorem after_without {e : Engine} {d : Duplex} {events : List Event}
    (h : ∀ o, .returned id o ∉ events) :
    (s.after e d events).without id = (s.without id).after e d events :=
  congrArg (Site.mk e d) (notes_without h _)

theorem not_returned (hgone : s.Gone id) {e : Engine} {d : Duplex} {events : List Event}
    (h : Stepped env s.engine s.stream e d events) : ∀ o, .returned id o ∉ events := by
  intro o ho
  obtain ⟨c, hc, hid⟩ := mem_calls_of_returned h ho
  exact hgone c hc hid

theorem calls_without {n : CallId} (hn : n ≠ id) (s : Site) :
    (s.log.calls ++ [n]).filter (· != id) = (s.without id).log.calls ++ [n] := by
  simp [Site.without, Log.without, List.filter_append, hn]

theorem returned_without {n : CallId} (hn : n ≠ id) (s : Site) (o : Outcome) :
    (s.log.returned ++ [(n, o)]).filter (·.1 != id) = (s.without id).log.returned ++ [(n, o)] := by
  simp [Site.without, Log.without, List.filter_append, hn]

theorem quiet_without (s : Site) (id : CallId) (e : Engine) (d : Duplex) :
    (s.after e d []).without id = (s.without id).after e d [] :=
  after_without fun _ => List.not_mem_nil

/-- What is done by others is done without a call that is gone. -/
theorem Move.without (h : Move key role env s s') (hknown : id ∈ s.log.calls)
    (hgone : s.Gone id) : Move key role env (s.without id) (s'.without id) := by
  have hother {n : CallId} (hnew : n ∉ s.log.calls) : n ≠ id := fun heq => hnew (heq ▸ hknown)
  have hname {n : CallId} (hnew : n ∉ s.log.calls) : n ∉ (s.without id).log.calls := fun hn =>
    hnew (List.mem_filter.mp hn).1
  cases h with
  | post h => exact quiet_without s id _ _ ▸ .post h
  | write hnew h =>
    have hmove : Move key role env _ _ := .write (hname hnew) h
    rw [← calls_without (hother hnew)] at hmove
    exact hmove
  | request hnew hfree h =>
    have hmove : Move key role env _ _ := .request (hname hnew) hfree h
    rw [← calls_without (hother hnew)] at hmove
    exact hmove
  | refuse hnew h =>
    have hmove : Move key role env _ _ := .refuse (hname hnew) h
    rw [← calls_without (hother hnew), ← returned_without (hother hnew)] at hmove
    exact hmove
  | giveUp hc => exact .giveUp hc
  | start h => exact quiet_without s id _ _ ▸ .start h
  | abandon => exact quiet_without s id _ _ ▸ .abandon
  | step h =>
    rw [after_without (not_returned hgone (stepped_of_step h))]
    exact .step h

theorem ne_of_new {calls : List CallId} {n : CallId} (h : id ∉ calls ++ [n]) : n ≠ id :=
  fun heq => h (heq ▸ List.mem_append_right _ List.mem_cons_self)

/-- And what is done without it is done with it, unless it is made there too. -/
theorem Move.with (h : Move key role env (s.without id) u) (hnew : id ∉ u.log.calls)
    (hgone : s.Gone id) : ∃ s', Move key role env s s' ∧ s'.without id = u := by
  have hname {n : CallId} (hn : n ∉ (s.without id).log.calls) (hne : n ≠ id) :
      n ∉ s.log.calls := fun hmem => hn (List.mem_filter.mpr ⟨hmem, by simpa using hne⟩)
  cases h with
  | post h => exact ⟨_, .post h, quiet_without s id _ _⟩
  | @write n payload e hn h =>
    have hne : n ≠ id := ne_of_new hnew
    refine ⟨_, .write (hname hn hne) h, ?_⟩
    rw [← calls_without hne]
    rfl
  | @request n payload capacity due e hn hfree h =>
    have hne : n ≠ id := ne_of_new hnew
    refine ⟨_, .request (hname hn hne) hfree h, ?_⟩
    rw [← calls_without hne]
    rfl
  | @refuse n err hn h =>
    have hne : n ≠ id := ne_of_new hnew
    refine ⟨_, .refuse (hname hn hne) h, ?_⟩
    rw [← calls_without hne, ← returned_without hne]
    rfl
  | giveUp hc => exact ⟨_, .giveUp hc, rfl⟩
  | start h => exact ⟨_, .start h, quiet_without s id _ _⟩
  | abandon => exact ⟨_, .abandon, quiet_without s id _ _⟩
  | step h =>
    exact ⟨_, .step h, after_without (not_returned hgone (stepped_of_step h))⟩

/-! ### Refused calls -/

namespace World

def without (id : CallId) (w : World) : World := { w with toSite := w.toSite.without id }

/-- A call is made and refused. -/
def refusing (w : World) (id : CallId) (err : Error) : World :=
  { w with log := { w.log with
      calls := w.log.calls ++ [id]
      returned := w.log.returned ++ [(id, .failed err)] } }

/-- Without the refused call it is the world before. -/
theorem without_refusing (h : w.ledger.Kept) (hnew : id ∉ w.log.calls) (err : Error) :
    (w.refusing id err).without id = w := by
  have hcalls : (w.log.calls ++ [id]).filter (· != id) = w.log.calls := by
    rw [List.filter_append, List.filter_eq_self.mpr ?_]
    · simp
    · intro n hn
      have hne : n ≠ id := fun heq => hnew (heq ▸ hn)
      simpa using hne
  have hreturned : (w.log.returned ++ [(id, Outcome.failed err)]).filter (·.1 != id) =
      w.log.returned := by
    rw [List.filter_append, List.filter_eq_self.mpr ?_]
    · simp
    · rintro ⟨n, o⟩ hmem
      have hknown : n ∈ w.log.calls := (h.named.returned n o hmem).1
      have hne : n ≠ id := fun heq => hnew (heq ▸ hknown)
      simpa using hne
  show { w with log := { w.log with
    calls := (w.log.calls ++ [id]).filter (· != id)
    returned := (w.log.returned ++ [(id, Outcome.failed err)]).filter (·.1 != id) } } = w
  rw [hcalls, hreturned]

/-- A call that has returned stays returned, and is not there. -/
theorem gone_of_returned (h : Reachable key role w) {o : Outcome} (ho : (id, o) ∈ w.log.returned) :
    id ∈ w.log.calls ∧ w.Gone id :=
  ⟨((kept_of_reachable h).named.returned id o ho).1,
    ((kept_of_reachable h).named.returned id o ho).2.2⟩

/-- Whatever comes after a call has returned comes without it. -/
theorem leads_without (h : Reachable key role w) {o : Outcome} (ho : (id, o) ∈ w.log.returned)
    (hleads : Leads key role w v) : Leads key role (w.without id) (v.without id) := by
  induction hleads with
  | refl => exact .refl
  | @tail x y hleads hstep ih =>
    have ho' : (id, o) ∈ x.log.returned := (grows_leads hleads).returned.subset ho
    obtain ⟨hknown, hgone⟩ := gone_of_returned (h.leads hleads) ho'
    refine ih.tail ?_
    cases hstep with
    | near hmove => exact .near (hmove.without hknown hgone)
    | far hread => exact .far hread

/-- Whatever comes without it comes after it, as long as its name is not used. -/
theorem leads_with (h : Reachable key role w) {o : Outcome} (ho : (id, o) ∈ w.log.returned)
    {x : World} (hleads : Leads key role (w.without id) x) (hnew : id ∉ x.log.calls) :
    ∃ v, Leads key role w v ∧ v.without id = x := by
  induction hleads with
  | refl => exact ⟨w, .refl, rfl⟩
  | @tail y z hbefore hstep ih =>
    have hgrows : y.log.Grows z.log := grows_leads (.single hstep)
    obtain ⟨v, hleads, rfl⟩ := ih fun hmem => hnew (hgrows.calls.subset hmem)
    have ho' : (id, o) ∈ v.log.returned := (grows_leads hleads).returned.subset ho
    obtain ⟨-, hgone⟩ := gone_of_returned (h.leads hleads) ho'
    cases hstep with
    | near hmove =>
      obtain ⟨s, hmove', hs⟩ := hmove.with hnew hgone
      exact ⟨{ v with toSite := s }, hleads.tail (.near hmove'), congrArg (World.mk · v.heard) hs⟩
    | @far d bytes hread =>
      exact ⟨{ v with stream := d, heard := v.heard ++ bytes }, hleads.tail (.far hread), rfl⟩

/-! ### What a refusal leaves -/

/-- What becomes of a world in which a submission is refused. A call that somebody waits for is
made and returns; of one that nobody waits for there is no trace. -/
def refused (w : World) (a : Submission) (err : Error) : World :=
  match a.caller with
  | none => w
  | some id => w.refusing id err

/-- Forgets a call that was refused. -/
def forgetting (w : World) (a : Submission) : World :=
  match a.caller with
  | none => w
  | some id => w.without id

/-- Nothing but the refused call itself changes, then or later. -/
structure Harmless (key : SessionKey) (role : Role) (w : World) (a : Submission) (err : Error) :
    Prop where
  /-- The payload is too long, or else no more frames are taken. -/
  reason : (w.engine.settings.maxWrite - Frame.seqLength < a.payload.length ∧
      err = .framing (.payloadTooLarge a.payload.length
        (w.engine.settings.maxWrite - Frame.seqLength))) ∨
    (a.payload.length ≤ w.engine.settings.maxWrite - Frame.seqLength ∧ w.engine.stopped = true ∧
      err = .shutdown)
  /-- What was done before the refusal has left the engine as it was: its queue, its table, its
  counter, and the loops over its stream with the nonces. -/
  undone : ∀ pool, ∃ s, (Desk.mk w.engine pool).after (Desk.submit a) = (.error err, s) ∧
    s.engine = w.engine
  /-- It may happen at any time, and the world is as before but for the call. -/
  leads : Leads key role w (w.refused a err)
  engine : (w.refused a err).engine = w.engine
  stream : (w.refused a err).stream = w.stream ∧ (w.refused a err).heard = w.heard
  forgotten : (w.refused a err).forgetting a = w
  /-- What comes after it comes without it. -/
  after : ∀ v, Leads key role (w.refused a err) v → Leads key role w (v.forgetting a)
  /-- What comes without it comes after it. -/
  before : ∀ u, Leads key role w u → (∀ id, a.caller = some id → id ∉ u.log.calls) →
    ∃ v, Leads key role (w.refused a err) v ∧ v.forgetting a = u
  /-- Forgetting the call takes no bytes, no number and no other call's outcome from a world. -/
  others : ∀ v : World, (v.forgetting a).engine = v.engine ∧
    (v.forgetting a).stream = v.stream ∧ (v.forgetting a).heard = v.heard ∧
    (v.forgetting a).log.issued = v.log.issued ∧ (v.forgetting a).log.accepted = v.log.accepted ∧
    (v.forgetting a).log.written = v.log.written ∧
    ∀ id o, a.caller ≠ some id →
      ((id, o) ∈ (v.forgetting a).log.returned ↔ (id, o) ∈ v.log.returned)

theorem refuse_of_caller {a : Submission} {err : Error} (h : a.submit w.engine = .error err)
    (hid : a.caller = some id) : (∃ payload, w.engine.write id payload = .error err) ∨
      ∃ payload capacity due, w.engine.request id payload capacity due = .error err := by
  cases a with
  | post => cases hid
  | write => cases hid; exact .inl ⟨_, h⟩
  | request => cases hid; exact .inr ⟨_, _, _, h⟩

theorem leads_refused {a : Submission} {err : Error} (h : a.submit w.engine = .error err)
    (hnew : ∀ id, a.caller = some id → id ∉ w.log.calls) :
    Leads key role w (w.refused a err) := by
  unfold refused
  split
  · exact .refl
  · rename_i id hcaller
    have hmove : Move key role ⟨0, false, false, fun _ => none⟩ w.toSite _ :=
      .refuse (hnew id hcaller) (refuse_of_caller h hcaller)
    exact .single (.near hmove)

theorem forgetting_others (v : World) (a : Submission) : (v.forgetting a).engine = v.engine ∧
    (v.forgetting a).stream = v.stream ∧ (v.forgetting a).heard = v.heard ∧
    (v.forgetting a).log.issued = v.log.issued ∧ (v.forgetting a).log.accepted = v.log.accepted ∧
    (v.forgetting a).log.written = v.log.written ∧
    ∀ id o, a.caller ≠ some id →
      ((id, o) ∈ (v.forgetting a).log.returned ↔ (id, o) ∈ v.log.returned) := by
  unfold forgetting
  split
  · exact ⟨rfl, rfl, rfl, rfl, rfl, rfl, fun _ _ _ => Iff.rfl⟩
  · rename_i n hcaller
    refine ⟨rfl, rfl, rfl, rfl, rfl, rfl, fun id o hid => ?_⟩
    have hne : id ≠ n := fun heq => hid (hcaller.trans (congrArg some heq.symm))
    simp [without, Site.without, Log.without, hne]

theorem harmless_of_refused (h : Reachable key role w) {a : Submission} {err : Error}
    (ha : a.submit w.engine = .error err) (hnew : ∀ id, a.caller = some id → id ∉ w.log.calls) :
    w.Harmless key role a err := by
  have hleads : Leads key role w (w.refused a err) := leads_refused ha hnew
  have hforgotten : (w.refused a err).forgetting a = w := by
    unfold refused forgetting
    split
    · rfl
    · rename_i id hcaller
      exact without_refusing (kept_of_reachable h) (hnew id hcaller) err
  have hreturned {id : CallId} (hcaller : a.caller = some id) :
      (id, Outcome.failed err) ∈ (w.refused a err).log.returned := by
    rw [refused, hcaller]
    exact List.mem_append_right _ List.mem_cons_self
  refine {
    reason := refused_iff.mp ha
    undone := fun pool => Desk.after_refused ha
    leads := hleads
    engine := by unfold refused; split <;> rfl
    stream := by unfold refused; split <;> exact ⟨rfl, rfl⟩
    forgotten := hforgotten
    after := fun v hv => ?_
    before := fun u hu hfresh => ?_
    others := fun v => forgetting_others v a }
  · cases hcaller : a.caller with
    | none =>
      rw [refused, hcaller] at hv
      rwa [forgetting, hcaller]
    | some id =>
      have hlater := leads_without (h.leads hleads) (hreturned hcaller) hv
      have hbefore : (w.refused a err).without id = w := by
        rwa [forgetting, hcaller] at hforgotten
      rw [hbefore] at hlater
      rwa [forgetting, hcaller]
  · cases hcaller : a.caller with
    | none => exact ⟨u, by rwa [refused, hcaller], by rw [forgetting, hcaller]⟩
    | some id =>
      have hbefore : (w.refused a err).without id = w := by
        rwa [forgetting, hcaller] at hforgotten
      obtain ⟨v, hlater, hv⟩ := leads_with (h.leads hleads) (hreturned hcaller) (x := u)
        (by rwa [hbefore]) (hfresh id hcaller)
      exact ⟨v, hlater, by rwa [forgetting, hcaller]⟩

/-! ### Refused replies -/

/-- A reply that is refused is as good as none: the read loop goes on, and all else stays as it
is. -/
theorem dropped_reply {r : Drive} {f : Frame} {payload : Bytes} {err : Error} {d : Duplex}
    {e : Engine} (hr : e.drive = some r) (hreading : r.reading = .handling f)
    (hreply : env.reply f.payload = some payload)
    (hrefused : e.refusal payload.length = some err) :
    e.step env .read d = e.step { env with reply := fun _ => none } .read d ∧
      ∀ e' d' events, e.step env .read d = some (e', d', events) →
        e' = { e with drive := some { r with reading := .reading [] (e.readDue env.now) } } ∧
          d' = d ∧ events = [.delivered f] := by
  let silent : Env := { env with reply := fun _ => none }
  have hsilent : e.handled silent r f = e.readOn env r := by
    unfold handled
    split <;> rfl
  have hdropped : e.handled env r f = e.readOn env r := by
    have hrefused' : (e.readOn env r).refusal payload.length = some err := hrefused
    unfold handled
    split
    · rfl
    · rw [hreply]
      show (e.readOn env r).reply f.seq payload = _
      rw [reply, hrefused']
  simp only [step, stepRead, hr, hreading, hdropped]
  refine ⟨by rw [hsilent], fun e' d' events h => ?_⟩
  split at h
  · cases h
  · split at h
    · cases h
      exact ⟨rfl, rfl, rfl⟩
    · cases h

/-- A submission that is refused, and a reply that is refused, change nothing. -/
theorem refusal_changes_nothing (h : Reachable key role w) :
    (∀ a err, a.submit w.engine = .error err → (∀ id, a.caller = some id → id ∉ w.log.calls) →
      w.Harmless key role a err) ∧
    ∀ env r f payload err, w.engine.drive = some r → r.reading = .handling f →
      env.reply f.payload = some payload → w.engine.refusal payload.length = some err →
      w.engine.step env .read w.stream =
          w.engine.step { env with reply := fun _ => none } .read w.stream ∧
        ∀ e d events, w.engine.step env .read w.stream = some (e, d, events) →
          e = { w.engine with drive := some { r with
            reading := .reading [] (w.engine.readDue env.now) } } ∧
          d = w.stream ∧ events = [.delivered f] :=
  ⟨fun _ _ ha hnew => harmless_of_refused h ha hnew,
    fun _ _ _ _ _ hr hreading hreply hrefused => dropped_reply hr hreading hreply hrefused⟩

/-- While a request waits for its response another one is refused, because it is too long: the
one goes on waiting, and the next gets the number that the other one did not get. -/
theorem long_request_changes_nothing : ∃ w : World, Reachable ⟨[7]⟩ .client w ∧
    w.engine.table = [{ seq := 1, call := 0, capacity := 1 }] ∧
    w.Harmless ⟨[7]⟩ .client (.request 1 [1, 2, 3, 4, 5] 1 9)
      (.framing (.payloadTooLarge 5 4)) ∧
    (w.refused (.request 1 [1, 2, 3, 4, 5] 1 9) (.framing (.payloadTooLarge 5 4))).engine.nextSeq
      = 2 := by
  let w₀ : World := .fresh { writeBufferSize := 8 } 100 100
  have haccepted : w₀.engine.request 0 [1] 1 9 = .ok _ := rfl
  have hasked : Move ⟨[7]⟩ .client ⟨0, false, true, fun _ => none⟩ w₀.toSite _ :=
    .request List.not_mem_nil (by decide) haccepted
  have hreach : Reachable ⟨[7]⟩ .client _ := ⟨_, _, _, .single (.near hasked)⟩
  refine ⟨_, hreach, rfl, (refusal_changes_nothing hreach).1 _ _ rfl ?_, rfl⟩
  rintro id ⟨⟩
  decide

end World
end Parley.Engine
