import Parley.Proofs.Admission.History

/-! Clocks, signals, and how calls return.

Whoever is in line has a deadline, counted from the call, and time does not pass it (`Dated`): when
nobody can go on, each of those in line has time left, was not told to stop and has no slot
(`settled_dated`). So a call that has to go, because of its signal or because its time is over, goes
before the clock moves (`urgent_leads`). How a call returns is told by what was known then
(`Verdict`, `Told`). -/
namespace Parley.Sim.Admitting.World

variable {max wait : Nat} {w w' : World} {id : CallId} {q : Reservation} {x : Entry}
  {signal : Signal}

/-! ### Rest -/

theorem lookup_of_mem {waits : List (CallId × Signal)} (h : id ∈ waits.map (·.1)) :
    ∃ signal, waits.lookup id = some signal := by
  cases hlookup : waits.lookup id with
  | none =>
    obtain ⟨p, hp, rfl⟩ := List.mem_map.mp h
    exact absurd (List.lookup_eq_none_iff.mp hlookup p hp) (by simp)
  | some signal => exact ⟨signal, rfl⟩

/-- Nobody can go on: who is in line was not told to stop, has no slot and has time left. -/
theorem settled_dated (hnamed : Named w) (hrest : system.Settled w.state) {due : Nat}
    (hdated : (id, due) ∈ w.state.admission.dated) :
    id ∈ w.state.admission.unserved ∧ w.state.now < due ∧
      ∃ signal, (id, signal) ∈ w.state.waits ∧ signal.isCancelled w.state.source = false := by
  have hid : id ∈ w.state.waits.map (·.1) := by
    obtain ⟨v, hv, heq⟩ := List.mem_map.mp hdated
    rw [hnamed.line, ← (Prod.mk.inj heq).1]
    exact List.mem_map_of_mem hv
  obtain ⟨signal, hlookup⟩ := lookup_of_mem hid
  have hnone : w.state.stepWait id = none := hrest id
  rw [State.stepWait, hlookup] at hnone
  obtain ⟨hgoes, hunserved, htime⟩ := Admission.stepWait_eq_none hnamed.waiting_nodup
    (Option.map_eq_none_iff.mp hnone) hdated
  exact ⟨hunserved, htime, signal, Keyed.mem_of_lookup hlookup, hgoes⟩

/-! ### Clocks and signals of those in line -/

/-- Those in line listen to the signals they came with, and wait as long as it was agreed. -/
structure Dated (wait : Nat) (w : World) : Prop where
  agreed : w.state.admission.wait = wait
  listens : ∀ p ∈ w.state.waits, ∃ q ∈ w.asked, q.call = p.1 ∧ q.signal = p.2
  clocks : ∀ p ∈ w.state.admission.dated, ∃ q ∈ w.asked, q.call = p.1 ∧
    p.2 = q.since + wait ∧ q.since ≤ w.state.now ∧ w.state.now ≤ p.2

/-- Some of those in line are gone, if any. -/
theorem Dated.fewer (h : Dated wait w) (hwait : w'.state.admission.wait = w.state.admission.wait)
    (hwaits : w'.state.waits ⊆ w.state.waits)
    (hdated : w'.state.admission.dated ⊆ w.state.admission.dated) (hasked : w.asked ⊆ w'.asked)
    (hnow : w'.state.now = w.state.now) : Dated wait w' where
  agreed := hwait.trans h.agreed
  listens p hp := by
    obtain ⟨q, hq, hlistens⟩ := h.listens p (hwaits hp)
    exact ⟨q, hasked hq, hlistens⟩
  clocks p hp := by
    obtain ⟨q, hq, hclock⟩ := h.clocks p (hdated hp)
    exact ⟨q, hasked hq, hnow ▸ hclock⟩

theorem Dated.change (h : Dated wait w) (hnamed : Named w) (hchange : Change w w') :
    Dated wait w' := by
  have hgone (id : CallId) : w.state.waits.filter (·.1 != id) ⊆ w.state.waits :=
    List.filter_sublist.subset
  have hwithout (id : CallId) : (w.state.admission.without id).dated ⊆ w.state.admission.dated :=
    Admission.dated_without w.state.admission id ▸ List.filter_sublist.subset
  have hleave (id : CallId) : (w.state.admission.leave id).dated ⊆ w.state.admission.dated :=
    Admission.dated_leave w.state.admission id ▸ List.filter_sublist.subset
  cases hchange with
  | refused
  | admitted =>
    exact h.fewer rfl (hgone _) (List.Subset.refl _) (List.subset_append_left _ _) rfl
  | @queued id signal _ _ _ =>
    refine ⟨h.agreed, ?_, ?_⟩
    · intro p hp
      rcases List.mem_append.mp hp with hmem | hmem
      · obtain ⟨q, hq, hlistens⟩ := h.listens p hmem
        exact ⟨q, List.mem_append_left _ hq, hlistens⟩
      · obtain rfl := List.mem_singleton.mp hmem
        exact ⟨⟨id, signal, w.state.now⟩, List.mem_append_right _ List.mem_cons_self, rfl, rfl⟩
    · intro p hp
      have hp : p ∈ (w.state.admission.queue id w.state.now).dated := hp
      rw [Admission.dated_queue] at hp
      rcases List.mem_append.mp hp with hmem | hmem
      · obtain ⟨q, hq, hclock⟩ := h.clocks p hmem
        exact ⟨q, List.mem_append_left _ hq, hclock⟩
      · obtain rfl := List.mem_singleton.mp hmem
        exact ⟨⟨id, signal, w.state.now⟩, List.mem_append_right _ List.mem_cons_self, rfl,
          congrArg (w.state.now + ·) h.agreed, Nat.le_refl _, Nat.le_add_right _ _⟩
  | released =>
    exact h.fewer (Admission.wait_release _) (List.Subset.refl _)
      (fun _ hp => Admission.dated_release w.state.admission ▸ hp) (List.Subset.refl _) rfl
  | gaveUp
  | stopped =>
    exact h.fewer (Admission.wait_leave _ _) (hgone _) (hleave _) (List.Subset.refl _) rfl
  | seated
  | lapsed => exact h.fewer rfl (hgone _) (hwithout _) (List.Subset.refl _) rfl
  | told => exact ⟨h.agreed, h.listens, h.clocks⟩
  | @ticked now hrest hlater hdue =>
    refine ⟨h.agreed, h.listens, fun p hp => ?_⟩
    obtain ⟨q, hq, hcall, htime, hsince, -⟩ := h.clocks p hp
    obtain ⟨-, hleft, -⟩ := settled_dated hnamed hrest hp
    have hdues : p.2 ∈ system.dues w.state := by
      obtain ⟨v, hv, rfl⟩ := List.mem_map.mp hp
      exact List.mem_map_of_mem hv
    exact ⟨q, hq, hcall, htime, Nat.le_trans hsince (Nat.le_of_lt hlater), hdue p.2 hdues hleft⟩

/-- The call of somebody in line. -/
theorem Dated.reservation (h : Dated wait w) (hnamed : Named w)
    (hmem : (id, signal) ∈ w.state.waits) :
    ∃ q ∈ w.asked, q.call = id ∧ q.signal = signal ∧ q.since ≤ w.state.now ∧
      w.state.now ≤ q.since + wait ∧ (id, q.since + wait) ∈ w.state.admission.dated := by
  obtain ⟨q, hq, rfl, rfl⟩ := h.listens _ hmem
  obtain ⟨v, hv, hid⟩ := List.mem_map.mp (hnamed.mem_waiting hmem)
  have hdated : (v.id, v.due) ∈ w.state.admission.dated := List.mem_map_of_mem hv
  obtain ⟨q', hq', hcall, hdue, hsince, htime⟩ := h.clocks _ hdated
  -- No two calls have the same name.
  obtain rfl : q' = q := Keyed.eq_of_mem hnamed.nodup hq' hq (hcall.trans hid)
  exact ⟨q', hq, rfl, rfl, hsince, hdue ▸ htime, by rwa [hcall, ← hdue]⟩

/-! ### How calls return -/

/-- How a call returned, in view of what was known then: it has a permit because it was handed a
slot and its signal was not triggered; or it was told to stop; or its time was over, nobody had
told it to stop, and all who had been handed a slot by then had asked before it. -/
inductive Verdict (wait : Nat) (names : List CallId) (q : Reservation) (x : Entry) : Prop where
  | permit (hresult : x.result = .ok ()) (hgoes : q.signal.isTriggered x.source = false)
      (hserved : x.call ∈ x.served)
  | stopped (hresult : x.result = .error .shutdown) (hstop : q.signal.isCancelled x.source = true)
  | late (hresult : x.result = .error (.timeout .admission)) (hdue : x.time = q.since + wait)
      (hgoes : q.signal.isCancelled x.source = false)
      (hturn : (x.served ++ [x.call]).Sublist names)

/-- Every call that returned did so by its deadline, and for a reason. -/
def Told (wait : Nat) (w : World) : Prop :=
  ∀ x ∈ w.log, ∃ q ∈ w.asked, q.call = x.call ∧ q.since ≤ x.time ∧ x.time ≤ q.since + wait ∧
    Verdict wait w.names q x

theorem Verdict.of_sublist {names names' : List CallId} (h : Verdict wait names q x)
    (hnames : names.Sublist names') : Verdict wait names' q x := by
  cases h with
  | permit hresult hgoes hserved => exact .permit hresult hgoes hserved
  | stopped hresult hstop => exact .stopped hresult hstop
  | late hresult hdue hgoes hturn => exact .late hresult hdue hgoes (hturn.trans hnames)

theorem isCancelled_of_isTriggered {source : Shutdown} (h : signal.isTriggered source = true) :
    signal.isCancelled source = true := by
  cases signal with
  | subscribed => exact Bool.or_eq_true_iff.mpr (.inl h)
  | never => exact h

theorem isTriggered_of_isCancelled {source : Shutdown} (h : signal.isCancelled source = false) :
    signal.isTriggered source = false :=
  Bool.eq_false_iff.mpr fun htriggered =>
    Bool.eq_false_iff.mp h (isCancelled_of_isTriggered htriggered)

theorem Told.same (h : Told wait w) (hasked : w.asked.Sublist w'.asked) (hlog : w'.log = w.log) :
    Told wait w' := by
  intro x hx
  obtain ⟨q, hq, hcall, hsince, htime, hverdict⟩ := h x (hlog ▸ hx)
  exact ⟨q, hasked.subset hq, hcall, hsince, htime, hverdict.of_sublist (hasked.map _)⟩

/-- One more call has returned. -/
theorem Told.note (h : Told wait w) (hasked : w.asked.Sublist w'.asked)
    (hlog : w'.log = w.log ++ [x]) (hq : q ∈ w'.asked) (hcall : q.call = x.call)
    (hsince : q.since ≤ x.time) (htime : x.time ≤ q.since + wait)
    (hverdict : Verdict wait w'.names q x) : Told wait w' := by
  intro y hy
  rcases List.mem_append.mp (hlog ▸ hy) with hold | hnew
  · obtain ⟨q', hq', hcall', hsince', htime', hverdict'⟩ := h y hold
    exact ⟨q', hasked.subset hq', hcall', hsince', htime', hverdict'.of_sublist (hasked.map _)⟩
  · obtain rfl := List.mem_singleton.mp hnew
    exact ⟨q, hq, hcall, hsince, htime, hverdict⟩

theorem Told.change (h : Told wait w) (hnamed : Named w) (hordered : Ordered max w)
    (hdated : Dated wait w) (hchange : Change w w') : Told wait w' := by
  have hmore (q : Reservation) : w.asked.Sublist (w.asked ++ [q]) := List.sublist_append_left ..
  cases hchange with
  | @refused id signal _ hstop =>
    have hverdict := isCancelled_of_isTriggered hstop
    exact h.note (hmore ⟨id, signal, w.state.now⟩) rfl (List.mem_append_right _ List.mem_cons_self)
      rfl (Nat.le_refl _) (Nat.le_add_right _ _) (.stopped rfl hverdict)
  | @admitted id signal _ hgoes _ =>
    have hserved : id ∈ w.served ++ [id] := List.mem_append_right _ List.mem_cons_self
    exact h.note (hmore ⟨id, signal, w.state.now⟩) rfl (List.mem_append_right _ List.mem_cons_self)
      rfl (Nat.le_refl _) (Nat.le_add_right _ _) (.permit rfl hgoes hserved)
  | @stopped id signal hmem hstop =>
    obtain ⟨q, hq, hcall, rfl, hsince, htime, -⟩ := hdated.reservation hnamed hmem
    exact h.note (.refl _) rfl hq hcall hsince htime (.stopped rfl hstop)
  | @seated id signal hmem hgoes hpromised =>
    obtain ⟨q, hq, hcall, rfl, hsince, htime, -⟩ := hdated.reservation hnamed hmem
    have hserved : id ∈ w.served := hordered.served id (List.mem_append_left _ hpromised)
    exact h.note (.refl _) rfl hq hcall hsince htime
      (.permit rfl (isTriggered_of_isCancelled hgoes) hserved)
  | @lapsed id signal due hmem hgoes hunserved hdue hpast =>
    obtain ⟨q, hq, hcall, rfl, hsince, htime, hclock⟩ := hdated.reservation hnamed hmem
    have htimes : due = q.since + wait := by
      have hkeys : (w.state.admission.dated.map (·.1)).Nodup :=
        w.state.admission.map_fst_dated ▸ hnamed.waiting_nodup
      exact (Prod.mk.inj (Keyed.eq_of_mem hkeys hdue hclock rfl)).2
    have hturn : (w.served ++ [id]).Sublist w.names :=
      ((List.singleton_sublist.mpr hunserved).append_left _).trans hordered.order
    exact h.note (.refl _) rfl hq hcall hsince htime
      (.late rfl (Nat.le_antisymm htime (htimes ▸ hpast)) hgoes hturn)
  | queued => exact h.same (hmore _) rfl
  | released
  | gaveUp
  | told
  | ticked => exact h.same (.refl _) rfl

/-! ### All worlds -/

/-- What holds in all worlds that come to be. -/
structure Sound (max wait : Nat) (w : World) : Prop where
  named : Named w
  ordered : Ordered max w
  dated : Dated wait w
  told : Told wait w

theorem Sound.change (h : Sound max wait w) (hstep : Step w w') : Change w w' :=
  change_of_step h.ordered h.named hstep

theorem Sound.step (h : Sound max wait w) (hstep : Step w w') : Sound max wait w' where
  named := h.named.change (h.change hstep)
  ordered := h.ordered.change h.named (h.change hstep)
  dated := h.dated.change h.named (h.change hstep)
  told := h.told.change h.named h.ordered h.dated (h.change hstep)

theorem Sound.leads (h : Sound max wait w) (hleads : Leads w w') : Sound max wait w' := by
  induction hleads with
  | refl => exact h
  | tail _ hstep ih => exact ih.step hstep

theorem sound_create (max wait : Nat) :
    Sound max wait { state := { admission := .create max wait } } where
  named := ⟨List.nodup_nil, .nil, rfl⟩
  ordered := ⟨rfl, fun _ => rfl, .slnil, fun _ hid => (List.not_mem_nil hid).elim⟩
  dated := ⟨rfl, fun _ hp => (List.not_mem_nil hp).elim, fun _ hp => (List.not_mem_nil hp).elim⟩
  told _ hx := (List.not_mem_nil hx).elim

theorem sound_of_reachable (h : Reachable max wait w) : Sound max wait w :=
  (sound_create max wait).leads h

/-! ### Calls that have to go -/

/-- What no step undoes: the calls made, what came of them, and what became of the source. -/
structure Lasts (w w' : World) : Prop where
  asked : w.asked.Sublist w'.asked
  dropped : w.dropped ⊆ w'.dropped
  log : w.log ⊆ w'.log
  fired : w.state.source.fired = true → w'.state.source.fired = true
  gone : w.state.source.dropped = true → w'.state.source.dropped = true

theorem Change.lasts (h : Change w w') : Lasts w w' := by
  have hlog (x : Entry) : w.log ⊆ w.log ++ [x] := List.subset_append_left _ _
  cases h with
  | refused
  | admitted => exact ⟨List.sublist_append_left .., List.Subset.refl _, hlog _, id, id⟩
  | queued => exact ⟨List.sublist_append_left .., List.Subset.refl _, List.Subset.refl _, id, id⟩
  | gaveUp => exact ⟨.refl _, List.subset_append_left _ _, List.Subset.refl _, id, id⟩
  | stopped
  | seated
  | lapsed => exact ⟨.refl _, List.Subset.refl _, hlog _, id, id⟩
  | released
  | ticked => exact ⟨.refl _, List.Subset.refl _, List.Subset.refl _, id, id⟩
  | told hfired hgone => exact ⟨.refl _, List.Subset.refl _, List.Subset.refl _, hfired, hgone⟩

theorem Sound.lasts (h : Sound max wait w) (hleads : Leads w w') : Lasts w w' := by
  induction hleads with
  | refl => exact ⟨.refl _, List.Subset.refl _, List.Subset.refl _, id, id⟩
  | tail hleads hstep ih =>
    have hlasts := ((h.leads hleads).change hstep).lasts
    exact ⟨ih.asked.trans hlasts.asked, List.Subset.trans ih.dropped hlasts.dropped,
      List.Subset.trans ih.log hlasts.log, hlasts.fired ∘ ih.fired, hlasts.gone ∘ ih.gone⟩

/-- A call that returns does so now. -/
theorem Change.mem_log (h : Change w w') (hx : x ∈ w'.log) :
    x ∈ w.log ∨ x.time = w.state.now ∧ x.source = w.state.source := by
  cases h with
  | refused
  | admitted
  | stopped
  | seated
  | lapsed =>
    refine (List.mem_append.mp hx).imp_right fun hx => ?_
    obtain rfl := List.mem_singleton.mp hx
    exact ⟨rfl, rfl⟩
  | queued
  | released
  | gaveUp
  | told
  | ticked => exact .inl hx

/-- The clock moves only when nobody can go on. -/
theorem Change.now (h : Change w w') :
    w'.state.now = w.state.now ∨ system.Settled w.state := by
  cases h with
  | ticked hrest => exact .inr hrest
  | _ => exact .inl rfl

/-- A call in line that was told to stop, or whose time is over. -/
structure Urgent (wait : Nat) (w : World) (q : Reservation) : Prop where
  asked : q ∈ w.asked
  waiting : q.call ∈ w.waiting
  reason : q.signal.isCancelled w.state.source = true ∨ w.state.now = q.since + wait

/-- A call in line is there with its signal and its deadline. -/
theorem Sound.in_line (h : Sound max wait w) (hq : q ∈ w.asked) (hid : q.call ∈ w.waiting) :
    (q.call, q.signal) ∈ w.state.waits ∧
      (q.call, q.since + wait) ∈ w.state.admission.dated ∧ w.state.now ≤ q.since + wait := by
  have hwaits : q.call ∈ w.state.waits.map (·.1) := h.named.line ▸ hid
  obtain ⟨signal, hmem⟩ := mem_waits hwaits
  obtain ⟨q', hq', hcall, rfl, -, htime, hdated⟩ := h.dated.reservation h.named hmem
  obtain rfl : q' = q := Keyed.eq_of_mem h.named.nodup hq' hq hcall
  exact ⟨hmem, hdated, htime⟩

/-- When nobody can go on it has no slot and time left, and was not told to stop. -/
theorem Sound.at_rest (h : Sound max wait w) (hq : q ∈ w.asked) (hid : q.call ∈ w.waiting)
    (hrest : system.Settled w.state) : q.call ∈ w.state.admission.unserved ∧
      w.state.now < q.since + wait ∧ q.signal.isCancelled w.state.source = false := by
  obtain ⟨hmem, hdated, -⟩ := h.in_line hq hid
  obtain ⟨hunserved, hleft, signal, hmem', hgoes⟩ := settled_dated h.named hrest hdated
  have hkeys : (w.state.waits.map (·.1)).Nodup := h.named.line ▸ h.named.waiting_nodup
  have hsignal := (Prod.mk.inj (Keyed.eq_of_mem hkeys hmem hmem' rfl)).2
  exact ⟨hunserved, hleft, hsignal ▸ hgoes⟩

theorem isCancelled_mono {source source' : Shutdown} (hfired : source.fired → source'.fired)
    (hdropped : source.dropped → source'.dropped) (h : signal.isCancelled source = true) :
    signal.isCancelled source' = true := by
  cases signal with
  | subscribed => exact Bool.or_eq_true_iff.mpr ((Bool.or_eq_true_iff.mp h).imp hfired hdropped)
  | never => exact h

/-- While such a call is in line the clock stands still. -/
theorem Urgent.not_settled (h : Urgent wait w q) (hsound : Sound max wait w) :
    ¬ system.Settled w.state := by
  intro hrest
  obtain ⟨-, hleft, hgoes⟩ := hsound.at_rest h.asked h.waiting hrest
  rcases h.reason with hstop | hdue
  · rw [hgoes] at hstop
    cases hstop
  · exact Nat.ne_of_lt hleft hdue

/-- It is still there at the same time, or was given up, or has returned at that time. -/
theorem Urgent.step (h : Urgent wait w q) (hsound : Sound max wait w) (hstep : Step w w') :
    (Urgent wait w' q ∧ w'.state.now = w.state.now) ∨ q.call ∈ w'.dropped ∨
      ∃ x ∈ w'.log, x.call = q.call ∧ x.time = w.state.now ∧ x.source = w.state.source := by
  have hchange := hsound.change hstep
  have hnamed' := (hsound.step hstep).named
  have hlasts := hchange.lasts
  have hnow := hchange.now.resolve_right (h.not_settled hsound)
  have hq : q ∈ w'.asked := hlasts.asked.subset h.asked
  have hplace : q.call ∈ w'.waiting ++ w'.dropped ++ w'.log.map (·.call) :=
    hnamed'.places.symm.subset (List.mem_map_of_mem hq)
  rcases List.mem_append.mp hplace with hplace | hlog
  · rcases List.mem_append.mp hplace with hwaiting | hgone
    · refine .inl ⟨⟨hq, hwaiting, ?_⟩, hnow⟩
      exact h.reason.imp (isCancelled_mono hlasts.fired hlasts.gone) hnow.trans
    · exact .inr (.inl hgone)
  · obtain ⟨x, hx, hcall⟩ := List.mem_map.mp hlog
    refine .inr (.inr ⟨x, hx, hcall, ?_⟩)
    refine (hchange.mem_log hx).resolve_left fun hold => ?_
    -- It was in line, so it had not returned.
    have hnodup := hsound.named.places.nodup_iff.mpr hsound.named.nodup
    exact List.disjoint_of_nodup_append hnodup (List.mem_append_left _ h.waiting)
      (hcall ▸ List.mem_map_of_mem hold)

/-- However long it goes on. -/
theorem Urgent.leads (h : Urgent wait w q) (hsound : Sound max wait w) (hleads : Leads w w') :
    (Urgent wait w' q ∧ w'.state.now = w.state.now) ∨ q.call ∈ w'.dropped ∨
      ∃ x ∈ w'.log, x.call = q.call ∧ x.time = w.state.now ∧
        (w.state.source.fired = true → x.source.fired = true) := by
  induction hleads with
  | refl => exact .inl ⟨h, rfl⟩
  | tail hleads hstep ih =>
    have hsound' := hsound.leads hleads
    have hlasts := (hsound'.change hstep).lasts
    rcases ih with ⟨hurgent, hnow⟩ | hgone | ⟨x, hx, hentry⟩
    · rcases hurgent.step hsound' hstep with
        ⟨hurgent', hnow'⟩ | hgone | ⟨x, hx, hcall, htime, hsource⟩
      · exact .inl ⟨hurgent', hnow'.trans hnow⟩
      · exact .inr (.inl hgone)
      · exact .inr (.inr ⟨x, hx, hcall, htime.trans hnow,
          hsource ▸ (hsound.lasts hleads).fired⟩)
    · exact .inr (.inl (hlasts.dropped hgone))
    · exact .inr (.inr ⟨x, hlasts.log hx, hentry⟩)

end Parley.Sim.Admitting.World
