import Parley.Proofs.Admission.Waiting
import Parley.Proofs.Sleep

/-! The law of an admission control.

Slots are neither lost nor made, none is free while somebody waits for one, and they are handed out
in the order in which they were asked for. Nobody who was told to stop gets a permit, and nobody is
sent away before the deadline or after: that is `Lawful`, and it holds in every world that a new
admission control comes to be.

The tasks come to rest after no more steps than there are calls in line (`goes_settle`), so time
can always go by, as far as one likes (`goes_advance`). -/
namespace Parley.Sim.Admitting.World

variable {max wait : Nat} {w w' : World} {id : CallId} {s s' : State}

/-! ### Whose slot it is next -/

/-- Whoever has a slot no longer gave it to the first of those in line without one. -/
theorem Change.passed (h : Change w w') (hnamed : Named w) (hid : id ∈ w.state.slotted)
    (hgone : id ∉ w'.state.slotted) :
    w'.served = w.served ++ w.state.admission.unserved.head?.toList ∧
      w'.state.admission.unserved = w.state.admission.unserved.tail := by
  have hline : w.state.admission.waiting.Nodup := hnamed.waiting_nodup
  have hleave {n : CallId} (hgone : id ∉ (w.state.admission.leave n).promised ++ w.state.held) :
      w.served ++ w.state.admission.passes n = w.served ++ w.state.admission.unserved.head?.toList ∧
        (w.state.admission.leave n).unserved = w.state.admission.unserved.tail := by
    by_cases hn : n ∈ w.state.admission.promised
    · rw [Admission.passes, if_pos hn]
      exact ⟨rfl, Admission.unserved_leave_of_mem hline hn⟩
    · rw [Admission.leave_of_not_mem hn, Admission.promised_without_of_not_mem hn] at hgone
      exact absurd hid hgone
  cases h with
  | refused
  | told
  | ticked => exact absurd hid hgone
  | admitted =>
    refine absurd ?_ hgone
    exact (List.mem_append.mp hid).elim (List.mem_append_left _) fun hheld =>
      List.mem_append_right _ (List.mem_cons_of_mem _ hheld)
  | @queued n _ _ _ _ =>
    refine absurd ?_ hgone
    show id ∈ (w.state.admission.queue n w.state.now).promised ++ w.state.held
    rw [Admission.promised_queue]
    exact hid
  | released => exact ⟨rfl, Admission.unserved_release _⟩
  | gaveUp
  | stopped => exact hleave hgone
  | @seated n _ _ _ _ =>
    refine absurd ?_ hgone
    show id ∈ (w.state.admission.without n).promised ++ n :: w.state.held
    rcases List.mem_append.mp hid with hpromised | hheld
    · rcases eq_or_ne id n with rfl | hne
      · exact List.mem_append_right _ List.mem_cons_self
      · rw [Admission.promised_without]
        exact List.mem_append_left _ (List.mem_filter.mpr ⟨hpromised, by simpa using hne⟩)
    · exact List.mem_append_right _ (List.mem_cons_of_mem _ hheld)
  | @lapsed n _ _ _ _ hunserved _ _ =>
    refine absurd ?_ hgone
    show id ∈ (w.state.admission.without n).promised ++ w.state.held
    rw [Admission.promised_without_of_not_mem (Admission.not_promised hline hunserved)]
    exact hid

/-! ### Coming to rest -/

/-- Whoever goes on was in line and leaves it. -/
theorem stepWait_eq_some (h : s.stepWait id = some s') :
    id ∈ s.waits.map (·.1) ∧ s'.now = s.now ∧ s'.waits.length < s.waits.length := by
  unfold State.stepWait at h
  split at h
  · cases h
  · rename_i signal hlookup
    obtain ⟨⟨r, a⟩, -, rfl⟩ := Option.map_eq_some_iff.mp h
    have hmem := Keyed.mem_of_lookup hlookup
    refine ⟨List.mem_map_of_mem hmem, rfl, ?_⟩
    exact List.length_filter_lt_length_iff_exists.mpr ⟨_, hmem, by simp⟩

theorem settled_of_pick (h : system.pick s = none) : system.Settled s :=
  System.settled_of_pick (fun hstep => (stepWait_eq_some hstep).1) h

theorem settled_settle {n : Nat} (h : s.waits.length ≤ n) :
    system.Settled (system.settle n s) := by
  have hlength (s : State) : (system.tasks s).length = s.waits.length := List.length_map _
  refine System.settled_settle (fun hstep => (stepWait_eq_some hstep).1) (fun hstep => ?_)
    (hlength s ▸ h)
  rw [hlength, hlength]
  exact (stepWait_eq_some hstep).2.2

/-- What is reached at the same time by nothing but steps of those in line. -/
structure Goes (w w' : World) : Prop where
  leads : Leads w w'
  asked : w'.asked = w.asked
  dropped : w'.dropped = w.dropped
  fewer : w'.state.waits.length ≤ w.state.waits.length

/-- Letting the tasks run is one way to go on. -/
theorem goes_settle (n : Nat) (w : World) :
    ∃ w', Goes w w' ∧ w'.state = system.settle n w.state ∧ w'.state.now = w.state.now := by
  induction n generalizing w with
  | zero => exact ⟨w, ⟨.refl, rfl, rfl, Nat.le_refl _⟩, rfl, rfl⟩
  | succ n ih =>
    cases hpick : system.pick w.state with
    | none =>
      exact ⟨w, ⟨.refl, rfl, rfl, Nat.le_refl _⟩, (system.settle_of_pick_none hpick _).symm, rfl⟩
    | some s =>
      obtain ⟨id, hstep⟩ := system.exists_step_of_pick hpick
      obtain ⟨-, hnow, hfewer⟩ := stepWait_eq_some hstep
      obtain ⟨w', hgoes, hstate, hnow'⟩ := ih (w.after s)
      refine ⟨w', ⟨hgoes.leads.head (.wake hstep), hgoes.asked, hgoes.dropped, ?_⟩, ?_,
        hnow'.trans hnow⟩
      · exact Nat.le_trans hgoes.fewer (Nat.le_of_lt hfewer)
      · rw [hstate, System.settle, hpick]
        rfl

theorem Goes.trans {w'' : World} (h : Goes w w') (h' : Goes w' w'') : Goes w w'' where
  leads := h.leads.trans h'.leads
  asked := h'.asked.trans h.asked
  dropped := h'.dropped.trans h.dropped
  fewer := Nat.le_trans h'.fewer h.fewer

/-- The clock may be set to any time up to the next deadline. -/
theorem goes_tick {now : Nat} (hrest : system.Settled w.state) (hlater : w.state.now ≤ now)
    (hdue : ∀ due ∈ system.dues w.state, w.state.now < due → now ≤ due) :
    ∃ w', Goes w w' ∧ w'.state = system.setNow now w.state := by
  rcases Nat.eq_or_lt_of_le hlater with rfl | hlater
  · exact ⟨w, ⟨.refl, rfl, rfl, Nat.le_refl _⟩, rfl⟩
  · exact ⟨_, ⟨.single (.tick hrest hlater hdue), rfl, rfl, Nat.le_refl _⟩, rfl⟩

/-- Moving the clock from one deadline to the next is one way to go on. -/
theorem goes_advance {n target : Nat} (hroom : w.state.waits.length ≤ n)
    (hrest : system.Settled w.state) (hlater : w.state.now ≤ target) :
    ∃ w', Goes w w' ∧ w'.state = system.advance n w.state.now target w.state ∧
      system.Settled w'.state ∧ w'.state.now = target := by
  generalize hleft : target - w.state.now = left
  induction left using Nat.strongRecOn generalizing w with
  | ind left ih =>
    -- The clock is set, and all who can go on do so.
    have hmove {t : Nat} (hfrom : w.state.now ≤ t)
        (hdue : ∀ due ∈ system.dues w.state, w.state.now < due → t ≤ due) :
        ∃ w', Goes w w' ∧ w'.state = system.settle n (system.setNow t w.state) ∧
          system.Settled w'.state ∧ w'.state.now = t ∧ w'.state.waits.length ≤ n := by
      obtain ⟨u, hgoes, hstate⟩ := goes_tick hrest hfrom hdue
      obtain ⟨v, hgoes', hstate', hnow⟩ := goes_settle n u
      have hfewer := Nat.le_trans (hgoes.trans hgoes').fewer hroom
      rw [hstate] at hstate' hnow
      refine ⟨v, hgoes.trans hgoes', hstate', ?_, hnow, hfewer⟩
      rw [hstate']
      exact settled_settle hroom
    rw [Timed.advance]
    split
    · rename_i hnone
      obtain ⟨w', hgoes, hstate, hrest', hnow, -⟩ := hmove hlater fun due hdue hlt => by
        have hnot := List.filter_eq_nil_iff.mp (List.min?_eq_none_iff.mp hnone) due hdue
        simp only [Bool.and_eq_true, decide_eq_true_eq, not_and] at hnot
        exact Nat.le_of_lt (Nat.lt_of_not_le (hnot hlt))
      exact ⟨w', hgoes, hstate, hrest', hnow⟩
    · rename_i t hnext
      obtain ⟨hlt, hle⟩ := system.nextDue_bounds hnext
      obtain ⟨w', hgoes, hstate, hrest', hnow, hfewer⟩ := hmove (Nat.le_of_lt hlt)
        fun due hdue hfrom => by
          rcases Nat.lt_or_ge target due with hpast | hpast
          · exact Nat.le_trans hle (Nat.le_of_lt hpast)
          · refine (List.min?_eq_some_iff.mp hnext).2 due (List.mem_filter.mpr ⟨hdue, ?_⟩)
            simp [hfrom, hpast]
      obtain ⟨w'', hgoes', hstate', hrest'', hnow'⟩ :=
        ih (target - w'.state.now) (by omega) hfewer hrest' (by omega) rfl
      refine ⟨w'', hgoes.trans hgoes', ?_, hrest'', hnow'⟩
      rw [hstate', hnow, hstate]

theorem goes_to (hroom : w.state.waits.length ≤ patience) (ms : Nat) :
    ∃ w', Goes w w' ∧ w'.state = w.state.advance ms ∧ system.Settled w'.state ∧
      w'.state.now = w.state.now + ms := by
  obtain ⟨u, hgoes, hstate, hnow⟩ := goes_settle patience w
  have hrest : system.Settled u.state := hstate ▸ settled_settle hroom
  have hlater : u.state.now ≤ w.state.now + ms := by omega
  obtain ⟨v, hgoes', hstate', hrest', hnow'⟩ :=
    goes_advance (Nat.le_trans hgoes.fewer hroom) hrest hlater
  refine ⟨v, hgoes.trans hgoes', ?_, hrest', hnow'⟩
  rw [hstate', hnow, hstate]
  rfl

/-! ### The law -/

/-- What a world with `max` slots keeps to, in which one waits for `wait`. -/
structure Lawful (max wait : Nat) (w : World) : Prop where
  /-- No slot is lost: each is free, on the way to somebody in line, or held. -/
  conserved : w.state.admission.free + w.state.admission.granted + w.state.held.length = max
  /-- When nobody can go on none is on the way, and with a free slot nobody waits. -/
  settled : system.Settled w.state → w.state.admission.free + w.state.held.length = max ∧
    (0 < w.state.admission.free → w.waiting = [])
  /-- At no time is a slot free while somebody waits for one. -/
  idle : 0 < w.state.admission.free → w.state.admission.unserved = []
  /-- Who finds a slot free has it at once. -/
  atOnce : ∀ id signal, id ∉ w.names → signal.isTriggered w.state.source = false →
    0 < w.state.admission.free →
    let w' := (w.after (w.state.reserve id signal)).asks id signal
    Step w w' ∧ id ∈ w'.state.held ∧
      ∃ x ∈ w'.log, x.call = id ∧ x.result = .ok () ∧ x.time = w.state.now
  /-- Slots are handed out in the order of the calls: whoever was handed one asked before all who
  are without. -/
  order : w.names.Nodup ∧ (w.served ++ w.state.admission.unserved).Sublist w.names
  /-- Whoever has a slot was handed it. -/
  slotted : ∀ id ∈ w.state.slotted, id ∈ w.served
  /-- Whoever no longer has a slot gave it to the first of those without, if there is one. -/
  passed : ∀ w', Step w w' → ∀ id ∈ w.state.slotted, id ∉ w'.state.slotted →
    w'.served = w.served ++ w.state.admission.unserved.head?.toList ∧
      w'.state.admission.unserved = w.state.admission.unserved.tail
  /-- Every call is in line, was given up, or has returned once. -/
  places : (w.waiting ++ w.dropped ++ w.log.map (·.call)).Perm w.names
  /-- No call with a triggered signal got a permit, and all returned by their deadlines. -/
  told : Told wait w
  /-- A call timed out exactly if its deadline came before a slot or its signal did. -/
  late : ∀ x ∈ w.log, ∀ q ∈ w.asked, q.call = x.call →
    (x.result = .error (.timeout .admission) ↔ x.time = q.since + wait ∧
      x.call ∉ x.served ∧ q.signal.isCancelled x.source = false)
  /-- No deadline in line is over. When nobody can go on none has come, and no signal either. -/
  inLine : ∀ q ∈ w.asked, q.call ∈ w.waiting → w.state.now ≤ q.since + wait ∧
    (system.Settled w.state → q.call ∈ w.state.admission.unserved ∧
      w.state.now < q.since + wait ∧ q.signal.isCancelled w.state.source = false)
  /-- A call in line whose signal is triggered fails before the clock moves. -/
  triggered : ∀ q ∈ w.asked, q.call ∈ w.waiting → q.signal.isTriggered w.state.source = true →
    ∀ w', Leads w w' →
      (q.call ∈ w'.waiting ∧ w'.state.now = w.state.now) ∨ q.call ∈ w'.dropped ∨
        ∃ x ∈ w'.log, x.call = q.call ∧ x.time = w.state.now ∧ x.result = .error .shutdown
  /-- A call in line returns before the clock passes its deadline. -/
  due : ∀ q ∈ w.asked, q.call ∈ w.waiting → w.state.now = q.since + wait → ∀ w', Leads w w' →
      (q.call ∈ w'.waiting ∧ w'.state.now = w.state.now) ∨ q.call ∈ w'.dropped ∨
        ∃ x ∈ w'.log, x.call = q.call ∧ x.time = w.state.now
  /-- Time can go by, as far as one likes, and those in line do what they have to. -/
  advances : ∀ ms, w.state.waits.length ≤ patience → ∃ w', Goes w w' ∧
    w'.state = w.state.advance ms ∧ system.Settled w'.state ∧ w'.state.now = w.state.now + ms

theorem Sound.settled (h : Sound max wait w) (hrest : system.Settled w.state) :
    w.state.admission.free + w.state.held.length = max ∧
      (0 < w.state.admission.free → w.waiting = []) := by
  have hunserved {id : CallId} (hid : id ∈ w.waiting) : id ∈ w.state.admission.unserved := by
    obtain ⟨v, hv, rfl⟩ := List.mem_map.mp hid
    exact (settled_dated h.named hrest (List.mem_map_of_mem hv)).1
  have hpromised : w.state.admission.promised = [] := by
    refine List.eq_nil_iff_forall_not_mem.mpr fun id hid => ?_
    refine Admission.not_unserved h.named.waiting_nodup hid (hunserved ?_)
    exact (Admission.perm_waiting _).subset (List.mem_append_left _ hid)
  have hgranted : w.state.admission.granted = 0 := by
    rw [← Admission.length_promised, hpromised]
    rfl
  refine ⟨?_, fun hfree => List.eq_nil_iff_forall_not_mem.mpr fun id hid => ?_⟩
  · have hcount := h.ordered.count
    rw [Admission.spare, hgranted] at hcount
    exact hcount
  · have hmem := hunserved hid
    rw [h.ordered.idle hfree] at hmem
    cases hmem

/-- The reason why a call returned is known from how it returned, and the other way round. -/
theorem Sound.late (h : Sound max wait w) {x : Entry} {q : Reservation} (hx : x ∈ w.log)
    (hq : q ∈ w.asked) (hcall : q.call = x.call) :
    x.result = .error (.timeout .admission) ↔ x.time = q.since + wait ∧ x.call ∉ x.served ∧
      q.signal.isCancelled x.source = false := by
  obtain ⟨q', hq', hcall', -, -, hverdict⟩ := h.told x hx
  obtain rfl : q' = q := Keyed.eq_of_mem h.named.nodup hq' hq (hcall'.trans hcall.symm)
  cases hverdict with
  | permit hresult _ hserved => simp [hresult, hserved]
  | stopped hresult hstop => simp [hresult, hstop]
  | late hresult hdue hgoes hturn =>
    have hnot : x.call ∉ x.served := fun hserved =>
      List.disjoint_of_nodup_append (h.named.nodup.sublist hturn) hserved List.mem_cons_self
    simp [hresult, hdue, hgoes, hnot]

/-- A call in line whose signal is triggered fails before the clock moves. -/
theorem Sound.triggered (h : Sound max wait w) {q : Reservation} (hq : q ∈ w.asked)
    (hid : q.call ∈ w.waiting) (hstop : q.signal.isTriggered w.state.source = true)
    (hleads : Leads w w') :
    (q.call ∈ w'.waiting ∧ w'.state.now = w.state.now) ∨ q.call ∈ w'.dropped ∨
      ∃ x ∈ w'.log, x.call = q.call ∧ x.time = w.state.now ∧ x.result = .error .shutdown := by
  have hurgent : Urgent wait w q := ⟨hq, hid, .inl (isCancelled_of_isTriggered hstop)⟩
  rcases hurgent.leads h hleads with ⟨hurgent', hnow⟩ | hgone | ⟨x, hx, hcall, htime, hfired⟩
  · exact .inl ⟨hurgent'.waiting, hnow⟩
  · exact .inr (.inl hgone)
  · refine .inr (.inr ⟨x, hx, hcall, htime, ?_⟩)
    have h' := h.leads hleads
    obtain ⟨q', hq', hcall', -, -, hverdict⟩ := h'.told x hx
    obtain rfl : q' = q := Keyed.eq_of_mem h'.named.nodup hq'
      ((h.lasts hleads).asked.subset hq) (hcall'.trans hcall)
    have htriggered : q'.signal.isTriggered x.source = true := by
      cases hsignal : q'.signal with
      | subscribed => exact hfired (by rwa [hsignal] at hstop)
      | never => rw [hsignal] at hstop; cases hstop
    cases hverdict with
    | permit _ hgoes _ => rw [htriggered] at hgoes; cases hgoes
    | stopped hresult _ => exact hresult
    | late _ _ hgoes _ =>
      rw [isCancelled_of_isTriggered htriggered] at hgoes
      cases hgoes

/-- Every world that a new admission control comes to be keeps to the law. -/
theorem admission_law (h : Reachable max wait w) : Lawful max wait w := by
  have hsound := sound_of_reachable h
  refine {
    conserved := hsound.ordered.count
    settled := hsound.settled
    idle := hsound.ordered.idle
    atOnce := ?_
    order := ⟨hsound.named.nodup, hsound.ordered.order⟩
    slotted := hsound.ordered.served
    passed := fun w' hstep id hid hgone => (hsound.change hstep).passed hsound.named hid hgone
    places := hsound.named.places
    told := hsound.told
    late := fun x hx q hq hcall => hsound.late hx hq hcall
    inLine := fun q hq hid => ⟨(hsound.in_line hq hid).2.2, hsound.at_rest hq hid⟩
    triggered := fun q hq hid hstop w' hleads => hsound.triggered hq hid hstop hleads
    due := ?_
    advances := fun ms hroom => goes_to hroom ms }
  · intro id signal hnew hgoes hfree w'
    have hw' : w' = _ := congrArg (·.asks id signal)
      (after_reserve_of_free hsound.ordered hnew hgoes hfree)
    refine ⟨.reserve hnew, ?_, ?_⟩
    · rw [hw']
      exact List.mem_cons_self
    · rw [hw']
      exact ⟨_, List.mem_append_right _ List.mem_cons_self, rfl, rfl, rfl⟩
  · intro q hq hid hnow w' hleads
    rcases Urgent.leads ⟨hq, hid, .inr hnow⟩ hsound hleads with
      ⟨hurgent, hnow'⟩ | hgone | ⟨x, hx, hcall, htime, -⟩
    · exact .inl ⟨hurgent.waiting, hnow'⟩
    · exact .inr (.inl hgone)
    · exact .inr (.inr ⟨x, hx, hcall, htime⟩)

/-- With one slot and a wait of 10 one call has it and three wait: the first of them is told to
stop at 4, the second gets the slot that is given back then, and the third times out at 10. -/
theorem admission_law_one_slot : ∃ w : World, Reachable 1 10 w ∧ Lawful 1 10 w ∧
    w.served = [0, 2] ∧ w.log.map (fun x => (x.call, x.time, x.result)) =
      [(0, 0, .ok ()), (1, 4, .error .shutdown), (2, 4, .ok ()),
        (3, 10, .error (.timeout .admission))] := by
  have hfirst : Reachable 1 10 _ :=
    .single (@Step.reserve _ 0 .never List.not_mem_nil)
  have hsecond := hfirst.tail (@Step.reserve _ 1 .subscribed (by decide))
  have hthird := hsecond.tail (@Step.reserve _ 2 .never (by decide))
  have hfourth := hthird.tail (@Step.reserve _ 3 .never (by decide))
  have hlater := hfourth.tail (@Step.tick _ 4 (settled_of_pick rfl) (by decide) (by decide))
  have hfired := hlater.tail .trigger
  have hstopped := hfired.tail (@Step.wake _ 1 _ rfl)
  have hreleased := hstopped.tail (@Step.release _ 0 (by decide))
  have hseated := hreleased.tail (@Step.wake _ 2 _ rfl)
  have hdue := hseated.tail (@Step.tick _ 10 (settled_of_pick rfl) (by decide) (by decide))
  have hlapsed := hdue.tail (@Step.wake _ 3 _ rfl)
  exact ⟨_, hlapsed, admission_law hlapsed, rfl, rfl⟩

end Parley.Sim.Admitting.World
