import Parley.Proofs.Admission

/-! Who in line has a slot and who has none.

A slot that is given back is handed to the first in line who has none (`exists_of_grant`), and
nobody else's place changes. So each operation is given by what it does to those who were promised
a slot and to those who are still without one: giving back takes the first of those without one
over to the others (`unserved_release`, `promised_release`), and leaving the line takes one name
out, and then gives back the slot that came with it. -/
namespace Parley.Admission

/-- Those in line who were handed a slot. -/
def promised (a : Admission) : List CallId := (a.line.filter (·.granted)).map (·.id)

/-- Those in line who have none yet, the first first. -/
def unserved (a : Admission) : List CallId := (a.line.filter (!·.granted)).map (·.id)

variable {a a' : Admission} {id : CallId} {now : Nat} {line line' : List Waiter}

theorem length_promised (a : Admission) : a.promised.length = a.granted := by
  rw [promised, List.length_map, granted, List.countP_eq_length_filter]

/-- Everybody in line is one or the other. -/
theorem perm_waiting (a : Admission) : (a.promised ++ a.unserved).Perm a.waiting := by
  rw [promised, unserved, ← List.map_append]
  exact (List.filter_append_perm _ a.line).map _

theorem not_unserved (hline : a.waiting.Nodup) (h : id ∈ a.promised) : id ∉ a.unserved :=
  List.disjoint_of_nodup_append (a.perm_waiting.nodup_iff.mpr hline) h

theorem not_promised (hline : a.waiting.Nodup) (h : id ∈ a.unserved) : id ∉ a.promised :=
  fun hpromised => not_unserved hline hpromised h

/-! ### Giving back -/

theorem granted_of_grant (h : grant line = none) : ∀ w ∈ line, w.granted = true := by
  induction line with
  | nil => exact fun w hw => nomatch hw
  | cons v rest ih =>
    cases hv : v.granted with
    | false => simp [grant, hv] at h
    | true =>
      simp only [grant, hv, if_true, Option.map_eq_none_iff] at h
      exact List.forall_mem_cons.mpr ⟨hv, ih h⟩

/-- The slot goes to the first who has none. -/
theorem exists_of_grant (h : grant line = some line') :
    ∃ before w after, (∀ v ∈ before, v.granted = true) ∧ w.granted = false ∧
      line = before ++ w :: after ∧ line' = before ++ { w with granted := true } :: after := by
  induction line generalizing line' with
  | nil => cases h
  | cons v rest ih =>
    cases hv : v.granted with
    | false =>
      simp only [grant, hv, Bool.false_eq_true, if_false, Option.some.injEq] at h
      exact ⟨[], v, rest, fun _ hw => (List.not_mem_nil hw).elim, hv, rfl, h.symm⟩
    | true =>
      simp only [grant, hv, if_true, Option.map_eq_some_iff] at h
      obtain ⟨rest', hrest, rfl⟩ := h
      obtain ⟨before, w, after, hbefore, hw, rfl, rfl⟩ := ih hrest
      exact ⟨v :: before, w, after, List.forall_mem_cons.mpr ⟨hv, hbefore⟩, hw, rfl, rfl⟩

/-- With nobody left who has no slot it becomes free. -/
theorem release_of_none (h : grant a.line = none) :
    a.release = { a with free := a.free + 1 } ∧ a.unserved = [] := by
  refine ⟨by rw [release, h], ?_⟩
  rw [unserved, List.map_eq_nil_iff, List.filter_eq_nil_iff]
  intro w hw
  simp [granted_of_grant h w hw]

/-- Otherwise the line is the same but for one who has it. -/
theorem release_of_some (h : grant a.line = some line) :
    ∃ before w after, (∀ v ∈ before, v.granted = true) ∧ w.granted = false ∧
      a.line = before ++ w :: after ∧
      a.release = { a with line := before ++ { w with granted := true } :: after } := by
  obtain ⟨before, w, after, hbefore, hw, hline, rfl⟩ := exists_of_grant h
  exact ⟨before, w, after, hbefore, hw, hline, by rw [release, h]⟩

theorem filter_ungranted {before : List Waiter} (h : ∀ v ∈ before, v.granted = true) :
    before.filter (!·.granted) = [] :=
  List.filter_eq_nil_iff.mpr fun v hv => by simp [h v hv]

theorem unserved_release (a : Admission) : a.release.unserved = a.unserved.tail := by
  cases h : grant a.line with
  | none =>
    obtain ⟨hrelease, hnone⟩ := release_of_none h
    rw [hrelease, hnone]
    exact hnone
  | some line =>
    obtain ⟨before, w, after, hbefore, hw, hline, hrelease⟩ := release_of_some h
    simp [hrelease, unserved, hline, filter_ungranted hbefore, hw]

theorem promised_release (a : Admission) :
    a.release.promised.Perm (a.promised ++ a.unserved.head?.toList) := by
  cases h : grant a.line with
  | none =>
    obtain ⟨hrelease, hnone⟩ := release_of_none h
    rw [hrelease, hnone]
    exact .of_eq (List.append_nil _).symm
  | some line =>
    obtain ⟨before, w, after, hbefore, hw, hline, hrelease⟩ := release_of_some h
    simp only [hrelease, promised, unserved, hline, filter_ungranted hbefore, hw,
      List.filter_append, List.filter_cons, List.map_append, List.map_cons, List.nil_append,
      Bool.not_false, if_true, if_false, Bool.false_eq_true, List.head?_cons, Option.toList_some,
      List.append_assoc]
    exact (@List.perm_append_comm _ [w.id] _).append_left _

/-- Free slots become more only when everybody in line has one. -/
theorem free_release (a : Admission) :
    a.release.free = if a.unserved = [] then a.free + 1 else a.free := by
  cases h : grant a.line with
  | none =>
    obtain ⟨hrelease, hnone⟩ := release_of_none h
    rw [hrelease, if_pos hnone]
  | some line =>
    obtain ⟨before, w, after, -, hw, hline, hrelease⟩ := release_of_some h
    have hsome : a.unserved ≠ [] := fun hnil => by
      rw [unserved, List.map_eq_nil_iff, List.filter_eq_nil_iff] at hnil
      refine hnil w ?_ (by simp [hw])
      rw [hline]
      exact List.mem_append_right _ List.mem_cons_self
    rw [if_neg hsome, hrelease]

/-- Nobody's place or deadline changes. -/
theorem map_release {β : Type} (f : Waiter → β) (hf : ∀ w g, f { w with granted := g } = f w)
    (a : Admission) : a.release.line.map f = a.line.map f := by
  cases h : grant a.line with
  | none => rw [(release_of_none h).1]
  | some line =>
    obtain ⟨before, w, after, -, -, hline, hrelease⟩ := release_of_some h
    simp [hrelease, hline, hf]

theorem wait_release (a : Admission) : a.release.wait = a.wait := by
  unfold release
  split <;> rfl

/-! ### Leaving the line -/

theorem map_filter_id (line : List Waiter) (p : Waiter → Bool) (id : CallId) :
    ((line.filter (·.id != id)).filter p).map (·.id) =
      ((line.filter p).map (·.id)).filter (· != id) := by
  rw [List.filter_filter, List.filter_map, List.filter_filter]
  congr 1
  refine List.filter_congr fun w _ => ?_
  exact Bool.and_comm _ _

theorem promised_without (a : Admission) (id : CallId) :
    (a.without id).promised = a.promised.filter (· != id) :=
  map_filter_id a.line (·.granted) id

theorem unserved_without (a : Admission) (id : CallId) :
    (a.without id).unserved = a.unserved.filter (· != id) :=
  map_filter_id a.line (!·.granted) id

theorem filter_of_not_mem {ids : List CallId} (h : id ∉ ids) : ids.filter (· != id) = ids := by
  refine List.filter_eq_self.mpr fun other hother => ?_
  have hne : other ≠ id := fun heq => h (heq ▸ hother)
  simpa using hne

theorem promised_without_of_not_mem (h : id ∉ a.promised) :
    (a.without id).promised = a.promised := by
  rw [promised_without, filter_of_not_mem h]

theorem any_eq_mem (a : Admission) (id : CallId) :
    (a.line.any fun w => w.id == id && w.granted) = decide (id ∈ a.promised) := by
  rw [Bool.eq_iff_iff, List.any_eq_true, decide_eq_true_iff, promised, List.mem_map]
  simp only [Bool.and_eq_true, beq_iff_eq, List.mem_filter]
  constructor
  · rintro ⟨w, hw, hid, hgranted⟩
    exact ⟨w, ⟨hw, hgranted⟩, hid⟩
  · rintro ⟨w, ⟨hw, hgranted⟩, hid⟩
    exact ⟨w, hw, hid, hgranted⟩

/-- Who leaves without a slot just leaves. -/
theorem leave_of_not_mem (h : id ∉ a.promised) : a.leave id = a.without id := by
  rw [leave, any_eq_mem, decide_eq_false h]
  rfl

/-- Who leaves with one gives it back. -/
theorem leave_of_mem (h : id ∈ a.promised) : a.leave id = (a.without id).release := by
  rw [leave, any_eq_mem, decide_eq_true h]
  rfl

/-- Who goes with a slot takes it along. -/
theorem spare_without_of_mem (hline : a.waiting.Nodup) (h : id ∈ a.promised) :
    (a.without id).spare + 1 = a.spare := by
  rw [← spare_release, ← leave_of_mem h, spare_leave hline]

theorem spare_without_of_not_mem (hline : a.waiting.Nodup) (h : id ∉ a.promised) :
    (a.without id).spare = a.spare := by
  rw [← leave_of_not_mem h, spare_leave hline]

/-- To whom the slot goes that somebody leaves behind. -/
def passes (a : Admission) (id : CallId) : List CallId :=
  if id ∈ a.promised then a.unserved.head?.toList else []

theorem length_passes (a : Admission) (id : CallId) : (a.passes id).length ≤ 1 := by
  unfold passes
  split
  · cases a.unserved <;> simp
  · simp

theorem mem_unserved_of_passes {next : CallId} (h : next ∈ a.passes id) : next ∈ a.unserved := by
  unfold passes at h
  split at h
  · exact List.mem_of_mem_head? (Option.mem_toList.mp h)
  · cases h

theorem head_append_tail (ids : List CallId) : ids.head?.toList ++ ids.tail = ids := by
  cases ids <;> rfl

/-- Who has a slot is not one of those without. -/
theorem filter_unserved (hline : a.waiting.Nodup) (h : id ∈ a.promised) :
    a.unserved.filter (· != id) = a.unserved :=
  filter_of_not_mem (not_unserved hline h)

theorem unserved_leave_of_mem (hline : a.waiting.Nodup) (h : id ∈ a.promised) :
    (a.leave id).unserved = a.unserved.tail := by
  rw [leave_of_mem h, unserved_release, unserved_without, filter_unserved hline h]

/-- Those without a slot stay in their order: who leaves is gone, and the slot left behind goes to
the first of the others. -/
theorem passes_append (hline : a.waiting.Nodup) (id : CallId) :
    a.passes id ++ (a.leave id).unserved = a.unserved.filter (· != id) := by
  by_cases h : id ∈ a.promised
  · rw [passes, if_pos h, unserved_leave_of_mem hline h, filter_unserved hline h,
      head_append_tail]
  · rw [passes, if_neg h, leave_of_not_mem h, unserved_without, List.nil_append]

theorem promised_leave (hline : a.waiting.Nodup) (id : CallId) :
    (a.leave id).promised.Perm (a.promised.filter (· != id) ++ a.passes id) := by
  by_cases h : id ∈ a.promised
  · have hperm := (a.without id).promised_release
    rw [promised_without, unserved_without, filter_unserved hline h, ← leave_of_mem h] at hperm
    rwa [passes, if_pos h]
  · rw [passes, if_neg h, leave_of_not_mem h, promised_without, List.append_nil]

/-! ### Nothing lies idle

While somebody in line has no slot none is free. -/

theorem idle_release (h : 0 < a.free → a.unserved = []) (hfree : 0 < a.release.free) :
    a.release.unserved = [] := by
  rw [unserved_release]
  by_cases hnone : a.unserved = []
  · rw [hnone]
    rfl
  · rw [free_release, if_neg hnone] at hfree
    exact absurd (h hfree) hnone

theorem idle_without (h : 0 < a.free → a.unserved = []) (hfree : 0 < (a.without id).free) :
    (a.without id).unserved = [] := by
  rw [unserved_without, h hfree]
  rfl

theorem idle_leave (h : 0 < a.free → a.unserved = []) (hfree : 0 < (a.leave id).free) :
    (a.leave id).unserved = [] := by
  by_cases hmem : id ∈ a.promised
  · rw [leave_of_mem hmem] at hfree ⊢
    exact idle_release (idle_without h) hfree
  · rw [leave_of_not_mem hmem] at hfree ⊢
    exact idle_without h hfree

/-! ### What stays -/

theorem wait_leave (a : Admission) (id : CallId) : (a.leave id).wait = a.wait := by
  by_cases h : id ∈ a.promised
  · rw [leave_of_mem h, wait_release]
    rfl
  · rw [leave_of_not_mem h]
    rfl

/-- The names and deadlines of those in line. -/
def dated (a : Admission) : List (CallId × Nat) := a.line.map fun w => (w.id, w.due)

theorem map_fst_dated (a : Admission) : a.dated.map (·.1) = a.waiting := by
  rw [dated, List.map_map]
  rfl

theorem dated_release (a : Admission) : a.release.dated = a.dated :=
  map_release (fun w => (w.id, w.due)) (fun _ _ => rfl) a

theorem dated_without (a : Admission) (id : CallId) :
    (a.without id).dated = a.dated.filter (·.1 != id) := by
  rw [dated, dated, List.filter_map]
  rfl

theorem dated_leave (a : Admission) (id : CallId) :
    (a.leave id).dated = a.dated.filter (·.1 != id) := by
  by_cases h : id ∈ a.promised
  · rw [leave_of_mem h, dated_release, dated_without]
  · rw [leave_of_not_mem h, dated_without]

/-! ### Asking -/

/-- The same with somebody at the end of the line. -/
def queue (a : Admission) (id : CallId) (now : Nat) : Admission :=
  { a with line := a.line ++ [{ id, due := now + a.wait }] }

theorem waiting_queue (a : Admission) (id : CallId) (now : Nat) :
    (a.queue id now).waiting = a.waiting ++ [id] := by
  simp [queue, waiting]

theorem promised_queue (a : Admission) (id : CallId) (now : Nat) :
    (a.queue id now).promised = a.promised := by
  simp [queue, promised]

theorem unserved_queue (a : Admission) (id : CallId) (now : Nat) :
    (a.queue id now).unserved = a.unserved ++ [id] := by
  simp [queue, unserved]

theorem dated_queue (a : Admission) (id : CallId) (now : Nat) :
    (a.queue id now).dated = a.dated ++ [(id, now + a.wait)] := by
  simp [queue, dated]

theorem spare_queue (a : Admission) (id : CallId) (now : Nat) :
    (a.queue id now).spare = a.spare := by
  simp [queue, spare, granted]

theorem ask_of_free (h : 0 < a.free) :
    a.ask id now false = (some (.ok ()), { a with free := a.free - 1 }) := by
  simp [ask, acquire, h]

/-- Who asks is refused, finds a slot free, or goes to the end of the line. -/
theorem ask_cases (a : Admission) (id : CallId) (now : Nat) (triggered : Bool) :
    (triggered = true ∧ a.ask id now triggered = (some (.error .shutdown), a)) ∨
      (triggered = false ∧ 0 < a.free) ∨
      (triggered = false ∧ a.free = 0 ∧ a.ask id now triggered = (none, a.queue id now)) := by
  cases triggered with
  | true => exact .inl ⟨rfl, rfl⟩
  | false =>
    by_cases hfree : 0 < a.free
    · exact .inr (.inl ⟨rfl, hfree⟩)
    · exact .inr (.inr ⟨rfl, by omega, by simp [ask, acquire, hfree, queue]⟩)

/-! ### A step in line -/

/-- Somebody in line is told to stop, or takes up the slot that was handed over, or has waited
long enough without one. -/
theorem stepWait_cases {cancelled : Bool} {r : Except Error Unit} (hline : a.waiting.Nodup)
    (h : a.stepWait id now cancelled = some (r, a')) :
    (cancelled = true ∧ r = .error .shutdown ∧ a' = a.leave id) ∨
      (cancelled = false ∧ id ∈ a.promised ∧ r = .ok () ∧ a' = a.without id) ∨
      (cancelled = false ∧ id ∈ a.unserved ∧ (∃ due ≤ now, (id, due) ∈ a.dated) ∧
        r = .error (.timeout .admission) ∧ a' = a.without id) := by
  unfold stepWait at h
  split at h
  · cases h
  · rename_i w hw
    obtain ⟨hmem, rfl⟩ := Keyed.mem_of_find? hw
    split at h
    · rename_i hstop
      cases h
      exact .inl ⟨hstop, rfl, rfl⟩
    · rename_i hgoes
      have hgoes := Bool.eq_false_iff.mpr hgoes
      split at h
      · rename_i hgranted
        cases h
        refine .inr (.inl ⟨hgoes, ?_, rfl, rfl⟩)
        exact List.mem_map.mpr ⟨w, List.mem_filter.mpr ⟨hmem, hgranted⟩, rfl⟩
      · rename_i hgranted
        split at h
        · rename_i hdue
          cases h
          have hunserved : w.id ∈ a.unserved :=
            List.mem_map.mpr ⟨w, List.mem_filter.mpr ⟨hmem, by simpa using hgranted⟩, rfl⟩
          refine .inr (.inr ⟨hgoes, hunserved, ⟨w.due, hdue, ?_⟩, rfl,
            leave_of_not_mem (not_promised hline hunserved)⟩)
          exact List.mem_map.mpr ⟨w, hmem, rfl⟩
        · cases h

/-- Who has no step was not told to stop, has no slot and has time left. -/
theorem stepWait_eq_none {cancelled : Bool} {due : Nat} (hline : a.waiting.Nodup)
    (h : a.stepWait id now cancelled = none) (hmem : (id, due) ∈ a.dated) :
    cancelled = false ∧ id ∈ a.unserved ∧ now < due := by
  obtain ⟨w, hw, heq⟩ := List.mem_map.mp hmem
  obtain ⟨rfl, rfl⟩ := Prod.mk.inj heq
  simp only [stepWait, Keyed.find?_of_mem hline hw] at h
  split at h
  · cases h
  · rename_i hgoes
    split at h
    · cases h
    · rename_i hgranted
      split at h
      · cases h
      · rename_i hdue
        refine ⟨Bool.eq_false_iff.mpr hgoes, ?_, Nat.lt_of_not_le hdue⟩
        exact List.mem_map.mpr ⟨w, List.mem_filter.mpr ⟨hw, by simpa using hgranted⟩, rfl⟩

end Parley.Admission
