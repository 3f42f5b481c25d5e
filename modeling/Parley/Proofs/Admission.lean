import Parley.Admission
import Parley.Proofs.Keyed

/-! What becomes of the slots of an admission.

A slot that nobody works with is free, or on the way to somebody in line; `spare` counts both.
Each operation is given by what it does to the spare slots and to those in line: taking a free
slot or taking up a granted one leaves one fewer, giving one back one more, and leaving the line
as many as there were. While somebody in line has been granted a slot, that one can go on
(`granted_eq_zero`). -/
namespace Parley.Admission

/-- The slots handed over to somebody in line and not yet taken up. -/
def granted (a : Admission) : Nat := a.line.countP (·.granted)

/-- The slots that nobody works with. -/
def spare (a : Admission) : Nat := a.free + a.granted

/-- Who is in line. -/
def waiting (a : Admission) : List CallId := a.line.map (·.id)

variable {a a' : Admission} {id : CallId} {now : Nat} {line line' : List Waiter}

/-! ### Giving back -/

/-- A slot is granted to one more of those in line, and nobody moves. -/
theorem grant_eq_some (h : grant line = some line') :
    line'.map (·.id) = line.map (·.id) ∧
      line'.countP (·.granted) = line.countP (·.granted) + 1 := by
  induction line generalizing line' with
  | nil => cases h
  | cons w rest ih =>
    cases hw : w.granted with
    | true =>
      simp only [grant, hw, if_true, Option.map_eq_some_iff] at h
      obtain ⟨rest', hrest, rfl⟩ := h
      obtain ⟨hids, hcount⟩ := ih hrest
      simp only [List.map_cons, hids, List.countP_cons, hw, if_true, hcount, and_self]
    | false =>
      simp only [grant, hw] at h
      cases h
      simp [hw]

theorem waiting_release (a : Admission) : a.release.waiting = a.waiting := by
  unfold release waiting
  cases h : grant a.line with
  | none => rfl
  | some line => exact (grant_eq_some h).1

theorem spare_release (a : Admission) : a.release.spare = a.spare + 1 := by
  unfold release spare granted
  cases h : grant a.line with
  | none => exact Nat.add_right_comm ..
  | some line =>
    show a.free + line.countP (·.granted) = _
    rw [(grant_eq_some h).2]
    rfl

/-! ### Taking -/

theorem acquire_eq_true (h : a.acquire id now = (true, a')) :
    a'.spare + 1 = a.spare ∧ a'.waiting = a.waiting := by
  unfold acquire at h
  split at h
  · rename_i hfree
    cases h
    refine ⟨?_, rfl⟩
    show a.free - 1 + a.granted + 1 = a.free + a.granted
    omega
  · cases h

/-- Without a free slot it goes to the end of the line. -/
theorem acquire_eq_false (h : a.acquire id now = (false, a')) :
    a'.spare = a.spare ∧ a'.waiting = a.waiting ++ [id] := by
  unfold acquire at h
  split at h
  · cases h
  · cases h
    simp [spare, granted, waiting]

/-! ### Leaving the line -/

/-- The same without one of those in line. -/
def without (a : Admission) (id : CallId) : Admission :=
  { a with line := a.line.filter (·.id != id) }

theorem waiting_without (a : Admission) (id : CallId) :
    (a.without id).waiting = a.waiting.filter (· != id) := by
  simp only [without, waiting, List.filter_map]
  rfl

/-- Among those in line the granted ones are the one that leaves, if granted, and the others. -/
theorem countP_granted (hline : (line.map (·.id)).Nodup) (id : CallId) :
    line.countP (·.granted) =
      (line.filter (·.id != id)).countP (·.granted) +
        if line.any (fun w => w.id == id && w.granted) then 1 else 0 := by
  induction line with
  | nil => rfl
  | cons w rest ih =>
    obtain ⟨hw, hrest⟩ := List.nodup_cons.mp hline
    have ih := ih hrest
    rcases eq_or_ne w.id id with rfl | hid
    · -- Nobody else has its name.
      have hnone : rest.any (fun v => v.id == w.id && v.granted) = false := by
        refine List.any_eq_false.mpr fun v hv hand => hw ?_
        exact List.mem_map.mpr ⟨v, hv, by simpa using (Bool.and_eq_true_iff.mp hand).1⟩
      rw [hnone] at ih
      cases hgranted : w.granted <;> simp [hgranted, hnone, ih]
    · have hkeep : (w.id != id) = true := by simpa using hid
      have hother : (w.id == id) = false := by simpa using hid
      rw [List.countP_cons, ih, List.filter_cons, if_pos hkeep, List.countP_cons, List.any_cons,
        hother, Bool.false_and, Bool.false_or]
      omega

theorem waiting_leave (a : Admission) (id : CallId) :
    (a.leave id).waiting = a.waiting.filter (· != id) := by
  rw [← waiting_without]
  unfold leave
  dsimp only
  split
  · exact waiting_release _
  · rfl

/-- Who leaves the line leaves no slot behind. -/
theorem spare_leave (hline : a.waiting.Nodup) (id : CallId) : (a.leave id).spare = a.spare := by
  have hcount := countP_granted hline id
  unfold leave
  dsimp only
  split
  · rename_i hgranted
    rw [if_pos hgranted] at hcount
    rw [spare_release]
    exact congrArg (a.free + ·) hcount.symm
  · rename_i hgranted
    rw [if_neg hgranted] at hcount
    exact congrArg (a.free + ·) hcount.symm

/-! ### Waiting in line -/

/-- A granted slot is taken up. -/
theorem stepWait_eq_ok {cancelled : Bool} (hline : a.waiting.Nodup)
    (h : a.stepWait id now cancelled = some (.ok (), a')) :
    cancelled = false ∧ a'.spare + 1 = a.spare ∧ a'.waiting = a.waiting.filter (· != id) := by
  unfold stepWait at h
  split at h
  · cases h
  · rename_i w hw
    split at h
    · cases h
    · rename_i hgoes
      split at h
      · rename_i hgranted
        cases h
        have hany : a.line.any (fun w => w.id == id && w.granted) = true :=
          List.any_eq_true.mpr ⟨w, List.mem_of_find?_eq_some hw, by
            rw [List.find?_some hw, hgranted]
            rfl⟩
        have hcount := countP_granted hline id
        rw [hany, if_pos rfl] at hcount
        exact ⟨Bool.eq_false_iff.mpr hgoes, congrArg (a.free + ·) hcount.symm,
          waiting_without a id⟩
      · split at h <;> cases h

/-- Who goes without a slot just leaves the line, told to stop or because time ran out. -/
theorem stepWait_eq_error {cancelled : Bool} {e : Error}
    (h : a.stepWait id now cancelled = some (.error e, a')) :
    a' = a.leave id ∧ e = if cancelled then .shutdown else .timeout .admission := by
  unfold stepWait at h
  split at h
  · cases h
  · split at h
    · rename_i hstop
      cases h
      exact ⟨rfl, by rw [if_pos hstop]⟩
    · rename_i hgoes
      split at h
      · cases h
      · split at h
        · cases h
          exact ⟨rfl, by rw [if_neg hgoes]⟩
        · cases h

/-- Whoever is in line and told to stop does so at once. -/
theorem stepWait_cancelled (hline : a.waiting.Nodup) (h : id ∈ a.waiting) (now : Nat) :
    a.stepWait id now true = some (.error .shutdown, a.leave id) := by
  obtain ⟨w, hw, rfl⟩ := List.mem_map.mp h
  simp [stepWait, Keyed.find?_of_mem hline hw]

/-- Whoever was granted a slot can go on, so that where nobody in line can, none is granted. -/
theorem granted_eq_zero {cancelled : Bool} (hline : a.waiting.Nodup)
    (h : ∀ id ∈ a.waiting, a.stepWait id now cancelled = none) : a.granted = 0 := by
  refine List.countP_eq_zero.mpr fun w hw hgranted => ?_
  have hfind : a.line.find? (·.id == w.id) = some w := Keyed.find?_of_mem hline hw
  have hnone := h w.id (List.mem_map_of_mem hw)
  cases cancelled <;> simp [stepWait, hfind, hgranted] at hnone

end Parley.Admission
