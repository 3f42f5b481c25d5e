import Parley.Error

/-! Work under a deadline.

No limit means no deadline, never one that has passed. Work that can go on does so, even if its
deadline has passed; only work that waits then fails, with the error that its time is out. -/
namespace Parley

/-- The deadline of work that begins now. -/
def dueAfter (limit : Option Nat) (now : Nat) : Option Nat := limit.map (now + ·)

/-- What work that waits fails with, if its deadline has passed. -/
def expired (due : Option Nat) (what : Timed) (now : Nat) : Option Error :=
  if due.any (· ≤ now) then some (.timeout what) else none

/-- When work that takes so long is over under a limit, and its result: its own if it is
done by the deadline, else that the time is out. -/
def withDeadline {α : Type} (limit : Option Nat) (what : Timed) (duration : Nat)
    (result : Except Error α) : Nat × Except Error α :=
  let due := dueAfter limit 0
  let finish := (due.map (min duration)).getD duration
  if finish = duration then (finish, result)
  else (finish, ((expired due what finish).map Except.error).getD result)

section
variable {α : Type} {due : Option Nat} {t now now' : Nat} {what : Timed}

@[simp] theorem expired_some (due : Nat) (what : Timed) (now : Nat) :
    expired (some due) what now = if due ≤ now then some (.timeout what) else none := by
  simp [expired]

theorem expired_eq_some_iff {e : Error} :
    expired due what now = some e ↔ due.any (· ≤ now) = true ∧ e = .timeout what := by
  unfold expired
  split
  · rename_i hdue
    exact ⟨fun h => ⟨hdue, (Option.some.inj h).symm⟩, fun h => h.2 ▸ rfl⟩
  · rename_i hdue
    exact ⟨fun h => (nomatch h), fun h => absurd h.1 hdue⟩

/-- Before its deadline nothing fails for want of time. -/
theorem expired_of_early (h : ∀ t ∈ due.toList, now < t) : expired due what now = none := by
  cases due with
  | none => rfl
  | some t => rw [expired_some, if_neg (Nat.not_le_of_lt (h t (List.mem_singleton_self t)))]

theorem expired_some_eq_none_iff : expired (some t) what now = none ↔ now < t := by
  rw [expired_some]
  by_cases hle : t ≤ now
  · rw [if_pos hle]
    exact ⟨fun h => (nomatch h), fun h => absurd h (Nat.not_lt_of_le hle)⟩
  · rw [if_neg hle]
    exact ⟨fun _ => Nat.lt_of_not_le hle, fun _ => rfl⟩

/-- A deadline that has not passed had not passed before. -/
theorem expired_earlier (hnow : now ≤ now') (h : expired due what now' = none) :
    expired due what now = none := by
  cases due with
  | none => rfl
  | some t =>
    rw [expired_some_eq_none_iff] at h ⊢
    exact Nat.lt_of_le_of_lt hnow h

/-- Where a failure is never waited for, only a deadline that has not passed is. -/
theorem expired_of_bind {f : Error → Option α} (h : (expired due what now).bind f = none)
    (hf : ∀ e, f e ≠ none) : expired due what now = none := by
  cases hexpired : expired due what now with
  | none => rfl
  | some e =>
    rw [hexpired] at h
    exact absurd h (hf e)

/-- Work under a limit is not given up before its deadline; it is over when it is done, or when its
deadline has passed and it still waits. -/
theorem withDeadline_cases {limit : Option Nat} {duration finish : Nat} {result r : Except Error α}
    (h : withDeadline limit what duration result = (finish, r)) :
    (∀ t < finish, expired (dueAfter limit 0) what t = none) ∧
      (finish = duration ∧ r = result ∨
        finish < duration ∧ expired (dueAfter limit 0) what finish = some (.timeout what) ∧
          r = .error (.timeout what)) := by
  cases limit with
  | none =>
    have hdone : withDeadline none what duration result = (duration, result) := if_pos rfl
    cases hdone.symm.trans h
    exact ⟨fun _ _ => rfl, .inl ⟨rfl, rfl⟩⟩
  | some l =>
    have hdue : dueAfter (some l) 0 = some l := congrArg some (Nat.zero_add l)
    simp only [withDeadline, hdue, Option.map_some, Option.getD_some] at h ⊢
    split at h <;> cases h
    · rename_i hdone
      exact ⟨fun t ht => expired_some_eq_none_iff.mpr (by omega), .inl ⟨hdone, rfl⟩⟩
    · have hlate : expired (some l) what (min duration l) = some (.timeout what) := by
        rw [expired_some, if_pos (by omega)]
      exact ⟨fun t ht => expired_some_eq_none_iff.mpr (by omega),
        .inr ⟨by omega, hlate, by rw [hlate]; rfl⟩⟩

end
end Parley
