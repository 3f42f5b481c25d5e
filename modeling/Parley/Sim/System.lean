/-! Systems of tasks that take atomic steps in virtual time.

A system says which tasks there are in a state and what one step of a task does;
a task that has to wait has no step. `Run` is every interleaving of steps; a state is
`Settled` when no task has one. `settle` is one interleaving, the first ready task
going first, up to a number of steps; what it reaches is a run (`run_settle`), and it
stops early only where no listed task is ready (`settle_of_pick_none`).

Time stands still while tasks run. `advance` moves the clock from one due time to the
next, letting the tasks settle at each. -/
namespace Parley.Sim

structure System (σ τ : Type) where
  /-- The tasks that may have a step, most urgent first. -/
  tasks : σ → List τ
  step : τ → σ → Option σ

namespace System
variable {σ τ : Type} (M : System σ τ)

/-- No task has a step. -/
def Settled (s : σ) : Prop := ∀ t, M.step t s = none

/-- Some interleaving of steps leads from one state to another. -/
inductive Run : σ → σ → Prop where
  | refl (s : σ) : Run s s
  | step {s s' s'' : σ} (t : τ) (h : M.step t s = some s') (rest : Run s' s'') : Run s s''

/-- The state after the first ready task's step. -/
def pick (s : σ) : Option σ := (M.tasks s).findSome? fun t => M.step t s

/-- At most so many steps, the first ready task going first. -/
def settle : Nat → σ → σ
  | 0, s => s
  | n + 1, s =>
    match M.pick s with
    | none => s
    | some s' => settle n s'

theorem exists_step_of_pick {s s' : σ} (h : M.pick s = some s') : ∃ t, M.step t s = some s' := by
  obtain ⟨t, _, ht⟩ := List.exists_of_findSome?_eq_some h
  exact ⟨t, ht⟩

theorem run_settle (n : Nat) (s : σ) : M.Run s (M.settle n s) := by
  induction n generalizing s with
  | zero => exact .refl s
  | succ n ih =>
    simp only [settle]
    split
    · exact .refl s
    · rename_i s' h
      obtain ⟨t, ht⟩ := M.exists_step_of_pick h
      exact .step t ht (ih s')

theorem settle_of_pick_none {s : σ} (h : M.pick s = none) (n : Nat) : M.settle n s = s := by
  cases n with
  | zero => rfl
  | succ n => simp [settle, h]

end System

/-- A system with a clock and the times at which a waiting task may become ready. -/
structure Timed (σ τ : Type) extends System σ τ where
  now : σ → Nat
  setNow : Nat → σ → σ
  dues : σ → List Nat

namespace Timed
variable {σ τ : Type} (M : Timed σ τ)

/-- The earliest due time after `now` and not after `target`. -/
def nextDue (now target : Nat) (s : σ) : Option Nat :=
  ((M.dues s).filter fun t => now < t && t ≤ target).min?

theorem nextDue_bounds {now target t : Nat} {s : σ} (h : M.nextDue now target s = some t) :
    now < t ∧ t ≤ target := by
  have hm := List.min?_mem h
  simp only [List.mem_filter, Bool.and_eq_true, decide_eq_true_eq] at hm
  exact hm.2

/-- Moves the clock to `target`, stopping at each due time to settle for at most
`patience` steps. -/
def advance (patience now target : Nat) (s : σ) : σ :=
  match _h : M.nextDue now target s with
  | none => M.settle patience (M.setNow target s)
  | some t => advance patience t target (M.settle patience (M.setNow t s))
termination_by target - now
decreasing_by
  have := M.nextDue_bounds _h
  omega

end Timed

/-- How many steps the tasks are given to settle. -/
def patience : Nat := 20000000

end Parley.Sim
