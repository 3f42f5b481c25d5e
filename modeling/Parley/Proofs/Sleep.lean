import Mathlib.Logic.Relation
import Parley.Engine.Basic
import Parley.Proofs.Keyed
import Parley.Sim.System

/-! Tasks that sleep until they are woken.

Where each task waits for something, takes one step when it has come about, and is gone with it
(`Brief`), the tasks come to rest after no more steps than there are tasks (`settled_settle`).

Such a task does not look all the time whether it can go on. It looks once when it begins and once
each time it is woken, and sleeps in between (`Wakeful`, `Look`); whoever changes what it waits for
has to wake it. A state is `Alert` if no task sleeps in it that could go on. Looks leave it so
(`Alert.look`), and a change leaves it so that wakes all those to whom it gives a step
(`Alert.wakes`). Then nobody is forgotten: where no task is awake the state is settled
(`Alert.settled`), and letting the tasks settle is one way for them to look, one after the other
(`Alert.exists_looks`).

Calls that wait in such a system are waiting, were dropped or have ended (`Booked`). -/
namespace Parley.Sim

/-- A state, and the tasks that are awake in it. -/
structure Wakeful (σ τ : Type) where
  state : σ
  awake : List τ := []

variable {σ τ : Type}

namespace Wakeful

/-- What a change leaves that wakes some tasks. -/
def wakes (w : Wakeful σ τ) (s : σ) (woken : List τ) : Wakeful σ τ := ⟨s, woken ++ w.awake⟩

/-- What a change leaves after which a task is not awake any longer. -/
def rests [DecidableEq τ] (w : Wakeful σ τ) (s : σ) (t : τ) : Wakeful σ τ :=
  ⟨s, w.awake.filter (· ≠ t)⟩

end Wakeful

namespace System
variable (M : System σ τ)

/-- Every task has one step at most, and nobody gets a step by that of another. -/
structure Brief : Prop where
  listed : ∀ {t s s'}, M.step t s = some s' → t ∈ M.tasks s
  gone : ∀ {t s s'}, M.step t s = some s' → t ∉ M.tasks s'
  fewer : ∀ {t s s'}, M.step t s = some s' → (M.tasks s').length < (M.tasks s).length
  others : ∀ {t n s s' u}, M.step t s = some s' → M.step n s' = some u →
    ∃ u', M.step n s = some u'

variable {M} {w w' : Wakeful σ τ} {s : σ} {n : Nat}

/-! ### Coming to rest -/

theorem settled_of_pick (hlisted : ∀ {t s s'}, M.step t s = some s' → t ∈ M.tasks s)
    (h : M.pick s = none) : M.Settled s := by
  intro t
  cases hstep : M.step t s with
  | none => rfl
  | some s' =>
    have hnone := List.findSome?_eq_none_iff.mp h t (hlisted hstep)
    rw [hnone] at hstep
    cases hstep

/-- Where every step leaves fewer tasks, they settle. -/
theorem settled_settle (hlisted : ∀ {t s s'}, M.step t s = some s' → t ∈ M.tasks s)
    (hfewer : ∀ {t s s'}, M.step t s = some s' → (M.tasks s').length < (M.tasks s).length)
    (hn : (M.tasks s).length ≤ n) : M.Settled (M.settle n s) := by
  induction n generalizing s with
  | zero =>
    refine settled_of_pick hlisted (List.findSome?_eq_none_iff.mpr fun t ht => ?_)
    have hnil : M.tasks s = [] := List.length_eq_zero_iff.mp (Nat.le_zero.mp hn)
    exact absurd (hnil ▸ ht : t ∈ []) List.not_mem_nil
  | succ n ih =>
    cases hpick : M.pick s with
    | none =>
      rw [M.settle_of_pick_none hpick]
      exact settled_of_pick hlisted hpick
    | some s' =>
      obtain ⟨t, hstep⟩ := M.exists_step_of_pick hpick
      have hless := hfewer hstep
      rw [settle, hpick]
      exact ih (by omega)

/-! ### Sleep -/

/-- No task sleeps that could go on. -/
def Alert (M : System σ τ) (w : Wakeful σ τ) : Prop :=
  ∀ t s, M.step t w.state = some s → t ∈ w.awake

/-- Where nobody is awake nobody can go on: no wake-up is lost. -/
theorem Alert.settled (h : M.Alert w) (hrest : w.awake = []) : M.Settled w.state := by
  intro t
  cases hstep : M.step t w.state with
  | none => rfl
  | some s => exact absurd (hrest ▸ h t s hstep) List.not_mem_nil

theorem Alert.wakes (h : M.Alert w) {woken : List τ}
    (hwoken : ∀ t u, M.step t s = some u → t ∈ woken ∨ ∃ u', M.step t w.state = some u') :
    M.Alert (w.wakes s woken) := by
  intro t u hstep
  rcases hwoken t u hstep with hmem | ⟨u', hstep'⟩
  · exact List.mem_append_left _ hmem
  · exact List.mem_append_right _ (h t u' hstep')

variable [DecidableEq τ]

theorem Alert.rests (h : M.Alert w) {t : τ}
    (hothers : ∀ n u, M.step n s = some u → n ≠ t ∧ ∃ u', M.step n w.state = some u') :
    M.Alert (w.rests s t) := by
  intro n u hstep
  obtain ⟨hne, u', hstep'⟩ := hothers n u hstep
  exact List.mem_filter.mpr ⟨h n u' hstep', by simpa using hne⟩

variable (M)

/-- A task that is awake looks: it takes its step, if it has one, and is not awake any longer. -/
inductive Look (w : Wakeful σ τ) : Wakeful σ τ → Prop where
  | look {t} (h : t ∈ w.awake) : Look w (w.rests ((M.step t w.state).getD w.state) t)

/-- Some tasks look, one after the other. -/
abbrev Looks : Wakeful σ τ → Wakeful σ τ → Prop := Relation.ReflTransGen M.Look

variable {M}

theorem Alert.look (hM : M.Brief) (h : M.Alert w) (hlook : M.Look w w') : M.Alert w' := by
  cases hlook with
  | @look t ht =>
    refine h.rests fun n u hn => ?_
    cases hstep : M.step t w.state with
    | none =>
      rw [hstep] at hn
      -- It looks in vain, so it is not it that could go on.
      refine ⟨?_, u, hn⟩
      rintro rfl
      exact absurd (hstep.symm.trans hn) (by simp)
    | some s' =>
      rw [hstep] at hn
      refine ⟨?_, hM.others hstep hn⟩
      rintro rfl
      exact hM.gone hstep (hM.listed hn)

/-- Where nobody can go on, whoever is awake looks in vain and sleeps. -/
theorem exists_looks_of_settled (h : M.Settled s) (awake : List τ) :
    ∃ w', M.Looks ⟨s, awake⟩ w' ∧ w'.state = s ∧ w'.awake = [] := by
  generalize hn : awake.length = n
  induction n using Nat.strongRecOn generalizing awake with
  | ind n ih =>
    cases awake with
    | nil => exact ⟨_, .refl, rfl, rfl⟩
    | cons t rest =>
      have ht : t ∈ t :: rest := List.mem_cons_self
      have hlook := Look.look (M := M) (w := ⟨s, t :: rest⟩) ht
      rw [h t] at hlook
      have hless : ((t :: rest).filter (· ≠ t)).length < n :=
        hn ▸ List.length_filter_lt_length_iff_exists.mpr ⟨t, ht, by simp⟩
      obtain ⟨w', hlooks, hstate, hrest⟩ := ih _ hless _ rfl
      exact ⟨w', hlooks.head hlook, hstate, hrest⟩

/-- Those who are awake look until nobody is, and what they do is to settle. -/
theorem Alert.exists_looks (hM : M.Brief) (h : M.Alert w) (hn : (M.tasks w.state).length ≤ n) :
    ∃ w', M.Looks w w' ∧ w'.state = M.settle n w.state ∧ w'.awake = [] := by
  induction n generalizing w with
  | zero => exact exists_looks_of_settled (settled_settle hM.listed hM.fewer hn) w.awake
  | succ n ih =>
    cases hpick : M.pick w.state with
    | none =>
      rw [M.settle_of_pick_none hpick]
      exact exists_looks_of_settled (settled_of_pick hM.listed hpick) w.awake
    | some s =>
      obtain ⟨t, hstep⟩ := M.exists_step_of_pick hpick
      -- Who settles next is awake, so it can look next.
      have hlook := Look.look (M := M) (h t s hstep)
      rw [hstep] at hlook
      have hless := hM.fewer hstep
      obtain ⟨w', hlooks, hstate, hrest⟩ :=
        ih (h.look hM hlook) (Nat.le_of_lt_succ (Nat.lt_of_lt_of_le hless hn))
      refine ⟨w', hlooks.head hlook, ?_, hrest⟩
      rw [hstate, settle, hpick]
      rfl

end System

/-! ### Calls that wait -/

/-- Every call that was made is waiting, was dropped or has ended, and only one of these. -/
structure Booked (waits dropped ended calls : List CallId) : Prop where
  nodup : calls.Nodup
  places : (waits ++ (dropped ++ ended)).Perm calls

namespace Booked
variable {waits dropped ended calls : List CallId} {id : CallId}

theorem waits_nodup (h : Booked waits dropped ended calls) : waits.Nodup :=
  (h.places.nodup_iff.mpr h.nodup).sublist (List.sublist_append_left ..)

theorem mem_calls (h : Booked waits dropped ended calls)
    (hid : id ∈ waits ∨ id ∈ dropped ∨ id ∈ ended) : id ∈ calls :=
  h.places.subset (by simpa using hid)

/-- A call that was not dropped has ended as soon as it does not wait. -/
theorem mem_ended_iff (h : Booked waits dropped ended calls) (hid : id ∈ calls)
    (hkept : id ∉ dropped) : id ∈ ended ↔ id ∉ waits := by
  have hnodup := h.places.nodup_iff.mpr h.nodup
  have hmem := h.places.mem_iff.mpr hid
  simp only [List.mem_append, hkept, false_or] at hmem
  refine ⟨fun hended hwaits => ?_, fun hwaits => hmem.resolve_left hwaits⟩
  exact List.disjoint_of_nodup_append hnodup hwaits (List.mem_append_right _ hended)

theorem nil : Booked [] [] [] [] := ⟨List.nodup_nil, .refl _⟩

theorem begins (h : Booked waits dropped ended calls) (hnew : id ∉ calls) :
    Booked (waits ++ [id]) dropped ended (calls ++ [id]) where
  nodup := List.nodup_append.mpr ⟨h.nodup, List.nodup_singleton id, by
    rintro n hn m hm rfl
    exact hnew (List.mem_singleton.mp hm ▸ hn)⟩
  places := by
    rw [List.append_assoc]
    exact List.perm_middle.trans
      ((h.places.cons id).trans (List.perm_append_singleton id calls).symm)

theorem drops (h : Booked waits dropped ended calls) (hid : id ∈ waits) :
    Booked (waits.filter (· != id)) (dropped ++ [id]) ended calls where
  nodup := h.nodup
  places := by
    have hgone : ((dropped ++ [id]) ++ ended).Perm (id :: (dropped ++ ended)) := by
      rw [List.append_assoc]
      exact List.perm_middle
    exact (Keyed.perm_passed h.waits_nodup hid hgone).symm.trans h.places

theorem ends (h : Booked waits dropped ended calls) (hid : id ∈ waits) :
    Booked (waits.filter (· != id)) dropped (ended ++ [id]) calls where
  nodup := h.nodup
  places := by
    have hgone : (dropped ++ (ended ++ [id])).Perm (id :: (dropped ++ ended)) := by
      rw [← List.append_assoc]
      exact List.perm_append_singleton id _
    exact (Keyed.perm_passed h.waits_nodup hid hgone).symm.trans h.places

end Booked
end Parley.Sim
