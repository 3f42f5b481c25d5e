import Mathlib.Data.Nat.Find
import Parley.Proofs.Network.Hosting

/-! What a command-line call comes to, whatever else happens in its network.

A call is watched: what its own tasks print, report, send and take in. Any task may make the next
step, and time may pass (`Watch.Step`). `Watch.Until` says that the call comes to a goal if every
task that is ready for good makes a step at some time, as `until_fair` shows. -/
namespace Parley.Sim.Network
open Channel

/-- A network, and what the tasks of one command-line call have printed and reported, and sent on
each stream and taken from it. -/
structure Watch where
  network : Network
  printed : List String := []
  reports : List (CallId × Report) := []
  sent : StreamId → Bytes := fun _ => []
  taken : StreamId → Bytes := fun _ => []

namespace Watch

/-- The network after a step of this task, and what the call did if the task is its own. -/
def after (own : CallId) (u : Watch) (t : Task) (n : Network) : Watch :=
  if t.client? = some (.script own) then
    { network := n
      printed := u.printed ++ n.printed.drop u.network.printed.length
      reports := u.reports ++ n.reports.drop u.network.reports.length
      sent := fun s => u.sent s ++
        (n.view s true).outgoing.held.drop (u.network.view s true).outgoing.held.length
      taken := fun s => u.taken s ++ (u.network.view s true).incoming.held.take
        ((u.network.view s true).incoming.held.length - (n.view s true).incoming.held.length) }
  else { u with network := n }

/-- A task makes a step, or time passes. -/
inductive Step (own : CallId) (u : Watch) : Option Task → Watch → Prop where
  | task {t : Task} {n : Network} (h : step t u.network = some n) :
      Step own u (some t) (u.after own t n)
  | passes {now : Nat} (hle : u.network.now ≤ now) :
      Step own u none { u with network := { u.network with now } }

/-- What happens while some tasks make no step and all is calm. -/
abbrev Others (own : CallId) (calm : Network → Prop) (mine : Task → Prop) : Watch → Watch → Prop :=
  Relation.ReflTransGen fun u v => calm u.network ∧ ∃ t, (∀ t' ∈ t, ¬ mine t') ∧ Step own u t v

/-- The call comes to a goal. As long as it is not there, some tasks work for it, one of which is
ready until one of them makes a step, whatever the others do; that step brings the call closer; and
till then something holds. Of networks that are not calm nothing is said. -/
inductive Until (own : CallId) (calm : Network → Prop) (so goal : Watch → Prop) : Watch → Prop where
  | done {u : Watch} (h : goal u) : Until own calm so goal u
  | next {u : Watch} (mine : Task → Prop) (hso : ∀ v, Others own calm mine u v → so v)
      (hready : calm u.network → ∃ t, mine t ∧ ∀ v, Others own calm mine u v →
        calm v.network → step t v.network ≠ none)
      (hstep : ∀ v w t, Others own calm mine u v → calm v.network → mine t →
        Step own v (some t) w → Until own calm so goal w) : Until own calm so goal u

variable {own : CallId} {calm : Network → Prop} {so goal : Watch → Prop} {u v : Watch}
  {mine : Task → Prop}

theorem others_now (h : Others own calm mine u v) : u.network.now ≤ v.network.now := by
  induction h with
  | refl => exact Nat.le_refl _
  | @tail v w _ hstep ih =>
    obtain ⟨-, t, -, hstep⟩ := hstep
    refine Nat.le_trans ih ?_
    cases hstep with
    | passes hle => exact hle
    | task hn =>
      rw [after]
      split <;> exact Nat.le_of_eq (lasts_step hn).now.symm

/-- **A call comes to its goal that comes closer to it with every step of the tasks that work for
it**, at a place that the others leave as it is. -/
theorem until_of_measure {α : Type} {r : α → α → Prop} (hr : WellFounded r)
    (place : α → Watch → Prop) (mine : α → Task → Prop)
    (hothers : ∀ a u v, place a u → Others own calm (mine a) u v → place a v)
    (hso : ∀ a u, place a u → so u)
    (hready : ∀ a u, place a u → calm u.network → ∃ t, mine a t ∧ ∀ v, place a v →
      u.network.now ≤ v.network.now → step t v.network ≠ none)
    (hstep : ∀ a u v t, place a u → calm u.network → mine a t → Step own u (some t) v →
      (∃ b, r b a ∧ place b v) ∨ Until own calm so goal v) {a : α} (h : place a u) :
    Until own calm so goal u := by
  induction a using hr.induction generalizing u with
  | _ a ih =>
    refine .next (mine a) (fun v hv => hso a v (hothers a u v h hv)) (fun hcalm => ?_)
      fun v w t hv hcalm ht hw => ?_
    · obtain ⟨t, ht, hready⟩ := hready a u h hcalm
      exact ⟨t, ht, fun v hv _ => hready v (hothers a u v h hv) (others_now hv)⟩
    · rcases hstep a v w t (hothers a u v h hv) hcalm ht hw with ⟨b, hlt, hb⟩ | hdone
      · exact ih b hlt hb
      · exact hdone

/-! ### All runs -/

/-- What can happen as long as all is calm. -/
abbrev Leads (own : CallId) (calm : Network → Prop) : Watch → Watch → Prop :=
  Relation.ReflTransGen fun u v => calm u.network ∧ ∃ t, Step own u t v

/-- Others make all steps, or there is a first one of these tasks. -/
theorem others_or_step (h : Leads own calm u v) : Others own calm mine u v ∨
    ∃ x y t, Others own calm mine u x ∧ calm x.network ∧ mine t ∧ Step own x (some t) y ∧
      Leads own calm y v := by
  induction h with
  | refl => exact .inl .refl
  | @tail v w _ hstep ih =>
    obtain ⟨hcalm, t, hstep⟩ := hstep
    rcases ih with hothers | ⟨x, y, t', hothers, hcalm', hmine, hstep', hleads⟩
    · by_cases hmine : ∃ t' ∈ t, mine t'
      · obtain ⟨t', ht', hmine⟩ := hmine
        obtain rfl : t = some t' := ht'
        exact .inr ⟨v, w, t', hothers, hcalm, hmine, hstep, .refl⟩
      · push Not at hmine
        exact .inl (hothers.tail ⟨hcalm, t, hmine, hstep⟩)
    · exact .inr ⟨x, y, t', hothers, hcalm', hmine, hstep', hleads.tail ⟨hcalm, t, hstep⟩⟩

/-- **Whatever happens, it is so until the call has come to its goal.** -/
theorem until_leads (h : Until own calm so goal u) (hleads : Leads own calm u v) :
    so v ∨ ∃ w, Leads own calm u w ∧ goal w ∧ Leads own calm w v := by
  induction h with
  | @done u h => exact .inr ⟨u, .refl, h, hleads⟩
  | @next u mine hso _ _ ih =>
    rcases others_or_step hleads with hothers | ⟨x, y, t, hothers, hcalm, hmine, hstep, hlater⟩
    · exact .inl (hso v hothers)
    · rcases ih x y t hothers hcalm hmine hstep hlater with hv | ⟨w, hw, hgoal, hv⟩
      · exact .inl hv
      · refine .inr ⟨w, ?_, hgoal, hv⟩
        have hx : Leads own calm u x :=
          hothers.mono (fun _ _ ⟨hcalm, t, _, hstep⟩ => ⟨hcalm, t, hstep⟩) _ _
        exact (hx.tail ⟨hcalm, some t, hstep⟩).trans hw

/-! ### Fair runs -/

/-- A run without end in which all is calm, and every task that is ready for good makes a step at
some time. -/
structure FairRun (own : CallId) (calm : Network → Prop) (w : Nat → Watch)
    (made : Nat → Option Task) : Prop where
  steps : ∀ i, Step own (w i) (made i) (w (i + 1))
  calm : ∀ i, calm (w i).network
  fair : ∀ t i, ∃ j ≥ i, made j = some t ∨ step t (w j).network = none

variable {w : Nat → Watch} {made : Nat → Option Task}

/-- Others make the steps up to a place of a run if none of these tasks makes one before. -/
theorem FairRun.others (h : FairRun own calm w made) {i j : Nat} (hle : i ≤ j)
    (hnone : ∀ k, i ≤ k → k < j → ∀ t, mine t → made k ≠ some t) :
    Others own calm mine (w i) (w j) := by
  induction hle with
  | refl => exact .refl
  | @step j hij ih =>
    refine (ih fun k hk hkj => hnone k hk (Nat.lt_succ_of_lt hkj)).tail
      ⟨h.calm j, made j, fun t ht hmine => hnone j hij (Nat.lt_succ_self j) t hmine ht, h.steps j⟩

/-- **In a fair run the call comes to its goal, and till then it is so.** -/
theorem until_fair (h : Until own calm so goal u) (hrun : FairRun own calm w made) {i : Nat}
    (hi : w i = u) : ∃ j ≥ i, goal (w j) ∧ ∀ k, i ≤ k → k < j → so (w k) := by
  induction h generalizing i with
  | done h => exact ⟨i, Nat.le_refl i, hi ▸ h, fun k hk hkj => absurd hkj (Nat.not_lt.mpr hk)⟩
  | @next u mine hso hready hstep ih =>
    subst hi
    obtain ⟨t, ht, hready⟩ := hready (hrun.calm i)
    -- One of these tasks makes a step: if no other does, the one that is ready.
    have hexists : ∃ j, i ≤ j ∧ ∃ t, mine t ∧ made j = some t := by
      by_contra hnone
      push Not at hnone
      obtain ⟨j, hij, hj⟩ := hrun.fair t i
      have hothers : Others own calm mine (w i) (w j) :=
        hrun.others hij fun k hk _ t ht => hnone k hk t ht
      exact hj.elim (hnone j hij t ht) (hready _ hothers (hrun.calm j))
    classical
    obtain ⟨hij, t', ht', hmade⟩ := Nat.find_spec hexists
    have hfirst : ∀ k, i ≤ k → k < Nat.find hexists → ∀ t, mine t → made k ≠ some t :=
      fun k hk hlt t ht hmade => Nat.find_min hexists hlt ⟨hk, t, ht, hmade⟩
    have hothers := hrun.others hij hfirst
    obtain ⟨j, hj, hgoal, hbefore⟩ := ih (w (Nat.find hexists)) (w (Nat.find hexists + 1)) t'
      hothers (hrun.calm _) ht' (hmade ▸ hrun.steps _) rfl
    refine ⟨j, by omega, hgoal, fun k hk hkj => ?_⟩
    by_cases hbound : k ≤ Nat.find hexists
    · exact hso _ (hrun.others hk fun k' hk' hlt => hfirst k' hk' (Nat.lt_of_lt_of_le hlt hbound))
    · exact hbefore k (by omega) hkj

end Watch
end Parley.Sim.Network
