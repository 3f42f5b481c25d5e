import Parley.Proofs.Network.Parting

/-! The client of a command-line call, as far as its stream goes.

While the call makes its handshake that is all it can do (`Errand.shook_of_step`), and once it is
connected it can only drive its engine (`Errand.drove_of_step`). Both are steps of one end of the
stream, which nobody else of the client's side knows. -/
namespace Parley
open Channel

/-! ### Handshakes -/

namespace Channel
variable {h : Handshake} {x x' : Exchange} {role : Role} {now : Nat} {d d' : Duplex}
  {p : Handshake.Progress}

/-- What a step of a handshake is before its deadline. -/
theorem Handshake.step_early (hdue : ∀ due ∈ h.due.toList, now < due)
    (hstep : h.step role now d = some p) :
    (∃ key, h.exchange = .agreed key ∧ p = .agreed key) ∨
      (∃ x d', h.exchange.advance role d = some (.ok (x, d')) ∧
        p = .going { h with exchange := x } d') ∨
      ∃ e, h.exchange.advance role d = some (.error e) ∧ p = .failed e := by
  unfold Handshake.step at hstep
  split at hstep
  · rename_i key hx
    cases hstep
    exact .inl ⟨key, hx, rfl⟩
  · split at hstep
    · rename_i x d' hadv
      cases hstep
      exact .inr (.inl ⟨x, d', hadv, rfl⟩)
    · rename_i e hadv
      cases hstep
      exact .inr (.inr ⟨e, hadv, rfl⟩)
    · rw [expired_of_early hdue] at hstep
      cases hstep

theorem Handshake.step_ready
    (hready : (∃ k, h.exchange = .agreed k) ∨ h.exchange.advance role d ≠ none) (now : Nat) :
    h.step role now d ≠ none := by
  unfold Handshake.step
  split
  · simp
  · rename_i hx
    split
    · simp
    · simp
    · rename_i hadv
      rcases hready with ⟨k, hk⟩ | hne
      · exact absurd hk (hx k)
      · exact absurd hadv hne

end Channel

/-! ### Streams -/

namespace Sim.Network
variable {own : CallId} {n n' : Network} {s : StreamId} {d d' : Duplex} {c : Client}

theorem view_of_link (h : n.links[s]? = some d) (dialer : Bool) :
    n.view s dialer = if dialer then d else d.flip := by
  rw [view, List.getD_eq_getElem?_getD, h]
  rfl

theorem link_setView (h : n.links[s]? = some d) (dialer : Bool) (d' : Duplex) :
    (n.setView s dialer d').links[s]? = some (if dialer then d' else d'.flip) := by
  have hs : s < n.links.length := (List.getElem?_eq_some_iff.mp h).1
  simp [setView, hs]

theorem ready_onClientStream {stream : Client → Option StreamId}
    {f : Client → Duplex → Option (Client × Duplex × List Event)} {ref : ClientRef}
    (hc : n.clientAt ref = some c) (hs : stream c = some s) (hf : f c (n.view s true) ≠ none) :
    n.onClientStream ref stream f ≠ none := by
  unfold onClientStream
  rw [hc]
  dsimp only
  rw [hs]
  dsimp only
  rw [ne_eq, Option.map_eq_none_iff]
  exact hf

end Sim.Network

/-! ### The call's client -/

namespace Errand
open Sim Network

variable (j : Errand)

/-- The client while its only call makes its handshake. -/
def shaking (s : StreamId) (h : Handshake) (tracker : Tracker) (admission : Admission) : Client :=
  { Client.create j.config.client j.config.connection with
    tracker, admission
    dials := [{ id := j.own, address := j.config.client.address, stage := .shaking s h }] }

/-- The connection while it is driven. -/
def linked (s : StreamId) (e : Engine) (a : Engine.Asked) : Client.Connection where
  id := j.own
  stream := s
  engine := e
  own := { fired := a = .returned }
  held := a ≠ .returned
  awaiting := if a = .returned then some j.own else none

variable {j} {n n' : Network} {s : StreamId} {h h' : Handshake} {tracker : Tracker}
  {admission : Admission} {d d' : Duplex} {t : Task} {u : Watch} {a : Engine.Asked} {e : Engine}
  {stage : Client.Script.Stage}

theorem find_shaking : (j.shaking s h tracker admission).dials.find? (·.id == j.own) =
    some { id := j.own, address := j.config.client.address, stage := .shaking s h } := by
  simp [shaking]

theorem find_linked {idling : List CallId} {shutdown : Shutdown} :
    (j.engaged (j.linked s e a) tracker admission shutdown idling).connections.find?
      (·.id == j.own) = some (j.linked s e a) := by
  simp [engaged, linked]

/-- What a step of the call's handshake comes to. -/
inductive Shook (j : Errand) (n : Network) (s : StreamId) (h : Handshake) (tracker : Tracker)
    (admission : Admission) (d : Duplex) : Network → Prop where
  | goes {h' : Handshake} {d' : Duplex} (hp : h.step .client n.now d = some (.going h' d')) :
      Shook j n s h tracker admission d ((n.setView s true d').clientDid (.script j.own)
        (j.shaking s h' tracker admission, []))
  | agrees {key : SessionKey} (hp : h.step .client n.now d = some (.agreed key)) :
      Shook j n s h tracker admission d ((n.setView s true d).clientDid (.script j.own)
        (j.engaged (j.linked s
            ((Client.create j.config.client j.config.connection).engage n.now key) .waiting)
          tracker admission {} [], [.opened, .returned j.own .done]))
  | fails {e : Error} {n' : Network} (hp : h.step .client n.now d = some (.failed e)) :
      Shook j n s h tracker admission d n'

theorem shook_of_stepHandshake {c : Client} {events : List Event}
    (hs : (j.shaking s h tracker admission).stepHandshake n.now j.own d = some (c, d', events)) :
    j.Shook n s h tracker admission d
      ((n.setView s true d').clientDid (.script j.own) (c, events)) := by
  unfold Client.stepHandshake at hs
  rw [find_shaking] at hs
  dsimp only at hs
  split at hs
  · cases hs
  · rename_i h' _ hp
    cases hs
    have hset : (j.shaking s h tracker admission).setDial
        { id := j.own, address := j.config.client.address, stage := .shaking s h' } =
        j.shaking s h' tracker admission := by
      simp [Client.setDial, shaking]
    rw [hset]
    exact .goes hp
  · rename_i hp
    cases hs
    have hfilter : (j.shaking s h tracker admission).dials.filter (·.id != j.own) = [] := by
      simp [shaking]
    rw [hfilter]
    exact .agrees hp
  · rename_i hp
    exact .fails hp

/-- **While it makes its handshake, the call's client can do nothing else.** -/
theorem shook_of_step
    (hrunning : n.running? j.own = some (j.running .connecting (j.shaking s h tracker admission)))
    (hlink : n.links[s]? = some d) (ht : Watch.mine j.own t) (hstep : Network.step t n = some n') :
    j.Shook n s h tracker admission d n' := by
  cases clientStepped_of_step (clientAt_running hrunning) ht hstep with
  | @waits id _ _ _ hs => by_cases hid : j.own = id <;> simp [Client.stepDial, shaking, hid] at hs
  | @refused id _ hdialing | @dials id _ _ hdialing =>
    by_cases hid : j.own = id <;> simp [Client.dialing, shaking, hid] at hdialing
  | handshake hx hstage hs =>
    obtain rfl := List.mem_singleton.mp hx
    cases hstage
    rw [view_of_link hlink, if_pos rfl] at hs
    exact shook_of_stepHandshake hs
  | engine hk => cases hk
  | relay hs | ends hs | idle hs => cases hs

/-- What a step of the call's engine comes to. -/
inductive Drove (j : Errand) (n : Network) (s : StreamId) (e : Engine) (a : Engine.Asked)
    (stage : Client.Script.Stage) (tracker : Tracker) (admission : Admission) (d : Duplex)
    (k : Engine.Task) : Network → Prop where
  | goes {e' : Engine} {d' : Duplex} {events : List Engine.Event}
      (hp : e.step ((n.clientEnv (.script j.own)).engine (j.linked s e a)) k d =
        some (e', d', events))
      (hending : Client.ending events = none) :
      Drove j n s e a stage tracker admission d k
        ((n.setView s true d').clientDid (.script j.own)
          (j.engaged (j.linked s e' a) tracker admission {} [], events.map .engine))
  | ends {e' : Engine} {d' : Duplex} {events : List Engine.Event} {r : Except Error Unit}
      (hp : e.step ((n.clientEnv (.script j.own)).engine (j.linked s e a)) k d =
        some (e', d', events))
      (hending : Client.ending events = some r) :
      Drove j n s e a stage tracker admission d k
        ((n.setView s true d').clientDid (.script j.own)
          (j.engaged { j.linked s e' a with result := some r } tracker.release admission.release {}
            [], events.map .engine ++ [.closed]))

theorem drove_of_stepEngine {k : Engine.Task} {c : Client} {events : List Event}
    (hs : (j.engaged (j.linked s e a) tracker admission {} []).stepEngine
      (n.clientEnv (.script j.own)) j.own k d = some (c, d', events)) :
    j.Drove n s e a stage tracker admission d k
      ((n.setView s true d').clientDid (.script j.own) (c, events)) := by
  have hset : ∀ k' : Client.Connection, k'.id = j.own → ∀ tracker admission,
      Client.setConnection (j.engaged (j.linked s e a) tracker admission {} []) k' =
        j.engaged k' tracker admission {} [] :=
    fun k' hid _ _ => setConnection_engaged (j.linked s e a) k' hid.symm ..
  unfold Client.stepEngine at hs
  rw [find_linked] at hs
  dsimp only at hs
  split at hs
  · cases hs
  · rename_i e' _ _ hp
    split at hs
    · rename_i hending
      rw [hset { j.linked s e a with engine := e' } rfl] at hs
      cases hs
      exact .goes hp hending
    · rename_i r hending
      rw [hset { j.linked s e a with engine := e', result := some r } rfl] at hs
      cases hs
      exact .ends hp hending

/-- **While it drives its engine, the call's client can do nothing else.** -/
theorem drove_of_step (hrunning : n.running? j.own =
      some (j.running stage (j.engaged (j.linked s e a) tracker admission {} [])))
    (hlink : n.links[s]? = some d) (ht : Watch.mine j.own t) (hstep : Network.step t n = some n') :
    ∃ k, j.Drove n s e a stage tracker admission d k n' := by
  cases clientStepped_of_step (clientAt_running hrunning) ht hstep with
  | waits _ hs => cases hs
  | refused hdialing | dials hdialing => cases hdialing
  | handshake hx => exact absurd hx List.not_mem_nil
  | @engine _ t _ _ _ _ hk hs =>
    obtain ⟨rfl, rfl⟩ := find_engaged hk
    have hview : n.view (j.linked s e a).stream true = d :=
      (view_of_link hlink true).trans (if_pos rfl)
    rw [hview] at hs
    exact ⟨t, drove_of_stepEngine hs⟩
  | relay hs =>
    unfold Client.stepRelay at hs
    split at hs
    · cases hs
    · rw [if_neg (by simp [engaged, Signal.isCancelled])] at hs
      cases hs
  | ends hs =>
    unfold Client.stepEnd at hs
    split at hs
    · cases hs
    · rename_i y hy
      obtain ⟨rfl, -⟩ := find_engaged hy
      split at hs
      · rename_i hr
        cases hr
      · cases hs
  | idle hs => simp [Client.stepIdle, engaged] at hs

/-- A handshake that can go on is not waited for. -/
theorem clientHandshake_ready
    (hrunning : n.running? j.own = some (j.running stage (j.shaking s h tracker admission)))
    (hlink : n.links[s]? = some d)
    (hready : (∃ key, h.exchange = .agreed key) ∨ h.exchange.advance .client d ≠ none) :
    Network.step (.clientHandshake (.script j.own) j.own) n ≠ none := by
  refine ready_onClientStream (s := s) (clientAt_running hrunning) (by simp [shaking]) ?_
  rw [view_of_link hlink, if_pos rfl]
  unfold Client.stepHandshake
  rw [find_shaking]
  dsimp only
  split
  · rename_i hnone
    exact absurd hnone (Handshake.step_ready hready _)
  · exact Option.some_ne_none _
  · exact Option.some_ne_none _
  · exact Option.some_ne_none _

/-- An engine that can make a step is not waited for. -/
theorem clientEngine_ready {k : Engine.Task} (hrunning : n.running? j.own =
      some (j.running stage (j.engaged (j.linked s e a) tracker admission {} [])))
    (hlink : n.links[s]? = some d)
    (hready : e.step ((n.clientEnv (.script j.own)).engine (j.linked s e a)) k d ≠ none) :
    Network.step (.clientEngine (.script j.own) j.own k) n ≠ none := by
  refine ready_onClientStream (clientAt_running hrunning)
    (Option.map_eq_some_iff.mpr ⟨_, find_linked, rfl⟩) ?_
  have hview : n.view (j.linked s e a).stream true = d :=
    (view_of_link hlink true).trans (if_pos rfl)
  rw [hview]
  unfold Client.stepEngine
  rw [find_linked]
  dsimp only
  split
  · rename_i hnone
    exact absurd hnone hready
  · split <;> exact Option.some_ne_none _

end Errand
end Parley
