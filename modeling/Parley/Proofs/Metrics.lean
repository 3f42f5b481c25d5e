import Mathlib.Order.Basic
import Parley.Event

/-! What events come to in the counters.

`Counted` says what a list of events does to the counters that are about connections, wherever
they stand, and takes two lists one after the other (`Counted.append`). The count of the active
connections is taken twice: as the counter has it, which stops at zero, and as a gauge that goes
below zero if more is taken away than was added (`Event.weigh`). Most events are about nothing
of this (`counted_of_quiet`). -/
namespace Parley

/-- Takes an event into the gauge of the active connections. -/
def Event.weigh (g : Int) : Event → Int
  | .opened => g + 1
  | .closed => g - 1
  | _ => g

/-- Whether an event is not about the connections as such. -/
def Event.isQuiet : Event → Bool
  | .engine _ | .dropped _ | .returned .. => true
  | _ => false

/-- What some events come to, which leave `live'` connections where there were `live`. -/
structure Counted (events : List Event) (live live' accepted rejected failures : Nat) : Prop where
  gauge : ∀ g : Int, events.foldl Event.weigh g + live = g + live'
  active : ∀ m : Metrics, live ≤ m.active →
    (events.foldl Event.count m).active + live = m.active + live'
  accepted : ∀ m : Metrics, (events.foldl Event.count m).accepted = m.accepted + accepted
  rejected : ∀ m : Metrics, (events.foldl Event.count m).rejected = m.rejected + rejected
  failures : ∀ m : Metrics,
    (events.foldl Event.count m).handshakeFailures = m.handshakeFailures + failures

variable {events events' : List Event} {n live live' live'' a b c a' b' c' : Nat}

theorem Counted.nil (n : Nat) : Counted [] n n 0 0 0 :=
  ⟨fun _ => rfl, fun _ _ => rfl, fun _ => rfl, fun _ => rfl, fun _ => rfl⟩

theorem Counted.append (h : Counted events live live' a b c)
    (h' : Counted events' live' live'' a' b' c') :
    Counted (events ++ events') live live'' (a + a') (b + b') (c + c') where
  gauge g := by
    have hfirst := h.gauge g
    have hthen := h'.gauge (events.foldl Event.weigh g)
    rw [List.foldl_append]
    omega
  active m hm := by
    have hfirst := h.active m hm
    have hthen := h'.active (events.foldl Event.count m) (by omega)
    rw [List.foldl_append]
    omega
  accepted m := by rw [List.foldl_append, h'.accepted, h.accepted, Nat.add_assoc]
  rejected m := by rw [List.foldl_append, h'.rejected, h.rejected, Nat.add_assoc]
  failures m := by rw [List.foldl_append, h'.failures, h.failures, Nat.add_assoc]

/-! ### Single events -/

theorem counted_accepted (n : Nat) : Counted [.accepted] n n 1 0 0 :=
  ⟨fun _ => rfl, fun _ _ => rfl, fun _ => rfl, fun _ => rfl, fun _ => rfl⟩

theorem counted_rejected (n : Nat) : Counted [.rejected] n n 0 1 0 :=
  ⟨fun _ => rfl, fun _ _ => rfl, fun _ => rfl, fun _ => rfl, fun _ => rfl⟩

theorem counted_handshakeFailed (n : Nat) : Counted [.handshakeFailed] n n 0 0 1 :=
  ⟨fun _ => rfl, fun _ _ => rfl, fun _ => rfl, fun _ => rfl, fun _ => rfl⟩

theorem counted_opened (n : Nat) : Counted [.opened] n (n + 1) 0 0 0 where
  gauge g := by
    show g + 1 + n = g + (n + 1 : Nat)
    omega
  active m _ := by
    show m.active + 1 + n = m.active + (n + 1)
    omega
  accepted _ := rfl
  rejected _ := rfl
  failures _ := rfl

theorem counted_closed (n : Nat) : Counted [.closed] (n + 1) n 0 0 0 where
  gauge g := by
    show g - 1 + (n + 1 : Nat) = g + n
    omega
  active m hm := by
    show m.active - 1 + (n + 1) = m.active + n
    omega
  accepted _ := rfl
  rejected _ := rfl
  failures _ := rfl

theorem counted_quiet {ev : Event} (h : ev.isQuiet = true) (n : Nat) : Counted [ev] n n 0 0 0 := by
  cases ev with
  | engine e =>
    cases e <;> exact ⟨fun _ => rfl, fun _ _ => rfl, fun _ => rfl, fun _ => rfl, fun _ => rfl⟩
  | dropped
  | returned => exact ⟨fun _ => rfl, fun _ _ => rfl, fun _ => rfl, fun _ => rfl, fun _ => rfl⟩
  | accepted
  | rejected
  | handshakeFailed
  | opened
  | closed => cases h

/-- Events that are not about the connections count nothing. -/
theorem counted_of_quiet (h : ∀ ev ∈ events, ev.isQuiet = true) (n : Nat) :
    Counted events n n 0 0 0 := by
  induction events with
  | nil => exact .nil n
  | cons ev events ih =>
    obtain ⟨hev, hevents⟩ := List.forall_mem_cons.mp h
    exact (counted_quiet hev n).append (ih hevents)

theorem counted_dropped (streams : List StreamId) (n : Nat) :
    Counted (streams.map .dropped) n n 0 0 0 :=
  counted_of_quiet (List.forall_mem_map.mpr fun _ _ => rfl) n

theorem counted_engine (events : List Engine.Event) (n : Nat) :
    Counted (events.map .engine) n n 0 0 0 :=
  counted_of_quiet (List.forall_mem_map.mpr fun _ _ => rfl) n

end Parley
