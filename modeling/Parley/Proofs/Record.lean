import Parley.Event
import Parley.Proofs.Keyed

/-! What has happened at a server or at a client: which calls were made, what became of them, and
how many connections were started. -/
namespace Parley

structure Record where
  /-- Every call ever made. -/
  calls : List CallId := []
  /-- The calls that were dropped. -/
  dropped : List CallId := []
  /-- What calls returned. -/
  returned : List (CallId × Engine.Outcome) := []
  /-- The calls to shut down that have returned. -/
  rested : List CallId := []
  /-- How many connections were started. -/
  opened : Nat := 0

namespace Record

/-- Takes an event into the record. -/
def note (r : Record) : Event → Record
  | .returned id o => { r with returned := r.returned ++ [(id, o)] }
  | .opened => { r with opened := r.opened + 1 }
  | _ => r

/-- A call is made. -/
def making (r : Record) (id : CallId) : Record := { r with calls := r.calls ++ [id] }

/-- A call is dropped. -/
def dropping (r : Record) (id : CallId) : Record := { r with dropped := r.dropped ++ [id] }

/-- A call to shut down has returned. -/
def resting (r : Record) (id : CallId) : Record := { r with rested := r.rested ++ [id] }

/-- The calls that returned or were dropped. -/
def finished (r : Record) : List CallId := r.returned.map (·.1) ++ r.dropped

variable (r : Record)

/-- Events that are no concern of the record leave it as it is. -/
theorem notes_eq {events : List Event} (h : ∀ ev ∈ events, r.note ev = r) :
    events.foldl note r = r := by
  induction events with
  | nil => rfl
  | cons ev events ih =>
    obtain ⟨hev, hevents⟩ := List.forall_mem_cons.mp h
    rw [List.foldl_cons, hev, ih hevents]

theorem notes_dropped (streams : List StreamId) : (streams.map Event.dropped).foldl note r = r :=
  r.notes_eq fun ev hev => by
    obtain ⟨stream, -, rfl⟩ := List.mem_map.mp hev
    rfl

theorem notes_engine (events : List Engine.Event) : (events.map Event.engine).foldl note r = r :=
  r.notes_eq fun ev hev => by
    obtain ⟨e, -, rfl⟩ := List.mem_map.mp hev
    rfl

/-- No event is about the calls that were dropped, or about those of them that shut down. -/
theorem notes_kept (events : List Event) :
    (events.foldl note r).rested = r.rested ∧ (events.foldl note r).dropped = r.dropped := by
  induction events generalizing r with
  | nil => exact ⟨rfl, rfl⟩
  | cons ev events ih =>
    have hev : (r.note ev).rested = r.rested ∧ (r.note ev).dropped = r.dropped := by
      cases ev <;> exact ⟨rfl, rfl⟩
    obtain ⟨hrested, hdropped⟩ := ih (r.note ev)
    exact ⟨hrested.trans hev.1, hdropped.trans hev.2⟩

/-- What a call returned is not undone. -/
theorem notes_returned (events : List Event) :
    r.returned <+: (events.foldl note r).returned := by
  induction events generalizing r with
  | nil => exact List.prefix_rfl
  | cons ev events ih =>
    refine List.IsPrefix.trans ?_ (ih (r.note ev))
    cases ev <;> first | exact List.prefix_rfl | exact List.prefix_append _ _

/-- A call that returns is over. -/
theorem perm_returned (id : CallId) (o : Engine.Outcome) :
    (r.note (.returned id o)).finished.Perm (id :: r.finished) := by
  rw [finished, note, List.map_append, List.append_assoc]
  exact List.perm_middle

/-- And so is one that is dropped. -/
theorem perm_dropping (id : CallId) : (r.dropping id).finished.Perm (id :: r.finished) := by
  rw [finished, dropping, ← List.append_assoc]
  exact List.perm_append_singleton _ _

/-! A call that is over has come to one thing. -/

theorem mem_finished {id : CallId} {o : Engine.Outcome} (h : (id, o) ∈ r.returned) :
    id ∈ r.finished :=
  List.mem_append_left _ (List.mem_map_of_mem h)

theorem eq_of_returned (hr : r.finished.Nodup) {id : CallId} {o o' : Engine.Outcome}
    (h : (id, o) ∈ r.returned) (h' : (id, o') ∈ r.returned) : o = o' :=
  congrArg Prod.snd (Keyed.eq_of_mem (k := Prod.fst) (List.nodup_append.mp hr).1 h h' rfl)

theorem not_dropped_of_returned (hr : r.finished.Nodup) {id : CallId} {o : Engine.Outcome}
    (h : (id, o) ∈ r.returned) : id ∉ r.dropped := fun hdropped =>
  (List.nodup_append.mp hr).2.2 _ (List.mem_map_of_mem h) _ hdropped rfl

end Record
end Parley
