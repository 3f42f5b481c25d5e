import Parley.Engine.Basic

/-! Admission: a fixed number of connection slots.

A reservation takes a free slot at once. Without one it waits in line, up to a deadline,
unless it is told to stop. A slot that is given back goes to the first in line who has
none yet; only when nobody is in line does it become free. One who leaves the line with
a slot in hand gives it back. -/
namespace Parley

/-- A place in the line. -/
structure Waiter where
  id : CallId
  due : Nat
  /-- Whether a slot was handed over and not yet taken up. -/
  granted : Bool := false
  deriving Repr, DecidableEq

structure Admission where
  max : Nat
  /-- How long a reservation waits. -/
  wait : Nat
  free : Nat
  line : List Waiter := []
  deriving Repr, DecidableEq

namespace Admission

def create (max wait : Nat) : Admission := { max, wait, free := max }

/-- Hands a slot to the first who has none. -/
def grant : List Waiter → Option (List Waiter)
  | [] => none
  | w :: rest =>
    if w.granted then (grant rest).map (w :: ·) else some ({ w with granted := true } :: rest)

/-- Gives a slot back. -/
def release (a : Admission) : Admission :=
  match grant a.line with
  | some line => { a with line }
  | none => { a with free := a.free + 1 }

/-- Leaves the line. -/
def leave (a : Admission) (id : CallId) : Admission :=
  let granted := a.line.any fun w => w.id == id && w.granted
  let a := { a with line := a.line.filter (·.id != id) }
  if granted then a.release else a

/-- Takes a free slot and says so, or goes to the end of the line. -/
def acquire (a : Admission) (id : CallId) (now : Nat) : Bool × Admission :=
  if a.free > 0 then (true, { a with free := a.free - 1 })
  else (false, { a with line := a.line ++ [{ id, due := now + a.wait }] })

/-- Asks for a slot: refused when already told to stop, admitted if one is free, else put
in line. -/
def ask (a : Admission) (id : CallId) (now : Nat) (triggered : Bool) :
    Option (Except Error Unit) × Admission :=
  if triggered then (some (.error .shutdown), a)
  else
    match a.acquire id now with
    | (true, a) => (some (.ok ()), a)
    | (false, a) => (none, a)

/-- One step of a reservation in line. Being told to stop goes before a slot in hand, and
a slot in hand before the deadline. -/
def stepWait (a : Admission) (id : CallId) (now : Nat) (cancelled : Bool) :
    Option (Except Error Unit × Admission) :=
  match a.line.find? (·.id == id) with
  | none => none
  | some w =>
    if cancelled then some (.error .shutdown, a.leave id)
    else if w.granted then some (.ok (), { a with line := a.line.filter (·.id != id) })
    else if w.due ≤ now then some (.error (.timeout .admission), a.leave id)
    else none

def dues (a : Admission) : List Nat := a.line.map (·.due)

end Admission
end Parley
