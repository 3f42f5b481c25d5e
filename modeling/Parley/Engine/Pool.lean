import Parley.Engine.Basic

/-! Carriers of queued frames, and the pool that keeps idle ones.

A carrier is emptied when it is released, so that nothing of one frame reaches the next.
The pool keeps a bounded number, last released first taken, and none whose buffer has
grown too large. -/
namespace Parley.Engine

structure Carrier where
  seq : UInt32 := 0
  buffer : Bytes := []
  /-- How many bytes the buffer holds before it has to grow. -/
  capacity : Nat := 0
  waiter : Option CallId := none
  deriving Repr, DecidableEq

namespace Carrier

/-- The largest buffer that a released carrier keeps. -/
def maxRetained : Nat := 65536

/-- Without anything of its last use. -/
def recycled (c : Carrier) : Carrier := { c with seq := 0, buffer := [], waiter := none }

/-- The capacity after a buffer has grown to hold so many bytes: at least twice what it was. -/
def grown (capacity length : Nat) : Nat :=
  if length ≤ capacity then capacity else max (max (2 * capacity) length) 8

/-- Takes a frame's sequence number, payload, and its waiter if there is one: the buffer is added
to, and a waiter that is there stays where none is given. -/
def load (c : Carrier) (f : Frame) (waiter : Option CallId) : Carrier :=
  let buffer := c.buffer ++ f.payload
  { seq := f.seq, buffer, capacity := grown c.capacity buffer.length
    waiter := waiter.or c.waiter }

/-- Around a payload in a buffer of its own. -/
def wrap (f : Frame) (capacity : Nat) : Carrier := { seq := f.seq, buffer := f.payload, capacity }

/-- What the write loop gets. -/
def outgoing (c : Carrier) : Outgoing := { frame := ⟨c.seq, c.buffer⟩, waiter := c.waiter }

end Carrier

structure Pool where
  capacity : Nat
  idle : List Carrier := []
  deriving Repr, DecidableEq

namespace Pool

/-- Takes the carrier released last, or a fresh one. -/
def acquire (p : Pool) : Carrier × Pool :=
  match p.idle with
  | [] => ({}, p)
  | c :: idle => (c, { p with idle })

/-- Empties a carrier and keeps it, if its buffer is not too large and there is room. -/
def release (p : Pool) (c : Carrier) : Pool :=
  if c.capacity ≤ Carrier.maxRetained ∧ p.idle.length < p.capacity then
    { p with idle := c.recycled :: p.idle }
  else p

/-- Takes a carrier and loads it. -/
def carry (p : Pool) (f : Frame) (waiter : Option CallId) : Carrier × Pool :=
  let (c, p) := p.acquire
  (c.load f waiter, p)

end Pool
end Parley.Engine
