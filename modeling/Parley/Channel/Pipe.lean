import Parley.Bytes
import Parley.Error

/-! Byte pipes of bounded capacity.

A pipe carries bytes one way. A write takes as many bytes as there is room for and
waits while there is none; a read takes what is there and waits while there is
nothing. A pipe is closed when its writer has finished or either end is gone: what is
in it can still be read, then comes the end of the stream, and writing fails.

Nothing is lost or invented in between: `push_conserves`, `pull_conserves`. -/
namespace Parley.Channel

structure Pipe where
  capacity : Nat
  held : Bytes := []
  closed : Bool := false
  deriving Repr, DecidableEq

namespace Pipe

def room (p : Pipe) : Nat := p.capacity - p.held.length

def close (p : Pipe) : Pipe := { p with closed := true }

/-- Writes what fits and returns the rest; waits while nothing fits. -/
def push (p : Pipe) (bs : Bytes) : Option (Except IoError (Bytes × Pipe)) :=
  if p.closed then some (.error .brokenPipe)
  else if p.room = 0 then none
  else some (.ok (bs.drop p.room, { p with held := p.held ++ bs.take p.room }))

/-- Reads at most `max` bytes; none at all means the end of the stream. Waits while the
pipe is open and empty. -/
def pull (p : Pipe) (max : Nat) : Option (Bytes × Pipe) :=
  if p.held = [] then if p.closed then some ([], p) else none
  else some (p.held.take max, { p with held := p.held.drop max })

/-! ### Conservation -/

theorem push_conserves {p p' : Pipe} {bs rest : Bytes} (h : p.push bs = some (.ok (rest, p'))) :
    p'.held ++ rest = p.held ++ bs := by
  simp only [push] at h
  split at h
  · cases h
  · split at h
    · cases h
    · cases h
      simp [List.append_assoc, List.take_append_drop]

theorem pull_conserves {p p' : Pipe} {max : Nat} {taken : Bytes}
    (h : p.pull max = some (taken, p')) : taken ++ p'.held = p.held := by
  simp only [pull] at h
  split at h
  · split at h
    · cases h; rfl
    · cases h
  · cases h
    simp

end Pipe

/-- One end's view of a stream: the pipe it writes and the pipe it reads. -/
structure Duplex where
  outgoing : Pipe
  incoming : Pipe
  deriving Repr, DecidableEq

namespace Duplex

/-- A fresh stream whose directions hold so many bytes. -/
def ofCapacity (capacity : Nat) : Duplex := ⟨{ capacity }, { capacity }⟩

/-- The same stream, seen from the other end. -/
def flip (d : Duplex) : Duplex := ⟨d.incoming, d.outgoing⟩

/-- Gives up this end: nothing more is written, and the far end's writes fail. -/
def hangUp (d : Duplex) : Duplex := ⟨d.outgoing.close, d.incoming.close⟩

@[simp] theorem flip_flip (d : Duplex) : d.flip.flip = d := rfl

end Duplex
end Parley.Channel
