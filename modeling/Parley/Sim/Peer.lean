import Parley.Channel.Pipe

/-! A far end that sends and reads plain bytes.

It sends what it is told in order, as room allows, and then may shut its direction
down; it reads as much as its appetite allows and remembers what it heard. -/
namespace Parley.Sim
open Channel

structure Peer where
  /-- Bytes still to be sent. -/
  outbox : Bytes := []
  /-- Whether the direction is shut down once the outbox is empty. -/
  finishing : Bool := false
  /-- How many bytes it still reads; no bound if absent. -/
  appetite : Option Nat := none
  /-- What it has read and not yet reported. -/
  heard : Bytes := []
  sawEnd : Bool := false
  gone : Bool := false
  deriving Repr, DecidableEq

namespace Peer

def send (p : Peer) (bs : Bytes) : Peer := { p with outbox := p.outbox ++ bs }

def finish (p : Peer) : Peer := { p with finishing := true }

/-- Reads so many bytes more, or everything from now on. -/
def feed (p : Peer) (n : Option Nat) : Peer :=
  { p with appetite := match p.appetite, n with
      | some a, some n => some (a + n)
      | _, _ => none }

/-- What was heard since the last report. -/
def report (p : Peer) : Bytes × Peer := (p.heard, { p with heard := [] })

/-- Gives its end up. -/
def drop (p : Peer) (d : Duplex) : Peer × Duplex :=
  if p.gone then (p, d) else ({ p with gone := true, outbox := [], finishing := false }, d.hangUp)

/-- Sends what fits, or shuts its direction down. -/
def stepSend (p : Peer) (d : Duplex) : Option (Peer × Duplex) :=
  if p.gone then none
  else if p.outbox ≠ [] then
    (d.outgoing.push p.outbox).map fun
      | .error _ => ({ p with outbox := [] }, d)
      | .ok (rest, outgoing) => ({ p with outbox := rest }, { d with outgoing })
  else if p.finishing then some ({ p with finishing := false }, { d with outgoing := d.outgoing.close })
  else none

/-- Reads what has arrived, within its appetite. -/
def stepRead (p : Peer) (d : Duplex) : Option (Peer × Duplex) :=
  if p.gone || p.sawEnd || p.appetite == some 0 then none
  else
    (d.incoming.pull (p.appetite.getD d.incoming.held.length)).map fun
      | ([], incoming) => ({ p with sawEnd := true }, { d with incoming })
      | (bs, incoming) =>
        ({ p with
            heard := p.heard ++ bs
            appetite := p.appetite.map (· - bs.length) }, { d with incoming })

end Peer
end Parley.Sim
