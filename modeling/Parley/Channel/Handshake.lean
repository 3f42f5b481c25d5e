import Parley.Channel.Exchange
import Parley.Deadline

/-! A handshake under a deadline. -/
namespace Parley.Channel

structure Handshake where
  exchange : Exchange
  due : Option Nat

namespace Handshake

/-- Starts a handshake with a secret. -/
def start (secret : Bytes) (due : Option Nat) : Handshake := ⟨.start secret, due⟩

inductive Progress where
  | going (h : Handshake) (d : Duplex)
  | agreed (key : SessionKey)
  | failed (e : Error)

/-- One step; a handshake that can go on goes before a deadline that has passed. -/
def step (h : Handshake) (role : Role) (now : Nat) (d : Duplex) : Option Progress :=
  match h.exchange with
  | .agreed key => some (.agreed key)
  | x =>
    match x.advance role d with
    | some (.ok (x, d)) => some (.going { h with exchange := x } d)
    | some (.error e) => some (.failed e)
    | none => (expired h.due .handshake now).map .failed

end Handshake
end Parley.Channel
