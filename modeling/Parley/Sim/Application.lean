import Parley.Bytes

/-! Applications of engines: how they reply to a request. -/
namespace Parley.Sim

inductive Application where
  | silent
  /-- Replies with the request itself. -/
  | echo
  | reverse
  /-- Replies with nothing in it. -/
  | empty
  /-- Echoes, but does not reply to an empty request. -/
  | nonempty
  /-- Replies with the request twice over. -/
  | double
  | fixed (reply : Bytes)
  deriving Repr, DecidableEq

def Application.reply : Application → Bytes → Option Bytes
  | .silent, _ => none
  | .echo, payload => some payload
  | .reverse, payload => some payload.reverse
  | .empty, _ => some []
  | .nonempty, payload => if payload = [] then none else some payload
  | .double, payload => some (payload ++ payload)
  | .fixed reply, _ => some reply

end Parley.Sim
