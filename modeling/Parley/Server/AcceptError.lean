import Parley.Error

/-! What the accept loop makes of an accept error.

A listener that is gone ends the loop quietly; a connection that failed before it was
taken, or a shortage of resources, is waited out; anything else ends the loop with the
error. -/
namespace Parley.Server

inductive AcceptVerdict where
  /-- The listener is gone. -/
  | closed
  /-- Worth another try after a pause. -/
  | transient
  | fatal
  deriving Repr, DecidableEq

/-- The system's error numbers for a shortage of file descriptors or buffers, which have
no kind of their own. -/
def shortageCodes : List Int := [23, 24, 105]

def classifyAccept (e : IoError) : AcceptVerdict :=
  match e.kind with
  | .unexpectedEof | .notConnected => .closed
  | .connectionAborted | .connectionReset | .connectionRefused | .interrupted
  | .wouldBlock | .timedOut | .outOfMemory => .transient
  | _ => if e.code.any shortageCodes.contains then .transient else .fatal

end Parley.Server
