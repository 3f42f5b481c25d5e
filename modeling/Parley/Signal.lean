/-! Cancellation: a source that fires once, and the signals that listen to it.

A signal taken from a source reports whether the source has fired, also after the source
is gone. Waiting on it ends once the source has fired or is gone. A signal without a
source never fires. -/
namespace Parley

/-- What becomes of a source. -/
structure Shutdown where
  fired : Bool := false
  dropped : Bool := false
  deriving Repr, DecidableEq

inductive Signal where
  /-- Listens to the source. -/
  | subscribed
  | never
  deriving Repr, DecidableEq

namespace Shutdown

/-- Fires, and says whether this was the first time. -/
def trigger (s : Shutdown) : Bool × Shutdown := (!s.fired, { s with fired := true })

def drop (s : Shutdown) : Shutdown := { s with dropped := true }

end Shutdown

namespace Signal

def isTriggered (source : Shutdown) : Signal → Bool
  | .subscribed => source.fired
  | .never => false

/-- Whether waiting on the signal is over. -/
def isCancelled (source : Shutdown) : Signal → Bool
  | .subscribed => source.fired || source.dropped
  | .never => false

end Signal
end Parley
