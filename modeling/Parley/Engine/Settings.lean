/-! What an engine is told about sizes and time. -/
namespace Parley.Engine

/-- The largest plaintexts in each direction, and deadlines in milliseconds. -/
structure Settings where
  maxRead : Nat
  maxWrite : Nat
  /-- How long a frame may take to arrive, if there is a bound. -/
  readTimeout : Option Nat
  /-- How long one write, flush or close may take. -/
  writeTimeout : Nat
  deriving Repr, DecidableEq

end Parley.Engine
