import Parley.Bytes

/-! A source of secrets that can be replayed: given bytes in order, then one byte for ever. -/
namespace Parley.Sim

structure Entropy where
  given : Bytes
  deriving Repr, DecidableEq

namespace Entropy

/-- What the source yields once the given bytes are used up. -/
def filler : UInt8 := 0x42

def draw (e : Entropy) (n : Nat) : Bytes × Entropy :=
  (e.given.take n ++ List.replicate (n - e.given.length) filler, ⟨e.given.drop n⟩)

@[simp] theorem length_draw (e : Entropy) (n : Nat) : (e.draw n).1.length = n := by
  simp [draw]
  omega

end Entropy
end Parley.Sim
