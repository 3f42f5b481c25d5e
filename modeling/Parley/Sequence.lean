import Parley.Bytes

/-! Sequence numbers.

A counter runs through the nonzero 32-bit numbers in order and starts again at 1;
0 is never produced. -/
namespace Parley

/-- A counter, by the last number it produced; 0 before the first. -/
structure Sequence where
  last : UInt32 := 0
  deriving Repr, DecidableEq

namespace Sequence

/-- The nonzero number after `n`. -/
def after (n : UInt32) : UInt32 := if n + 1 = 0 then 1 else n + 1

def next (s : Sequence) : UInt32 × Sequence := (after s.last, ⟨after s.last⟩)

/-- The first so many numbers. -/
def take (s : Sequence) : Nat → List UInt32
  | 0 => []
  | n + 1 => s.next.1 :: s.next.2.take n

/-- The first number, counting on, that is not taken; the fuel bounds the numbers looked at. -/
def nextFreeWithin (taken : UInt32 → Bool) (s : Sequence) : Nat → UInt32 × Sequence
  | 0 => s.next
  | fuel + 1 => if taken s.next.1 then s.next.2.nextFreeWithin taken fuel else s.next

/-- The next number that is not among the given ones. One more number than there are
given ones is enough to meet a free one. -/
def nextFree (taken : List UInt32) (s : Sequence) : UInt32 × Sequence :=
  s.nextFreeWithin (fun n => taken.contains n) taken.length

theorem after_ne_zero (n : UInt32) : after n ≠ 0 := by
  unfold after
  split
  · decide
  · assumption

theorem next_ne_zero (s : Sequence) : s.next.1 ≠ 0 := after_ne_zero s.last

@[simp] theorem length_take (s : Sequence) (n : Nat) : (s.take n).length = n := by
  induction n generalizing s with
  | zero => rfl
  | succ n ih => simp [take, ih]

end Sequence
end Parley
