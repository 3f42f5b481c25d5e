import Parley.Engine.Pool

/-! What waits in a pool of carriers.

Whatever was done with a carrier since it was taken, and wherever it came from, it is given back
with nothing left in it, or not kept (`Pool.Clean.release`). So a carrier that is taken is like a
fresh one, and one that is loaded holds its frame and its waiter and nothing else
(`Pool.Clean.carry`). -/
namespace Parley.Engine

namespace Carrier

/-- Nothing of an earlier use is left, and the buffer is not too large to be kept. -/
structure Blank (c : Carrier) : Prop where
  seq : c.seq = 0
  buffer : c.buffer = []
  waiter : c.waiter = none
  capacity : c.capacity ≤ maxRetained

variable {c : Carrier}

theorem blank_fresh : Blank {} := ⟨rfl, rfl, rfl, Nat.zero_le _⟩

theorem blank_recycled (h : c.capacity ≤ maxRetained) : c.recycled.Blank := ⟨rfl, rfl, rfl, h⟩

/-- A carrier that is loaded holds this and nothing else. -/
structure Holds (c : Carrier) (f : Frame) (waiter : Option CallId) : Prop where
  seq : c.seq = f.seq
  buffer : c.buffer = f.payload
  waiter : c.waiter = waiter

theorem Blank.load (h : c.Blank) (f : Frame) (waiter : Option CallId) :
    (c.load f waiter).Holds f waiter where
  seq := rfl
  buffer := by
    show c.buffer ++ f.payload = f.payload
    rw [h.buffer, List.nil_append]
  waiter := by
    show waiter.or c.waiter = waiter
    rw [h.waiter, Option.or_none]

theorem holds_iff {f : Frame} {waiter : Option CallId} :
    c.Holds f waiter ↔ c.outgoing = { frame := f, waiter } := by
  constructor
  · rintro ⟨hseq, hbuffer, hwaiter⟩
    rw [outgoing, hseq, hbuffer, hwaiter]
  · intro h
    obtain ⟨hframe, hwaiter⟩ := Outgoing.mk.inj h
    exact ⟨congrArg Frame.seq hframe, congrArg Frame.payload hframe, hwaiter⟩

end Carrier

namespace Pool

/-- Only blank carriers wait, and no more than there is room for. -/
structure Clean (p : Pool) : Prop where
  blank : ∀ c ∈ p.idle, c.Blank
  bound : p.idle.length ≤ p.capacity

variable {p : Pool}

theorem clean_empty (capacity : Nat) : Clean { capacity } :=
  ⟨fun _ hc => absurd hc List.not_mem_nil, Nat.zero_le _⟩

@[simp] theorem capacity_acquire (p : Pool) : p.acquire.2.capacity = p.capacity := by
  unfold acquire
  split <;> rfl

@[simp] theorem capacity_release (p : Pool) (c : Carrier) :
    (p.release c).capacity = p.capacity := by
  unfold release
  split <;> rfl

@[simp] theorem capacity_releaseAll (p : Pool) (cs : List Carrier) :
    (cs.foldl release p).capacity = p.capacity := by
  induction cs generalizing p with
  | nil => rfl
  | cons c cs ih => rw [List.foldl_cons, ih, capacity_release]

/-- One carrier less waits, if any does. -/
theorem length_acquire (p : Pool) : p.acquire.2.idle.length = p.idle.length - 1 := by
  unfold acquire
  cases hidle : p.idle with
  | nil => exact congrArg List.length hidle
  | cons c idle => rfl

/-- One carrier more waits if this one is kept, and else as many as before. -/
theorem length_release (p : Pool) (c : Carrier) : (p.release c).idle.length =
    if c.capacity ≤ Carrier.maxRetained ∧ p.idle.length < p.capacity then p.idle.length + 1
    else p.idle.length := by
  unfold release
  split <;> rfl

/-- What is taken from a clean pool is like a fresh carrier. -/
theorem Clean.acquire (h : p.Clean) : p.acquire.1.Blank ∧ p.acquire.2.Clean := by
  obtain ⟨hblank, hbound⟩ := h
  unfold Pool.acquire
  cases hidle : p.idle with
  | nil =>
    exact ⟨Carrier.blank_fresh, hblank, hbound⟩
  | cons c idle =>
    rw [hidle] at hblank hbound
    obtain ⟨hc, hidle⟩ := List.forall_mem_cons.mp hblank
    exact ⟨hc, hidle, Nat.le_of_succ_le hbound⟩

theorem Clean.release (h : p.Clean) (c : Carrier) : (p.release c).Clean := by
  unfold Pool.release
  split
  · rename_i hkept
    exact ⟨List.forall_mem_cons.mpr ⟨Carrier.blank_recycled hkept.1, h.blank⟩, hkept.2⟩
  · exact h

theorem Clean.releaseAll (h : p.Clean) (cs : List Carrier) : (cs.foldl Pool.release p).Clean :=
  List.foldlRecOn cs _ h fun _ hp c _ => hp.release c

/-- A carrier that is taken and loaded holds what it is loaded with. -/
theorem Clean.carry (h : p.Clean) (f : Frame) (waiter : Option CallId) :
    (p.carry f waiter).1.Holds f waiter ∧ (p.carry f waiter).2.Clean :=
  ⟨h.acquire.1.load f waiter, h.acquire.2⟩

theorem Clean.outgoing_carry (h : p.Clean) (f : Frame) (waiter : Option CallId) :
    (p.carry f waiter).1.outgoing = { frame := f, waiter } :=
  Carrier.holds_iff.mp (h.carry f waiter).1

end Pool

end Parley.Engine
