import Mathlib.Data.List.Dedup
import Mathlib.Data.List.Nodup
import Parley.Sequence

/-! Which numbers a counter produces.

The nonzero numbers come round in a fixed order, so that a counter produces all of them
before any comes again (`nodup_take`). The search for a number that is not taken therefore
finds one as long as there is one (`nextFree_not_mem`), and takes the very next number where
that one is free (`nextFree_of_not_mem`).

Without a bound on the numbers looked at the search is a relation, `Search`. It comes to an end
exactly if some nonzero number is free (`exists_search_iff`), and then with the number that the
bounded one finds, which is the first that is free (`nextFree_first`).

Wherever in a run of calls one begins, a round is all the nonzero numbers, and after it the same
come again (`numbers_come_round`). -/
namespace Parley.Sequence

/-- How many numbers there are. -/
def count : Nat := UInt32.size - 1

/-- The place of a number in the round; 0 stands with the last. -/
def place (n : UInt32) : Nat := (n.toNat + (count - 1)) % count

theorem toNat_after (n : UInt32) :
    (after n).toNat = if n.toNat + 1 = UInt32.size then 1 else n.toNat + 1 := by
  have hn : n.toNat < UInt32.size := n.toNat_lt
  have hadd : (n + 1).toNat = (n.toNat + 1) % UInt32.size := UInt32.toNat_add n 1
  unfold after
  by_cases hlast : n.toNat + 1 = UInt32.size
  · have hzero : n + 1 = 0 := UInt32.toNat_inj.mp (by rw [hadd, hlast]; rfl)
    rw [if_pos hzero, if_pos hlast]
    rfl
  · have hlt : n.toNat + 1 < UInt32.size := by omega
    have hne : n + 1 ≠ 0 := by
      intro hzero
      rw [hzero, Nat.mod_eq_of_lt hlt] at hadd
      exact absurd hadd (by simp)
    rw [if_neg hne, if_neg hlast, hadd, Nat.mod_eq_of_lt hlt]

theorem place_after (n : UInt32) : place (after n) = (place n + 1) % count := by
  have hn : n.toNat < UInt32.size := n.toNat_lt
  rw [place, place, toNat_after]
  simp only [count, UInt32.size] at hn ⊢
  split <;> omega

/-- The numbers of a counter stand one after another. -/
theorem place_take (s : Sequence) (n : Nat) :
    (s.take n).map place = (List.range n).map fun k => (place s.last + 1 + k) % count := by
  induction n generalizing s with
  | zero => rfl
  | succ n ih =>
    have hround : ∀ k, ((place s.last + 1) % count + 1 + k) % count =
        (place s.last + 1 + (k + 1)) % count := by
      intro k
      rw [Nat.add_assoc, Nat.mod_add_mod, Nat.add_comm 1 k]
    simp only [take, next, List.map_cons, ih, List.range_succ_eq_map, List.map_map,
      Function.comp_def, place_after, hround, Nat.add_zero, Nat.succ_eq_add_one]

/-- No number comes twice in a round. -/
theorem nodup_take (s : Sequence) {n : Nat} (h : n ≤ count) : (s.take n).Nodup := by
  apply List.Nodup.of_map place
  rw [place_take]
  refine List.Nodup.map_on (fun i hi j hj hij => ?_) List.nodup_range
  rw [List.mem_range] at hi hj
  simp only [count, UInt32.size] at hij h
  omega

/-- Where the search ends at a number that is taken, it has seen taken numbers only. -/
theorem taken_of_nextFreeWithin (taken : UInt32 → Bool) (s : Sequence) (fuel : Nat)
    (h : taken (s.nextFreeWithin taken fuel).1 = true) :
    ∀ n ∈ s.take (fuel + 1), taken n = true := by
  induction fuel generalizing s with
  | zero =>
    intro n hn
    rw [take, take, List.mem_singleton] at hn
    rw [hn]
    exact h
  | succ fuel ih =>
    rw [nextFreeWithin] at h
    split at h
    · rename_i hnext
      intro n hn
      rw [take] at hn
      rcases List.mem_cons.mp hn with rfl | hn
      · exact hnext
      · exact ih s.next.2 h n hn
    · rename_i hnext
      exact absurd h hnext

/-- **The search finds a number that is free**, as long as not all are taken. -/
theorem nextFree_not_mem {taken : List UInt32} (h : taken.length < count) (s : Sequence) :
    (s.nextFree taken).1 ∉ taken := by
  intro hmem
  have hall := taken_of_nextFreeWithin (fun n => taken.contains n) s taken.length
    (List.contains_iff_mem.mpr hmem)
  have hlen := (nodup_take s h).length_le_of_subset fun n hn => List.contains_iff_mem.mp (hall n hn)
  rw [length_take] at hlen
  omega

theorem nextFreeWithin_ne_zero (taken : UInt32 → Bool) (s : Sequence) (fuel : Nat) :
    (s.nextFreeWithin taken fuel).1 ≠ 0 := by
  induction fuel generalizing s with
  | zero => exact next_ne_zero s
  | succ fuel ih =>
    rw [nextFreeWithin]
    split
    · exact ih s.next.2
    · exact next_ne_zero s

/-- The next number is taken if it is free. -/
theorem nextFree_of_not_mem {taken : List UInt32} {s : Sequence} (h : s.next.1 ∉ taken) :
    s.nextFree taken = s.next := by
  unfold nextFree
  cases taken.length with
  | zero => rfl
  | succ fuel =>
    rw [nextFreeWithin, if_neg]
    rw [List.contains_iff_mem]
    exact h

/-! ### The first number that is free -/

/-- The number so many places after the very next one. The nonzero numbers are counted round. -/
def ahead (s : Sequence) (k : Nat) : UInt32 := UInt32.ofNat ((s.last.toNat + k) % count + 1)

theorem toNat_ahead (s : Sequence) (k : Nat) :
    (s.ahead k).toNat = (s.last.toNat + k) % count + 1 := by
  refine UInt32.toNat_ofNat_of_lt' ?_
  have hlt : (s.last.toNat + k) % count < count := Nat.mod_lt _ (by decide)
  rw [count] at hlt ⊢
  omega

theorem ahead_ne_zero (s : Sequence) (k : Nat) : s.ahead k ≠ 0 := by
  intro hzero
  have htoNat := toNat_ahead s k
  rw [hzero] at htoNat
  cases htoNat

@[simp] theorem ahead_zero (s : Sequence) : s.ahead 0 = s.next.1 := by
  have hlast : s.last.toNat < UInt32.size := s.last.toNat_lt
  refine UInt32.toNat_inj.mp ?_
  rw [toNat_ahead, next, toNat_after, Nat.add_zero]
  simp only [count, UInt32.size] at hlast ⊢
  split <;> omega

/-- Counting on from the next number is counting on from one place further. -/
theorem ahead_succ (s : Sequence) (k : Nat) : s.ahead (k + 1) = s.next.2.ahead k := by
  have hlast : s.last.toNat < UInt32.size := s.last.toNat_lt
  refine UInt32.toNat_inj.mp ?_
  rw [toNat_ahead, toNat_ahead]
  show _ = ((after s.last).toNat + k) % count + 1
  rw [toNat_after]
  simp only [count, UInt32.size] at hlast ⊢
  split <;> omega

theorem take_eq_ahead (s : Sequence) (n : Nat) : s.take n = (List.range n).map s.ahead := by
  induction n generalizing s with
  | zero => rfl
  | succ n ih =>
    rw [take, ih, List.range_succ_eq_map, List.map_cons, List.map_map, ahead_zero]
    refine congrArg _ (List.map_congr_left fun k _ => ?_)
    exact (ahead_succ s k).symm

/-- The search with no bound on the numbers looked at: one number after another, up to the first
that is not taken. -/
inductive Search (taken : List UInt32) : Sequence → UInt32 × Sequence → Prop where
  | found {s : Sequence} (hfree : s.next.1 ∉ taken) : Search taken s s.next
  | passed {s : Sequence} {r : UInt32 × Sequence} (htaken : s.next.1 ∈ taken)
      (hrest : Search taken s.next.2 r) : Search taken s r

section
variable {taken : List UInt32} {s : Sequence} {k : Nat}

/-- The search comes to the first number that is free. -/
theorem search_of_first (hfree : s.ahead k ∉ taken) (htaken : ∀ j < k, s.ahead j ∈ taken) :
    Search taken s (s.ahead k, ⟨s.ahead k⟩) := by
  induction k generalizing s with
  | zero =>
    rw [ahead_zero] at hfree ⊢
    exact .found hfree
  | succ k ih =>
    rw [ahead_succ] at hfree ⊢
    refine .passed ?_ (ih hfree fun j hj => ?_)
    · have hnext := htaken 0 (Nat.succ_pos k)
      rwa [ahead_zero] at hnext
    · have hlater := htaken (j + 1) (Nat.succ_lt_succ hj)
      rwa [ahead_succ] at hlater

/-- And to that alone. -/
theorem first_of_search {r : UInt32 × Sequence} (h : Search taken s r) :
    ∃ k, r = (s.ahead k, ⟨s.ahead k⟩) ∧ s.ahead k ∉ taken ∧ ∀ j < k, s.ahead j ∈ taken := by
  induction h with
  | found hfree => exact ⟨0, by rw [ahead_zero]; rfl, by rwa [ahead_zero], fun j hj => by omega⟩
  | passed htaken _ ih =>
    obtain ⟨k, rfl, hfree, hpassed⟩ := ih
    refine ⟨k + 1, by rw [ahead_succ], by rwa [ahead_succ], fun j hj => ?_⟩
    cases j with
    | zero => rwa [ahead_zero]
    | succ j =>
      rw [ahead_succ]
      exact hpassed j (Nat.lt_of_succ_lt_succ hj)

theorem search_unique {r r' : UInt32 × Sequence} (h : Search taken s r) (h' : Search taken s r') :
    r = r' := by
  induction h with
  | found hfree =>
    cases h' with
    | found => rfl
    | passed htaken => exact absurd htaken hfree
  | passed htaken _ ih =>
    cases h' with
    | found hfree => exact absurd htaken hfree
    | passed _ hrest => exact ih hrest

/-- How many nonzero numbers are taken. -/
def used (taken : List UInt32) : Nat := (taken.filter (· ≠ 0)).dedup.length

theorem used_le_length (taken : List UInt32) : used taken ≤ taken.length :=
  Nat.le_trans (List.dedup_sublist _).length_le (List.length_filter_le _ _)

/-- A search passes each number that is taken once at most. -/
theorem le_used (h : used taken < count) (htaken : ∀ j < k, s.ahead j ∈ taken) :
    k ≤ used taken := by
  by_contra hmore
  have hall : s.take (used taken + 1) ⊆ (taken.filter (· ≠ 0)).dedup := by
    intro n hn
    rw [take_eq_ahead] at hn
    obtain ⟨j, hj, rfl⟩ := List.mem_map.mp hn
    rw [List.mem_range] at hj
    rw [List.mem_dedup, List.mem_filter]
    exact ⟨htaken j (by omega), decide_eq_true (ahead_ne_zero s j)⟩
  have hlen := (nodup_take s (Nat.succ_le_of_lt h)).length_le_of_subset hall
  rw [length_take] at hlen
  exact Nat.not_succ_le_self _ hlen

/-- The search with fuel comes to the first number that is free, or looks at taken ones only. -/
theorem nextFreeWithin_first (taken : List UInt32) (s : Sequence) (fuel : Nat) :
    (∃ k, s.nextFreeWithin (fun n => taken.contains n) fuel = (s.ahead k, ⟨s.ahead k⟩) ∧
      s.ahead k ∉ taken ∧ ∀ j < k, s.ahead j ∈ taken) ∨ ∀ j < fuel + 1, s.ahead j ∈ taken := by
  induction fuel generalizing s with
  | zero =>
    by_cases hnext : s.next.1 ∈ taken
    · refine .inr fun j hj => ?_
      obtain rfl := Nat.lt_one_iff.mp hj
      rwa [ahead_zero]
    · exact .inl ⟨0, by rw [ahead_zero]; rfl, by rwa [ahead_zero], fun j hj => by omega⟩
  | succ fuel ih =>
    rw [nextFreeWithin]
    split
    · rename_i hnext
      rw [List.contains_iff_mem] at hnext
      have hpassed : ∀ n, (∀ j < n, s.next.2.ahead j ∈ taken) → ∀ j < n + 1, s.ahead j ∈ taken := by
        intro n hall j hj
        cases j with
        | zero => rwa [ahead_zero]
        | succ j =>
          rw [ahead_succ]
          exact hall j (Nat.lt_of_succ_lt_succ hj)
      rcases ih s.next.2 with ⟨k, heq, hfree, htaken⟩ | hall
      · exact .inl ⟨k + 1, by rw [heq, ahead_succ], by rwa [ahead_succ], hpassed k htaken⟩
      · exact .inr (hpassed _ hall)
    · rename_i hnext
      rw [List.contains_iff_mem] at hnext
      exact .inl ⟨0, by rw [ahead_zero]; rfl, by rwa [ahead_zero], fun j hj => by omega⟩

/-- **The next free number is the first that is free**, counting on from the last one, and the
counter is left there. -/
theorem nextFree_first (h : used taken < count) (s : Sequence) :
    ∃ k ≤ used taken, s.nextFree taken = (s.ahead k, ⟨s.ahead k⟩) ∧ s.ahead k ∉ taken ∧
      ∀ j < k, s.ahead j ∈ taken := by
  rcases nextFreeWithin_first taken s taken.length with ⟨k, heq, hfree, htaken⟩ | hall
  · exact ⟨k, le_used h htaken, heq, hfree, htaken⟩
  · have hle := le_used h hall
    have hlength := used_le_length taken
    omega

/-- The search with no bound comes to an end exactly if not all nonzero numbers are taken. -/
theorem exists_search_iff (taken : List UInt32) (s : Sequence) :
    (∃ r, Search taken s r) ↔ used taken < count := by
  constructor
  · rintro ⟨r, hr⟩
    obtain ⟨k, -, hfree, -⟩ := first_of_search hr
    -- With the free number there are no more than there are numbers.
    have hnodup : (s.ahead k :: (taken.filter (· ≠ 0)).dedup).Nodup :=
      List.nodup_cons.mpr ⟨fun hk => hfree (List.mem_of_mem_filter (List.mem_dedup.mp hk)),
        List.nodup_dedup _⟩
    have hsub : (s.ahead k :: (taken.filter (· ≠ 0)).dedup).map UInt32.toNat ⊆
        List.range' 1 count := by
      intro m hm
      obtain ⟨n, hn, rfl⟩ := List.mem_map.mp hm
      have hne : n ≠ 0 := by
        rcases List.mem_cons.mp hn with rfl | hn
        · exact ahead_ne_zero s k
        · exact of_decide_eq_true (List.mem_filter.mp (List.mem_dedup.mp hn)).2
      have hpos : 0 < n.toNat := UInt32.pos_iff_ne_zero.mpr hne
      have hlt : n.toNat < UInt32.size := n.toNat_lt
      rw [List.mem_range'_1, count]
      omega
    have hlen := (hnodup.map fun _ _ h => UInt32.toNat_inj.mp h).length_le_of_subset hsub
    rw [List.length_map, List.length_cons, List.length_range'] at hlen
    exact hlen
  · intro h
    obtain ⟨k, -, -, hfree, htaken⟩ := nextFree_first h s
    exact ⟨_, search_of_first hfree htaken⟩

end

/-! ### The round -/

theorem getElem?_take (s : Sequence) {k n : Nat} (h : k < n) :
    (s.take n)[k]? = some (s.ahead k) := by
  rw [take_eq_ahead, List.getElem?_map, List.getElem?_range h]
  rfl

/-- Results that follow one another in a run of calls. -/
theorem window_take (s : Sequence) (k n m : Nat) :
    ((s.take (k + n + m)).drop k).take n = (List.range n).map fun i => s.ahead (k + i) := by
  refine List.ext_getElem? fun i => ?_
  rw [List.getElem?_take, List.getElem?_drop, List.getElem?_map]
  by_cases hi : i < n
  · rw [if_pos hi, getElem?_take s (by omega), List.getElem?_range hi]
    rfl
  · rw [if_neg hi, List.getElem?_eq_none (by rw [List.length_range]; omega)]
    rfl

/-- Counting on by a whole round comes to the same number. -/
theorem ahead_add_count (s : Sequence) (k : Nat) : s.ahead (k + count) = s.ahead k := by
  rw [ahead, ahead, ← Nat.add_assoc, Nat.add_mod_right]

theorem ahead_inj (s : Sequence) {k i j : Nat} (hi : i < count) (hj : j < count)
    (h : s.ahead (k + i) = s.ahead (k + j)) : i = j := by
  have htoNat := congrArg UInt32.toNat h
  rw [toNat_ahead, toNat_ahead] at htoNat
  simp only [count, UInt32.size] at hi hj htoNat
  omega

/-- Every nonzero number is met within a round, wherever it begins. -/
theorem exists_ahead (s : Sequence) (k : Nat) {n : UInt32} (hn : n ≠ 0) :
    ∃ i < count, s.ahead (k + i) = n := by
  have hpos : 0 < n.toNat := UInt32.pos_iff_ne_zero.mpr hn
  have hlt : n.toNat < UInt32.size := n.toNat_lt
  refine ⟨(n.toNat - 1 + (count - (s.last.toNat + k) % count)) % count,
    Nat.mod_lt _ (by decide), UInt32.toNat_inj.mp ?_⟩
  rw [toNat_ahead]
  simp only [count, UInt32.size] at hlt ⊢
  omega

/-- **The numbers come round.** In every run of calls, from any last number, as many results as
there are nonzero numbers, one behind another, are these numbers, each once; and so many calls
after a result the same comes again. -/
theorem numbers_come_round (s : Sequence) (before after : Nat) :
    let results := s.take (before + count + (after + 1))
    let round := (results.drop before).take count
    round.Nodup ∧ (∀ n, n ∈ round ↔ n ≠ 0) ∧
      ∃ n, results[before]? = some n ∧ results[before + count]? = some n := by
  refine ⟨?_, fun n => ?_, s.ahead before, ?_, ?_⟩
  · rw [window_take]
    refine List.Nodup.map_on (fun i hi j hj h => ?_) List.nodup_range
    exact s.ahead_inj (List.mem_range.mp hi) (List.mem_range.mp hj) h
  · rw [window_take, List.mem_map]
    constructor
    · rintro ⟨i, -, rfl⟩
      exact s.ahead_ne_zero _
    · intro hn
      obtain ⟨i, hi, hahead⟩ := s.exists_ahead before hn
      exact ⟨i, List.mem_range.mpr hi, hahead⟩
  · exact getElem?_take s (by omega)
  · rw [getElem?_take s (by omega), ahead_add_count]

end Parley.Sequence
