import Parley.Proofs.Engine.Requests

/-! The numbers of requests.

A request gets the first number, counting on round from the last one, under which no other request
waits. There is one as long as not all nonzero numbers are in use, and then the search for it ends
(`requests_have_numbers_of_their_own`). So the entries of the table keep numbers of their own,
however often the counter has come round and however long some requests wait. -/
namespace Parley.Engine

/-- The numbers under which requests wait. -/
def inUse (e : Engine) : List UInt32 := e.table.map (·.seq)

section
variable {e e' : Engine} {id : CallId} {payload : Bytes} {capacity due : Nat}

/-- A request that is taken is entered under the next free number, at which the counter stands
then. -/
theorem inUse_request (h : e.request id payload capacity due = .ok e') :
    e'.inUse = e.inUse ++ [e.nextSeq] ∧ e'.sequence = (e.sequence.nextFree e.inUse).2 := by
  obtain ⟨-, rfl⟩ := request_eq_ok h
  exact ⟨List.map_append, rfl⟩

end

/-- **A request gets the first free number.** Whatever the counter's last number and whatever the
table, the search that looks at one number after another comes to an end exactly if some nonzero
number is not in use. Then it has one outcome, the one of `Sequence.nextFree`: the number is not 0,
not in use, and the first such counting on round from the last one; and the counter is left there.
A request that is taken is entered under this number, so that entries with numbers of their own
keep them. Hence no two entries ever have the same number, and none has 0, at whichever end of
whichever run. -/
theorem requests_have_numbers_of_their_own (e : Engine) :
    ((∃ r, Sequence.Search e.inUse e.sequence r) ↔ Sequence.used e.inUse < Sequence.count) ∧
    (Sequence.used e.inUse < Sequence.count →
      (∀ r, Sequence.Search e.inUse e.sequence r ↔ r = e.sequence.nextFree e.inUse) ∧
      e.nextSeq ≠ 0 ∧ e.nextSeq ∉ e.inUse ∧
      e.sequence.nextFree e.inUse = (e.nextSeq, ⟨e.nextSeq⟩) ∧
      (∃ k ≤ Sequence.used e.inUse, e.nextSeq = e.sequence.ahead k ∧
        ∀ j < k, e.sequence.ahead j ∈ e.inUse) ∧
      ∀ id payload capacity due e', e.request id payload capacity due = .ok e' →
        e'.inUse = e.inUse ++ [e.nextSeq] ∧ e'.sequence.last = e.nextSeq ∧
          (e.inUse.Nodup → e'.inUse.Nodup)) ∧
    ∀ key role w, World.Reachable key role w → w.engine.inUse.Nodup ∧ 0 ∉ w.engine.inUse := by
  refine ⟨Sequence.exists_search_iff e.inUse e.sequence, fun hroom => ?_, fun key role w hw => ?_⟩
  · obtain ⟨k, hk, heq, hfree, htaken⟩ := Sequence.nextFree_first hroom e.sequence
    have hseq : e.nextSeq = e.sequence.ahead k := congrArg Prod.fst heq
    have hfound : Sequence.Search e.inUse e.sequence (e.sequence.nextFree e.inUse) := by
      rw [heq]
      exact Sequence.search_of_first hfree htaken
    rw [← hseq] at heq hfree
    refine ⟨fun r => ⟨fun hr => Sequence.search_unique hr hfound, fun hr => hr ▸ hfound⟩,
      nextSeq_ne_zero e, hfree, heq, ⟨k, hk, hseq, htaken⟩, ?_⟩
    intro id payload capacity due e' htaken'
    obtain ⟨hkeys, hsequence⟩ := inUse_request htaken'
    refine ⟨hkeys, by rw [hsequence, heq], fun hnodup => ?_⟩
    rw [hkeys]
    exact List.nodup_append.mpr ⟨hnodup, List.nodup_singleton _, by
      rintro n hn m hm rfl
      exact hfree (List.mem_singleton.mp hm ▸ hn)⟩
  · refine ⟨(kept_of_reachable hw).tabled.keys, fun hzero => ?_⟩
    obtain ⟨a, ha, hseq⟩ := List.mem_map.mp hzero
    exact seq_ne_zero_of_reachable hw a ha hseq

/-- Two requests wait since the counter was here last, and it has just produced its last number. -/
def cameRound : Engine where
  settings := ({} : Config.Connection).settings
  table := [⟨1, 0, 5⟩, ⟨2, 1, 5⟩]
  sequence := ⟨4294967295⟩

/-- The next request gets the number after theirs. -/
theorem third_number_after_a_round :
    Sequence.used cameRound.inUse < Sequence.count ∧ cameRound.nextSeq = 3 ∧
      cameRound.nextSeq ∉ cameRound.inUse ∧
      Sequence.Search cameRound.inUse cameRound.sequence (3, ⟨3⟩) := by
  have hroom : Sequence.used cameRound.inUse < Sequence.count := by decide
  obtain ⟨hsearch, -, hfree, -⟩ := (requests_have_numbers_of_their_own cameRound).2.1 hroom
  exact ⟨hroom, by decide, hfree, (hsearch (3, ⟨3⟩)).mpr (by decide)⟩

end Parley.Engine
