import Parley.Proofs.Engine.Dealings
import Parley.Proofs.Engine.Settlement

/-! The requests that wait, and how each comes to its end.

The table holds one entry for each request that was accepted, was not given up and has come
to nothing yet, and no other (`table_of_requests`). A move makes one of a few changes to the
table (`shift_of_move`): a request is entered, the entry of one call is taken out, or the
drive is over and all are. Since a call is never told twice (`told_move`), an entry stays
exactly as long as its request waits (`entry_iff`), whatever becomes of the number it has. -/
namespace Parley.Engine
open Channel

/-! ### Ends of requests -/

/-- What a response makes of the request that waits for it. -/
def Awaited.outcome (a : Awaited) (f : Frame) : Outcome :=
  if f.payload.length ≤ a.capacity then .response f.payload
  else .failed (.framing (.responseTooLarge a.seq f.payload.length a.capacity))

/-- What a request comes to, unless it is given up: its response is taken or too long, it is
too late, or the stream is gone. -/
inductive Outcome.EndsRequest (seq : UInt32) : Outcome → Prop where
  | response (payload : Bytes) : EndsRequest seq (.response payload)
  | tooLarge (length capacity : Nat) :
      EndsRequest seq (.failed (.framing (.responseTooLarge seq length capacity)))
  | late : EndsRequest seq (.failed (.timeout .request))
  | closed : EndsRequest seq (.failed .closed)

theorem Awaited.outcome_endsRequest (a : Awaited) (f : Frame) :
    (a.outcome f).EndsRequest a.seq := by
  unfold outcome
  split
  · exact .response _
  · exact .tooLarge _ _

namespace Site

/-- Whether a request waits: it was not given up, has not returned, and has no answer. -/
def outstanding (s : Site) (q : Issued) : Bool :=
  !s.log.dropped.contains q.call && !s.log.returned.any (·.1 == q.call) &&
    !s.engine.calls.any fun c => c.id == q.call && c.answer.isSome

theorem outstanding_iff (s : Site) (q : Issued) :
    s.outstanding q = true ↔ q.call ∉ s.log.dropped ∧ ∀ o, ¬s.ledger.CameTo q.call o := by
  have hreturned : s.log.returned.any (·.1 == q.call) = false ↔
      ∀ o, (q.call, o) ∉ s.log.returned := by
    rw [List.any_eq_false]
    exact ⟨fun h o ho => h _ ho (beq_self_eq_true q.call), fun h x hx hid =>
      h x.2 (by rw [← eq_of_beq hid]; exact hx)⟩
  have hanswered : (s.engine.calls.any fun c => c.id == q.call && c.answer.isSome) = false ↔
      ∀ o, ¬∃ c ∈ s.engine.calls, c.id = q.call ∧ c.answer = some o := by
    rw [List.any_eq_false]
    constructor
    · rintro h o ⟨c, hc, hid, hans⟩
      exact h c hc (by rw [hid, hans, beq_self_eq_true]; rfl)
    · intro h c hc hcall
      obtain ⟨hid, hans⟩ := Bool.and_eq_true_iff.mp hcall
      obtain ⟨o, ho⟩ := Option.isSome_iff_exists.mp hans
      exact h o ⟨c, hc, eq_of_beq hid, ho⟩
  simp only [outstanding, Bool.and_eq_true, Bool.not_eq_true', hreturned, hanswered,
    List.contains_eq_mem, decide_eq_false_iff_not, Ledger.CameTo, not_or, forall_and, and_assoc]
  rfl

end Site

/-- What a move does to the requests that wait. -/
inductive Shift (s s' : Site) : Prop where
  | quiet (hissued : s'.log.issued = s.log.issued) (htable : s'.engine.table = s.engine.table)
      (hreceived : s'.log.received = s.log.received)
  /-- A request is made under the next number. -/
  | asked {id payload capacity}
      (hissued : s'.log.issued = s.log.issued ++ [⟨id, ⟨s.engine.nextSeq, payload⟩⟩])
      (htable : s'.engine.table =
        s.engine.table ++ [{ seq := s.engine.nextSeq, call := id, capacity }])
      (hreceived : s'.log.received = s.log.received)
  /-- A frame is received that no request waits for. -/
  | passed {f} (hother : f.isMessage = true ∨ s.engine.table.find? (·.seq == f.seq) = none)
      (hissued : s'.log.issued = s.log.issued)
      (htable : s'.engine.table = s.engine.table)
      (hreceived : s'.log.received = s.log.received ++ [f])
  /-- A frame is received that a request waits for. -/
  | resolved {f a} (hf : f.isMessage = false)
      (ha : s.engine.table.find? (·.seq == f.seq) = some a)
      (hissued : s'.log.issued = s.log.issued)
      (htable : s'.engine.table = s.engine.table.filter (·.call != a.call))
      (hreceived : s'.log.received = s.log.received ++ [f])
      (hcame : s'.ledger.CameTo a.call (a.outcome f))
  /-- A call is given up, or returns because it is too late. -/
  | gone {id} (hissued : s'.log.issued = s.log.issued)
      (htable : s'.engine.table = s.engine.table.filter (·.call != id))
      (hreceived : s'.log.received = s.log.received)
      (hover : id ∈ s'.log.dropped ∨ s'.ledger.CameTo id (.failed (.timeout .request)))
  /-- The drive is over. -/
  | ended (hissued : s'.log.issued = s.log.issued) (htable : s'.engine.table = [])
      (hreceived : s'.log.received = s.log.received)
      (hended : s'.log.ended ≠ s.log.ended)
      (hcame : ∀ a ∈ s.engine.table, s'.ledger.CameTo a.call (.failed .closed))

variable {key : SessionKey} {role : Role} {env : Env} {w w' : World} {s s' : Site} {e : Engine}
  {stream : Duplex} {events : List Event} {id : CallId} {o : Outcome}

/-! ### Nothing that a call was told is taken back -/

theorem told_of_tell (ht : s.ledger.Told id o) {ids : List CallId} {o' : Outcome}
    (hcalls : s'.engine.calls = s.engine.calls.map (Call.told ids o'))
    (hreturned : s'.log.returned = s.log.returned) (hdropped : s'.log.dropped = s.log.dropped) :
    s'.ledger.Told id o := by
  refine (ht.tell ids o').mono (fun c hc => ?_) (fun x hx => ?_) fun i hi => ?_
  · exact (hcalls ▸ hc : c ∈ s'.engine.calls)
  · exact (hreturned ▸ hx : x ∈ s'.log.returned)
  · exact (hdropped ▸ hi : i ∈ s'.log.dropped)

/-- The calls whose frames were in the write loop's hands are refused, and all that wait. -/
theorem calls_writeFailed (e : Engine) (r : Drive) :
    (e.completeAll r.writing.batch false).stop.finished.calls = e.calls.map (Call.told
      (r.writing.batch.filterMap (·.waiter) ++
        (e.queue.filterMap (·.waiter) ++ e.table.map (·.call))) (.failed .closed)) := by
  have hrefused : (e.completeAll r.writing.batch false).stop.calls =
      e.calls.map (Call.told (r.writing.batch.filterMap (·.waiter)) (.failed .closed)) := by
    rw [completeAll_eq]
    rfl
  rw [calls_finished hrefused, completeAll_eq]
  rfl

theorem told_stepped (h : Stepped env s.engine s.stream e stream events) (hk : s.ledger.Kept)
    (ht : s.ledger.Told id o) : (s.after e stream events).ledger.Told id o := by
  cases h with
  | answered hc ho =>
    obtain ⟨hmem, rfl, hleave⟩ := ledger_leave hk hc
    rw [hleave]
    exact hk.named.told_returns hmem (fun o' ho' => Option.some.inj (ho'.symm.trans ho)) ht
  | expired hc ho =>
    obtain ⟨hmem, rfl, hleave⟩ := ledger_leave hk hc
    rw [hleave]
    exact hk.named.told_returns hmem (fun o' ho' => absurd (ho'.symm.trans ho) (by simp)) ht
  | placed =>
    rw [complete_eq]
    exact told_of_tell ht (by rfl) (by rfl) (by rfl)
  | closed
  | closeFailed => exact told_of_tell ht (by rfl) (by rfl) (by rfl)
  | writeFailed => exact told_of_tell ht (calls_writeFailed ..) (by rfl) (by rfl)
  | readEnded
  | readExpired =>
    rw [readLoopEnds_eq]
    exact ht
  | resolved =>
    rw [answer_eq]
    exact told_of_tell ht (by rfl) (by rfl) (by rfl)
  | overflowed =>
    rw [answer_eq, readLoopEnds_eq]
    exact told_of_tell ht (by rfl) (by rfl) (by rfl)
  | _ => exact ht

/-- A call that was told an outcome has been told it ever after. -/
theorem told_move (h : Move key role env s s') (hk : s.ledger.Kept) (ht : s.ledger.Told id o) :
    s'.ledger.Told id o := by
  cases h with
  | post h =>
    obtain ⟨-, rfl⟩ := post_eq_ok h
    exact ht
  | write _ h =>
    obtain ⟨-, rfl⟩ := write_eq_ok h
    exact ht.mono (List.subset_append_left ..) (List.Subset.refl _) (List.Subset.refl _)
  | request _ _ h =>
    obtain ⟨-, rfl⟩ := request_eq_ok h
    exact ht.mono (List.subset_append_left ..) (List.Subset.refl _) (List.Subset.refl _)
  | refuse =>
    exact ht.mono (List.Subset.refl _) (List.subset_append_left ..) (List.Subset.refl _)
  | giveUp hc =>
    obtain ⟨hmem, rfl, hleave⟩ := ledger_leave hk hc
    simp only [giveUp, hc, hleave]
    exact Ledger.told_drops ht
  | start h =>
    obtain ⟨-, rfl⟩ := start_eq_ok h
    exact ht
  | abandon =>
    cases hr : s.engine.drive with
    | none =>
      simp only [abandon, hr]
      exact ht
    | some r =>
      simp only [abandon, hr, completeAll_eq]
      exact told_of_tell ht (by rfl) (by rfl) (by rfl)
  | step h => exact told_stepped (stepped_of_step h) hk ht

/-! ### Every move is a shift -/

/-- The call of an entry comes to what it is told. -/
theorem cameTo_entry (hk : s.ledger.Kept) {a : Awaited} (ha : a ∈ s.engine.table)
    {ids : List CallId} (hids : a.call ∈ ids)
    (hcalls : s'.engine.calls = s.engine.calls.map (Call.told ids o)) :
    s'.ledger.CameTo a.call o := by
  obtain ⟨c, hc, hid, hans, -⟩ := hk.tabled.waiting a ha
  have htold := Ledger.cameTo_tell hc hans (by rw [hid]; exact hids) o
  rw [hid] at htold
  rcases htold with hret | ⟨c', hc', hrest⟩
  · obtain ⟨-, -, hnone⟩ := hk.named.returned _ _ hret
    exact absurd hid (hnone c hc)
  · exact .inr ⟨c', (hcalls.symm ▸ hc' : c' ∈ s'.engine.calls), hrest⟩

/-- Taking out what is under the number of an entry takes out that entry. -/
theorem filter_seq (hk : s.ledger.Kept) {a : Awaited} (ha : a ∈ s.engine.table) :
    s.engine.table.filter (·.seq != a.seq) = s.engine.table.filter (·.call != a.call) := by
  refine List.filter_congr fun a' ha' => ?_
  by_cases hcall : a'.call = a.call
  · rw [hk.entry_inj ha' ha hcall, bne_self_eq_false, bne_self_eq_false]
  · have hseq : a'.seq ≠ a.seq := fun hseq => hcall (by rw [hk.tabled.seq_inj ha' ha hseq])
    rw [bne_iff_ne.mpr hcall, bne_iff_ne.mpr hseq]

/-- A call that has an answer has no entry any more. -/
theorem leave_answered (hk : s.ledger.Kept) {c : Call} (hc : c ∈ s.engine.calls)
    (ho : c.answer = some o) : (s.ledger.leave c).table = s.engine.table := by
  refine List.filter_eq_self.mpr fun a ha => bne_iff_ne.mpr fun hcall => ?_
  obtain ⟨c', hc', hid, hans, -⟩ := hk.tabled.waiting a ha
  rw [hk.named.call_inj hc' hc (hid.trans hcall), ho] at hans
  cases hans

theorem ne_of_append_singleton {α : Type} (xs : List α) (x : α) : xs ++ [x] ≠ xs := by
  intro h
  simpa using congrArg List.length h

theorem shift_stepped (h : Stepped env s.engine s.stream e stream events) (hk : s.ledger.Kept) :
    Shift s (s.after e stream events) := by
  cases h with
  | answered hc ho =>
    obtain ⟨hmem, rfl, hleave⟩ := ledger_leave hk hc
    rw [hleave]
    exact .quiet rfl (leave_answered hk hmem ho) rfl
  | expired hc ho =>
    obtain ⟨hmem, rfl, hleave⟩ := ledger_leave hk hc
    rw [hleave]
    exact .gone rfl rfl rfl (.inr (.inl (List.mem_append_right _ (List.mem_singleton_self _))))
  | placed =>
    rw [complete_eq]
    exact .quiet rfl rfl rfl
  | closed
  | closeFailed =>
    refine .ended rfl rfl rfl (ne_of_append_singleton _ _) fun a ha => ?_
    exact cameTo_entry hk ha (List.mem_append_right _ (List.mem_map_of_mem ha)) rfl
  | writeFailed =>
    refine .ended rfl rfl rfl (ne_of_append_singleton _ _) fun a ha => ?_
    exact cameTo_entry hk ha (List.mem_append_right _ (List.mem_append_right _
      (List.mem_map_of_mem ha))) (calls_writeFailed ..)
  | readEnded
  | readExpired =>
    rw [readLoopEnds_eq]
    exact .quiet rfl rfl rfl
  | handed hr hread hadv hother => exact .passed hother rfl rfl rfl
  | @resolved r c due f o inc a hr hread hadv hf ha hfits =>
    have hmem := List.mem_of_find?_eq_some ha
    rw [answer_eq]
    refine .resolved hf ha rfl (filter_seq hk hmem) rfl ?_
    rw [Awaited.outcome, if_pos hfits]
    exact cameTo_entry hk hmem (List.mem_singleton_self _) rfl
  | @overflowed r c due f o inc a err hr hread hreads hadv hf ha hover herr =>
    have hmem := List.mem_of_find?_eq_some ha
    rw [answer_eq, readLoopEnds_eq]
    refine .resolved hf ha rfl (filter_seq hk hmem) rfl ?_
    rw [Awaited.outcome, if_neg (Nat.not_le_of_lt hover), ← herr]
    exact cameTo_entry hk hmem (List.mem_singleton_self _) rfl
  | _ => exact .quiet rfl rfl rfl

/-- Every move is a shift. -/
theorem shift_of_move (h : Move key role env s s') (hk : s.ledger.Kept) : Shift s s' := by
  cases h with
  | post h =>
    obtain ⟨-, rfl⟩ := post_eq_ok h
    exact .quiet rfl rfl rfl
  | write _ h =>
    obtain ⟨-, rfl⟩ := write_eq_ok h
    exact .quiet rfl rfl rfl
  | request _ _ h =>
    obtain ⟨-, rfl⟩ := request_eq_ok h
    exact .asked rfl rfl rfl
  | refuse => exact .quiet rfl rfl rfl
  | giveUp hc =>
    obtain ⟨hmem, rfl, hleave⟩ := ledger_leave hk hc
    simp only [giveUp, hc, hleave]
    exact .gone rfl rfl rfl (.inl (List.mem_append_right _ (List.mem_singleton_self _)))
  | start h =>
    obtain ⟨-, rfl⟩ := start_eq_ok h
    exact .quiet rfl rfl rfl
  | abandon =>
    cases hr : s.engine.drive with
    | none =>
      simp only [abandon, hr]
      exact .quiet rfl rfl rfl
    | some r =>
      simp only [abandon, hr, completeAll_eq]
      exact .quiet rfl rfl rfl
  | step h => exact shift_stepped (stepped_of_step h) hk

/-! ### Entries are requests that wait -/

/-- The request of an entry waits. -/
theorem outstanding_of_entry (hk : s.ledger.Kept) {a : Awaited} (ha : a ∈ s.engine.table)
    {q : Issued} (hcall : q.call = a.call) : s.outstanding q = true := by
  obtain ⟨c, hc, hid, hans, -⟩ := hk.tabled.waiting a ha
  rw [Site.outstanding_iff, hcall, ← hid]
  refine ⟨fun hdropped => (hk.named.dropped _ hdropped).2 c hc rfl, fun o ho => ?_⟩
  rcases ho with hret | ⟨c', hc', hid', hans'⟩
  · exact (hk.named.returned _ o hret).2.2 c hc rfl
  · rw [hk.named.call_inj hc' hc hid', hans] at hans'
    cases hans'

/-- A request that waits has an entry, under its number. -/
theorem entry_of_outstanding (hk : s.ledger.Kept) {q : Issued} (hq : q ∈ s.log.issued)
    (h : s.outstanding q = true) : ∃ a ∈ s.engine.table, a.call = q.call ∧ a.seq = q.frame.seq := by
  obtain ⟨hdropped, hcame⟩ := s.outstanding_iff q |>.mp h
  rcases hk.tabled.settled q hq with ⟨o, ho⟩ | ⟨a, ha, hcall⟩
  · exact absurd ho (not_or.mpr ⟨hdropped, hcame o⟩)
  · obtain ⟨q', hq', hcall', hseq⟩ := hk.tabled.issued a ha
    have hsame : q' = q :=
      List.inj_on_of_nodup_map hk.tabled.distinct hq' hq (hcall'.trans hcall)
    exact ⟨a, ha, hcall, by rw [← hseq, hsame]⟩

/-- The entries are the requests that wait. -/
theorem table_perm (hk : s.ledger.Kept) :
    (s.engine.table.map fun a => (a.call, a.seq)).Perm
      ((s.log.issued.filter s.outstanding).map fun q => (q.call, q.frame.seq)) := by
  have hentries : (s.engine.table.map fun a => (a.call, a.seq)).Nodup := by
    refine .of_map Prod.snd ?_
    rw [List.map_map]
    exact hk.tabled.keys
  have hrequests : ((s.log.issued.filter s.outstanding).map
      fun q => (q.call, q.frame.seq)).Nodup := by
    refine .of_map Prod.fst ?_
    rw [List.map_map]
    exact hk.tabled.distinct.sublist (List.filter_sublist.map _)
  rw [List.perm_ext_iff_of_nodup hentries hrequests]
  rintro ⟨id, seq⟩
  simp only [List.mem_map, List.mem_filter, Prod.mk.injEq]
  constructor
  · rintro ⟨a, ha, rfl, rfl⟩
    obtain ⟨q, hq, hcall, hseq⟩ := hk.tabled.issued a ha
    exact ⟨q, ⟨hq, outstanding_of_entry hk ha hcall⟩, hcall, hseq⟩
  · rintro ⟨q, ⟨hq, hwaits⟩, rfl, rfl⟩
    exact entry_of_outstanding hk hq hwaits

/-- Where the entry of one call is taken out, that is the entry that is gone. -/
theorem call_of_gone {a : Awaited}
    (htable : s'.engine.table = s.engine.table.filter (·.call != id)) (ha : a ∈ s.engine.table)
    (hgone : a ∉ s'.engine.table) : a.call = id := by
  rw [htable] at hgone
  by_contra hne
  exact hgone (List.mem_filter.mpr ⟨ha, bne_iff_ne.mpr hne⟩)

/-- The request of an entry that is gone is over. -/
theorem Shift.told (h : Shift s s') {a : Awaited} (ha : a ∈ s.engine.table)
    (hgone : a ∉ s'.engine.table) : ∃ o, s'.ledger.Told a.call o := by
  cases h with
  | quiet _ htable
  | passed _ _ htable => exact absurd ha (htable ▸ hgone)
  | asked _ htable => exact absurd (List.mem_append_left _ ha) (htable ▸ hgone)
  | resolved _ _ _ htable _ hcame =>
    rw [call_of_gone htable ha hgone]
    exact ⟨_, .inr hcame⟩
  | gone _ htable _ hover =>
    rw [call_of_gone htable ha hgone]
    exact ⟨_, hover⟩
  | ended _ _ _ _ hcame => exact ⟨_, .inr (hcame a ha)⟩

/-- Unless the drive ends, one entry goes at a time. -/
theorem Shift.one (h : Shift s s') (hended : s'.log.ended = s.log.ended) {a a' : Awaited}
    (ha : a ∈ s.engine.table) (hgone : a ∉ s'.engine.table) (ha' : a' ∈ s.engine.table)
    (hgone' : a' ∉ s'.engine.table) : a.call = a'.call := by
  cases h with
  | quiet _ htable
  | passed _ _ htable => exact absurd ha (htable ▸ hgone)
  | asked _ htable => exact absurd (List.mem_append_left _ ha) (htable ▸ hgone)
  | resolved _ _ _ htable
  | gone _ htable => rw [call_of_gone htable ha hgone, call_of_gone htable ha' hgone']
  | ended _ _ _ hover => exact absurd hended hover

/-- What a request comes to in the move that takes out its entry. -/
theorem Shift.endsRequest (h : Shift s s') (hk : s.ledger.Kept) (hk' : s'.ledger.Kept)
    {a : Awaited} (ha : a ∈ s.engine.table) (hgone : a ∉ s'.engine.table)
    (ho : s'.ledger.CameTo a.call o) : o.EndsRequest a.seq := by
  cases h with
  | quiet _ htable
  | passed _ _ htable => exact absurd ha (htable ▸ hgone)
  | asked _ htable => exact absurd (List.mem_append_left _ ha) (htable ▸ hgone)
  | @resolved f a' _ ha' _ htable _ hcame =>
    obtain rfl := hk.entry_inj ha (List.mem_of_find?_eq_some ha') (call_of_gone htable ha hgone)
    rw [hk'.named.cameTo_inj ho hcame]
    exact a.outcome_endsRequest f
  | gone _ htable _ hover =>
    obtain rfl := call_of_gone htable ha hgone
    have hlate := hover.resolve_left (hk'.named.not_dropped ho)
    rw [hk'.named.cameTo_inj ho hlate]
    exact .late
  | ended _ _ _ _ hcame =>
    rw [hk'.named.cameTo_inj ho (hcame a ha)]
    exact .closed

/-- A request is entered under a number that is not 0. -/
theorem Shift.seq_ne_zero (h : Shift s s')
    (hs : ∀ a ∈ s.engine.table, a.seq ≠ Frame.noResponse) :
    ∀ a ∈ s'.engine.table, a.seq ≠ Frame.noResponse := by
  intro a ha
  cases h with
  | quiet _ htable
  | passed _ _ htable => exact hs a (htable ▸ ha)
  | asked _ htable =>
    rw [htable] at ha
    rcases List.mem_append.mp ha with ha | ha
    · exact hs a ha
    · rw [List.mem_singleton.mp ha]
      exact nextSeq_ne_zero _
  | resolved _ _ _ htable
  | gone _ htable =>
    rw [htable] at ha
    exact hs a (List.mem_of_mem_filter ha)
  | ended _ htable =>
    rw [htable] at ha
    cases ha

/-- A request that is new waits. -/
theorem Shift.issued (h : Shift s s') {q : Issued} (hq : q ∈ s'.log.issued) :
    q ∈ s.log.issued ∨ ∃ a ∈ s'.engine.table, a.call = q.call := by
  cases h with
  | asked hissued htable =>
    rw [hissued] at hq
    rcases List.mem_append.mp hq with hq | hq
    · exact .inl hq
    · refine .inr ⟨_, htable ▸ List.mem_append_right _ (List.mem_singleton_self _), ?_⟩
      rw [List.mem_singleton.mp hq]
  | quiet hissued
  | passed _ hissued
  | resolved _ _ hissued
  | gone hissued
  | ended hissued => exact .inl (hissued ▸ hq)

/-! ### Whole runs -/

/-- No entry is under 0. -/
theorem seq_ne_zero_of_reachable (h : World.Reachable key role w) :
    ∀ a ∈ w.engine.table, a.seq ≠ Frame.noResponse := by
  refine World.Reachable.induct
    (motive := fun w => ∀ a ∈ w.engine.table, a.seq ≠ Frame.noResponse) ?_ ?_ h
  · exact fun c out inc a ha => absurd ha List.not_mem_nil
  · intro w w' hw ih hstep
    cases hstep with
    | near h => exact (shift_of_move h (kept_of_reachable hw)).seq_ne_zero ih
    | far => exact ih

/-- What a call came to before, it has come to ever after. -/
theorem cameTo_of_move (h : Move key role env s s') (hk : s.ledger.Kept) (hk' : s'.ledger.Kept)
    {q : Issued} (hover : s.outstanding q = false) (ho : s'.ledger.CameTo q.call o) :
    s.ledger.CameTo q.call o := by
  have hstay : q.call ∉ s.log.dropped := fun hdropped =>
    hk'.named.not_dropped ho (h.grows.dropped.subset hdropped)
  have hsome : ∃ o', s.ledger.CameTo q.call o' := by
    by_contra hnone
    have hwaits := (s.outstanding_iff q).mpr ⟨hstay, fun o' ho' => hnone ⟨o', ho'⟩⟩
    rw [hover] at hwaits
    cases hwaits
  obtain ⟨o', ho'⟩ := hsome
  have hstill := (told_move h hk (.inr ho')).resolve_left (hk'.named.not_dropped ho)
  rw [hk'.named.cameTo_inj ho hstill]
  exact ho'

theorem endsRequest_move (h : Move key role env s s') (hk : s.ledger.Kept) (hk' : s'.ledger.Kept)
    (hs : ∀ q ∈ s.log.issued, ∀ o, s.ledger.CameTo q.call o → o.EndsRequest q.frame.seq) :
    ∀ q ∈ s'.log.issued, ∀ o, s'.ledger.CameTo q.call o → o.EndsRequest q.frame.seq := by
  intro q hq o ho
  have hshift := shift_of_move h hk
  have hover : s'.outstanding q = false := by
    rw [Bool.eq_false_iff]
    exact fun hwaits => ((s'.outstanding_iff q).mp hwaits).2 o ho
  have hgone : ∀ a ∈ s'.engine.table, a.call ≠ q.call := fun a ha hcall => by
    rw [outstanding_of_entry hk' ha hcall.symm] at hover
    cases hover
  rcases hshift.issued hq with hold | ⟨a, ha, hcall⟩
  · cases hwaits : s.outstanding q with
    | false => exact hs q hold o (cameTo_of_move h hk hk' hwaits ho)
    | true =>
      obtain ⟨a, ha, hcall, hseq⟩ := entry_of_outstanding hk hold hwaits
      rw [← hcall] at ho
      rw [← hseq]
      exact hshift.endsRequest hk hk' ha (fun hstill => hgone a hstill hcall) ho
  · exact absurd hcall (hgone a ha)

/-- Every request comes to one of the ends of a request. -/
theorem endsRequest_of_reachable (h : World.Reachable key role w) :
    ∀ q ∈ w.log.issued, ∀ o, w.ledger.CameTo q.call o → o.EndsRequest q.frame.seq := by
  refine World.Reachable.induct (motive := fun w => ∀ q ∈ w.log.issued, ∀ o,
    w.ledger.CameTo q.call o → o.EndsRequest q.frame.seq) ?_ ?_ h
  · exact fun c out inc q hq => absurd hq List.not_mem_nil
  · intro w w' hw ih hstep
    have hk' := kept_of_reachable (hw.leads (.single hstep))
    cases hstep with
    | near h => exact endsRequest_move h (kept_of_reachable hw) hk' ih
    | far => exact ih

/-- An entry is there until its request is over. -/
theorem entry_or_told (h : World.Reachable key role w) (hlater : World.Leads key role w w')
    {a : Awaited} (ha : a ∈ w.engine.table) :
    a ∈ w'.engine.table ∨ ∃ o, w'.ledger.Told a.call o := by
  induction hlater with
  | refl => exact .inl ha
  | tail hleads hstep ih =>
    cases hstep with
    | far => exact ih
    | near hm =>
      have hk := kept_of_reachable (h.leads hleads)
      rcases ih with hin | ⟨o, ho⟩
      · exact Classical.or_iff_not_imp_left.mpr fun hgone => (shift_of_move hm hk).told hin hgone
      · exact .inr ⟨o, told_move hm hk ho⟩

/-- An entry stays exactly as long as its request waits. -/
theorem entry_iff (h : World.Reachable key role w) (hlater : World.Leads key role w w')
    {a : Awaited} (ha : a ∈ w.engine.table) {q : Issued} (hcall : q.call = a.call) :
    a ∈ w'.engine.table ↔ w'.outstanding q = true := by
  refine ⟨fun hin => outstanding_of_entry (kept_of_reachable (h.leads hlater)) hin hcall, ?_⟩
  intro hwaits
  obtain ⟨hstay, hnone⟩ := (w'.outstanding_iff q).mp hwaits
  refine (entry_or_told h hlater ha).resolve_right fun ⟨o, ho⟩ => ?_
  rw [← hcall] at ho
  exact ho.elim hstay (hnone o)

/-- **The table holds the requests that wait**, each under a number of its own that is not 0,
and no other. Such a request was not given up and has come to nothing; otherwise it has come
to one of the ends of a request. Whatever ends one request leaves the entries of the others
as they are: an entry goes only when its own request is over, and until the drive ends no
two go at once. -/
theorem table_of_requests (h : World.Reachable key role w) :
    (w.engine.table.map fun a => (a.call, a.seq)).Perm
      ((w.log.issued.filter w.outstanding).map fun q => (q.call, q.frame.seq)) ∧
    w.engine.pending = (w.log.issued.filter w.outstanding).length ∧
    (∀ a ∈ w.engine.table, a.seq ≠ Frame.noResponse) ∧
    (w.engine.table.map (·.seq)).Nodup ∧
    (∀ q ∈ w.log.issued, ∀ q' ∈ w.log.issued, w.outstanding q = true → w.outstanding q' = true →
      q.frame.seq = q'.frame.seq → q = q') ∧
    (∀ q ∈ w.log.issued,
      (w.outstanding q = true ↔ q.call ∉ w.log.dropped ∧ ∀ o, ¬w.ledger.CameTo q.call o) ∧
      ∀ o, w.ledger.CameTo q.call o → o.EndsRequest q.frame.seq) ∧
    (∀ a ∈ w.engine.table, ∀ q, q.call = a.call → ∀ w', World.Leads key role w w' →
      (a ∈ w'.engine.table ↔ w'.outstanding q = true)) ∧
    (∀ w', World.Step key role w w' → w'.log.ended = w.log.ended →
      ∀ a ∈ w.engine.table, a ∉ w'.engine.table →
      ∀ a' ∈ w.engine.table, a' ∉ w'.engine.table → a = a') := by
  have hk := kept_of_reachable h
  have hperm := table_perm hk
  refine ⟨hperm, ?_, seq_ne_zero_of_reachable h, hk.tabled.keys, ?_, fun q hq =>
    ⟨w.outstanding_iff q, endsRequest_of_reachable h q hq⟩,
    fun a ha q hcall w' hlater => entry_iff h hlater ha hcall, ?_⟩
  · have hlength := hperm.length_eq
    rwa [List.length_map, List.length_map] at hlength
  · intro q hq q' hq' hwaits hwaits' hsame
    obtain ⟨a, ha, hcall, hseq⟩ := entry_of_outstanding hk hq hwaits
    obtain ⟨a', ha', hcall', hseq'⟩ := entry_of_outstanding hk hq' hwaits'
    have haa : a = a' := hk.tabled.seq_inj ha ha' (by rw [hseq, hseq', hsame])
    exact List.inj_on_of_nodup_map hk.tabled.distinct hq hq' (by rw [← hcall, ← hcall', haa])
  · intro w' hstep hended a ha hgone a' ha' hgone'
    cases hstep with
    | near hm =>
      have hone := (shift_of_move hm hk).one hended ha hgone ha' hgone'
      exact hk.entry_inj ha ha' hone
    | far => exact absurd ha hgone

/-- The first request, when it was just made. -/
theorem request_is_pending : ∃ w, World.Reachable ⟨[7]⟩ .client w ∧
    w.engine.table = [{ seq := 1, call := 0, capacity := 5 }] ∧ w.engine.pending = 1 ∧
    ∀ w', World.Leads ⟨[7]⟩ .client w w' →
      (w'.engine.table.contains { seq := 1, call := 0, capacity := 5 } ↔
        w'.outstanding ⟨0, ⟨1, [1]⟩⟩ = true) := by
  let settings : Settings := ({} : Config.Connection).settings
  let env : Env := prompt false fun _ => none
  let w₀ : World := .fresh {} 100 100
  let w : World := { w₀ with toSite := .asked ⟨[7]⟩ .client env settings roomy [1] 5 9 }
  have hasked : World.Leads ⟨[7]⟩ .client w₀ w := w₀.leads (asks rfl roomy 5 9)
  have h : World.Reachable ⟨[7]⟩ .client w := ⟨_, _, _, hasked⟩
  obtain ⟨-, hpending, -, -, -, -, hentry, -⟩ := table_of_requests h
  refine ⟨w, h, rfl, hpending, fun w' hlater => ?_⟩
  rw [List.contains_iff_mem]
  exact hentry _ (List.mem_singleton_self _) ⟨0, ⟨1, [1]⟩⟩ rfl w' hlater

end Parley.Engine
