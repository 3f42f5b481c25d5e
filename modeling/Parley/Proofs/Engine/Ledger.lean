import Mathlib.Data.List.Nodup
import Parley.Proofs.Engine.History

/-! Calls, and what is owed to them.

The `Ledger` of a site holds the calls that wait, the table of requests, the frames that are
not disposed of yet, and what the log says of calls. Its books are kept when every call is
in one place only (`Named`), when a request without an answer has its own entry in the table
and no entry is without its call (`Tabled`), and when every call whose frame is still to be
written waits, and is told once it no longer is (`Queued`). Each operation of an engine is
one of a few on the ledger, and each of them keeps the books. -/
namespace Parley.Engine
open Channel

/-- The batch in the write loop's hands, if a stream is driven. -/
def batch (e : Engine) : List Outgoing := ((e.drive.map (·.writing.batch)).getD [])

structure Ledger where
  calls : List Call
  table : List Awaited
  /-- The frames that are in the write loop's hands or in the queue. -/
  pending : List Outgoing
  /-- Every call ever made. -/
  known : List CallId
  dropped : List CallId
  returned : List (CallId × Outcome)
  issued : List Issued
  accepted : List Outgoing
  written : List Outgoing

def Site.ledger (s : Site) : Ledger where
  calls := s.engine.calls
  table := s.engine.table
  pending := s.engine.batch ++ s.engine.queue
  known := s.log.calls
  dropped := s.log.dropped
  returned := s.log.returned
  issued := s.log.issued
  accepted := s.log.accepted
  written := s.log.written

namespace Ledger
variable {b : Ledger} {id : CallId} {o : Outcome}

/-- A call has returned with this outcome, or will when it looks. -/
def CameTo (b : Ledger) (id : CallId) (o : Outcome) : Prop :=
  (id, o) ∈ b.returned ∨ ∃ c ∈ b.calls, c.id = id ∧ c.answer = some o

/-- A call has been told this outcome, unless nobody is there to hear it. -/
def Told (b : Ledger) (id : CallId) (o : Outcome) : Prop := id ∈ b.dropped ∨ b.CameTo id o

/-- A call waits for its frame to be written, unless it was given up. -/
def Waits (b : Ledger) (id : CallId) : Prop :=
  id ∈ b.dropped ∨ ∃ c ∈ b.calls, c.id = id ∧ c.wait = .written ∧ c.answer = none

/-- Every call has a name of its own and is in one place: waiting, returned or given up. -/
structure Named (b : Ledger) : Prop where
  nodup : (b.calls.map (·.id)).Nodup
  known : ∀ c ∈ b.calls, c.id ∈ b.known
  returned : ∀ id o, (id, o) ∈ b.returned → id ∈ b.known ∧ id ∉ b.dropped ∧ ∀ c ∈ b.calls, c.id ≠ id
  dropped : ∀ id ∈ b.dropped, id ∈ b.known ∧ ∀ c ∈ b.calls, c.id ≠ id
  once : (b.returned.map (·.1)).Nodup

/-- A request that has no answer has an entry of its own, and an entry has such a request. -/
structure Tabled (b : Ledger) : Prop where
  keys : (b.table.map (·.seq)).Nodup
  waiting : ∀ a ∈ b.table, ∃ c ∈ b.calls, c.id = a.call ∧ c.answer = none ∧
    ∃ due, c.wait = .response a.seq due
  issued : ∀ a ∈ b.table, ∃ q ∈ b.issued, q.call = a.call ∧ q.frame.seq = a.seq
  known : ∀ q ∈ b.issued, q.call ∈ b.known
  distinct : (b.issued.map (·.call)).Nodup
  settled : ∀ q ∈ b.issued, (∃ o, b.Told q.call o) ∨ ∃ a ∈ b.table, a.call = q.call

/-- A call whose frame was accepted waits until the frame is disposed of, and is then told. -/
structure Queued (b : Ledger) : Prop where
  known : ∀ x ∈ b.accepted, ∀ id, x.waiter = some id → id ∈ b.known
  distinct : ∀ x ∈ b.accepted, ∀ y ∈ b.accepted, ∀ id, x.waiter = some id → y.waiter = some id →
    x = y
  once : (b.pending.filterMap (·.waiter)).Nodup
  pending : ∀ x ∈ b.pending, x ∈ b.accepted ∧ ∀ id, x.waiter = some id → b.Waits id
  written : ∀ x ∈ b.written, x ∈ b.accepted ∧ ∀ id, x.waiter = some id → b.Told id .done
  settled : ∀ x ∈ b.accepted, ∀ id, x.waiter = some id →
    x ∈ b.written ∨ x ∈ b.pending ∨ b.Told id (.failed .closed)

/-- The books are in order. -/
structure Kept (b : Ledger) : Prop where
  named : b.Named
  tabled : b.Tabled
  queued : b.Queued

theorem Named.call_inj (h : b.Named) {c c' : Call} (hc : c ∈ b.calls) (hc' : c' ∈ b.calls)
    (hid : c.id = c'.id) : c = c' :=
  List.inj_on_of_nodup_map h.nodup hc hc' hid

/-- A call comes to one outcome. -/
theorem Named.cameTo_inj (h : b.Named) {o' : Outcome} (ho : b.CameTo id o) (ho' : b.CameTo id o') :
    o = o' := by
  rcases ho with hret | ⟨c, hc, hid, hans⟩ <;> rcases ho' with hret' | ⟨c', hc', hid', hans'⟩
  · exact (Prod.mk.inj (List.inj_on_of_nodup_map h.once hret hret' rfl)).2
  · exact absurd hid' ((h.returned id o hret).2.2 c' hc')
  · exact absurd hid ((h.returned id o' hret').2.2 c hc)
  · have hcc := h.call_inj hc hc' (hid.trans hid'.symm)
    rw [hcc, hans'] at hans
    exact (Option.some.inj hans).symm

/-- A call that was given up comes to nothing. -/
theorem Named.not_dropped (h : b.Named) (ho : b.CameTo id o) : id ∉ b.dropped := by
  intro hdropped
  rcases ho with hret | ⟨c, hc, hid, -⟩
  · exact (h.returned id o hret).2.1 hdropped
  · exact (h.dropped id hdropped).2 c hc hid

theorem Named.known_of_cameTo (h : b.Named) (ho : b.CameTo id o) : id ∈ b.known := by
  rcases ho with hret | ⟨c, hc, rfl, -⟩
  · exact (h.returned id o hret).1
  · exact h.known c hc

/-! ### Telling calls -/

/-- These calls are told an outcome. -/
def tell (b : Ledger) (ids : List CallId) (o : Outcome) : Ledger :=
  { b with calls := b.calls.map (Call.told ids o) }

theorem CameTo.tell (h : b.CameTo id o) (ids : List CallId) (o' : Outcome) :
    (b.tell ids o').CameTo id o := by
  rcases h with hret | ⟨c, hc, hid, hans⟩
  · exact .inl hret
  · exact .inr ⟨c, List.mem_map.mpr ⟨c, hc, Call.told_of_answer hans⟩, hid, hans⟩

theorem Told.tell (h : b.Told id o) (ids : List CallId) (o' : Outcome) :
    (b.tell ids o').Told id o :=
  h.imp_right fun h => h.tell ids o'

theorem Waits.tell_of_not_mem (h : b.Waits id) {ids : List CallId} (hids : id ∉ ids) (o : Outcome) :
    (b.tell ids o).Waits id := by
  refine h.imp_right fun ⟨c, hc, hid, hwait, hans⟩ => ?_
  exact ⟨c, List.mem_map.mpr ⟨c, hc, Call.told_of_not_mem (hid ▸ hids)⟩, hid, hwait, hans⟩

/-- A call without an answer takes the one it is told. -/
theorem cameTo_tell {c : Call} (hc : c ∈ b.calls) (hans : c.answer = none) {ids : List CallId}
    (hids : c.id ∈ ids) (o : Outcome) : (b.tell ids o).CameTo c.id o :=
  .inr ⟨_, List.mem_map.mpr ⟨c, hc, Call.told_of_mem hids hans⟩, rfl, rfl⟩

theorem told_tell {c : Call} (hc : c ∈ b.calls) (hans : c.answer = none) {ids : List CallId}
    (hids : c.id ∈ ids) (o : Outcome) : (b.tell ids o).Told c.id o :=
  .inr (cameTo_tell hc hans hids o)

theorem Waits.tell_of_mem (h : b.Waits id) {ids : List CallId} (hids : id ∈ ids) (o : Outcome) :
    (b.tell ids o).Told id o := by
  rcases h with hdropped | ⟨c, hc, rfl, -, hans⟩
  · exact .inl hdropped
  · exact told_tell hc hans hids o

theorem Named.tell (h : b.Named) (ids : List CallId) (o : Outcome) : (b.tell ids o).Named := by
  have hcalls : ∀ c ∈ (b.tell ids o).calls, ∃ c' ∈ b.calls, c.id = c'.id := by
    intro c hc
    obtain ⟨c', hc', rfl⟩ := List.mem_map.mp hc
    exact ⟨c', hc', Call.told_id ..⟩
  refine ⟨?_, ?_, ?_, ?_, h.once⟩
  · show ((b.calls.map (Call.told ids o)).map (·.id)).Nodup
    simpa only [List.map_map, Function.comp_def, Call.told_id] using h.nodup
  · intro c hc
    obtain ⟨c', hc', hid⟩ := hcalls c hc
    rw [hid]
    exact h.known c' hc'
  · intro id o' hret
    refine ⟨(h.returned id o' hret).1, (h.returned id o' hret).2.1, fun c hc => ?_⟩
    obtain ⟨c', hc', hid⟩ := hcalls c hc
    rw [hid]
    exact (h.returned id o' hret).2.2 c' hc'
  · intro id hdrop
    refine ⟨(h.dropped id hdrop).1, fun c hc => ?_⟩
    obtain ⟨c', hc', hid⟩ := hcalls c hc
    rw [hid]
    exact (h.dropped id hdrop).2 c' hc'

/-- Whoever waits for a frame does not wait for a response. -/
theorem Kept.call_ne_of_waits (h : b.Kept) {a : Awaited} (ha : a ∈ b.table) (hw : b.Waits id) :
    a.call ≠ id := by
  rintro rfl
  obtain ⟨c, hc, hid, -, due, hwait⟩ := h.tabled.waiting a ha
  rcases hw with hdropped | ⟨c', hc', hid', hwritten, -⟩
  · exact (h.named.dropped _ hdropped).2 c hc hid
  · rw [h.named.call_inj hc hc' (hid.trans hid'.symm), hwritten] at hwait
    cases hwait

/-- Telling calls that have no entry in the table. -/
theorem Tabled.tell (h : b.Tabled) {ids : List CallId} (hids : ∀ a ∈ b.table, a.call ∉ ids)
    (o : Outcome) : (b.tell ids o).Tabled where
  keys := h.keys
  waiting a ha := by
    obtain ⟨c, hc, hid, hans, hwait⟩ := h.waiting a ha
    have htold : c.told ids o = c := Call.told_of_not_mem (hid ▸ hids a ha)
    exact ⟨c, List.mem_map.mpr ⟨c, hc, htold⟩, hid, hans, hwait⟩
  issued := h.issued
  known := h.known
  distinct := h.distinct
  settled q hq := (h.settled q hq).imp_left fun ⟨o', ht⟩ => ⟨o', ht.tell ids o⟩

/-- Nothing is taken back of what calls were told, and no call stops waiting. -/
theorem Queued.mono (h : b.Queued) {b' : Ledger} (haccepted : b'.accepted = b.accepted)
    (hpending : b'.pending = b.pending) (hwritten : b'.written = b.written)
    (hknown : ∀ id ∈ b.known, id ∈ b'.known) (htold : ∀ id o, b.Told id o → b'.Told id o)
    (hwaits : ∀ id, b.Waits id → b'.Waits id) : b'.Queued where
  known x hx id hid := hknown id (h.known x (haccepted ▸ hx) id hid)
  distinct := haccepted ▸ h.distinct
  once := by rw [hpending]; exact h.once
  pending x hx := by
    rw [hpending] at hx
    rw [haccepted]
    exact ⟨(h.pending x hx).1, fun id hid => hwaits id ((h.pending x hx).2 id hid)⟩
  written x hx := by
    rw [hwritten] at hx
    rw [haccepted]
    exact ⟨(h.written x hx).1, fun id hid => htold id _ ((h.written x hx).2 id hid)⟩
  settled x hx id hid := by
    rw [haccepted] at hx
    rw [hwritten, hpending]
    exact (h.settled x hx id hid).imp_right fun h => h.imp_right (htold id _)

/-! ### Disposing of frames -/

/-- The first of the pending frames are written, or refused. -/
def dispose (b : Ledger) (gone kept : List Outgoing) (written : Bool) : Ledger :=
  { b.tell (gone.filterMap (·.waiter)) (disposal written) with
    pending := kept
    written := if written then b.written ++ gone else b.written }

theorem Kept.dispose (h : b.Kept) {gone kept : List Outgoing} (hpending : b.pending = gone ++ kept)
    (written : Bool) : (b.dispose gone kept written).Kept := by
  have hnodup := h.queued.once
  rw [hpending, List.filterMap_append, List.nodup_append] at hnodup
  have hgone : ∀ x ∈ gone, x ∈ b.accepted ∧ ∀ id, x.waiter = some id → b.Waits id := fun x hx =>
    h.queued.pending x (hpending ▸ List.mem_append_left kept hx)
  have hkept : ∀ x ∈ kept, x ∈ b.accepted ∧ ∀ id, x.waiter = some id → b.Waits id := fun x hx =>
    h.queued.pending x (hpending ▸ List.mem_append_right gone hx)
  have hids : ∀ id ∈ gone.filterMap (·.waiter), b.Waits id := by
    intro id hid
    obtain ⟨x, hx, hwaiter⟩ := List.mem_filterMap.mp hid
    exact (hgone x hx).2 id hwaiter
  have htold : ∀ x ∈ gone, ∀ id, x.waiter = some id →
      (b.dispose gone kept written).Told id (disposal written) := fun x hx id hid =>
    ((hgone x hx).2 id hid).tell_of_mem (List.mem_filterMap.mpr ⟨x, hx, hid⟩) _
  have hold : ∀ id o, b.Told id o → (b.dispose gone kept written).Told id o := fun id o ht =>
    ht.tell _ _
  have hentries : ∀ a ∈ b.table, a.call ∉ gone.filterMap (·.waiter) := fun a ha hmem =>
    h.call_ne_of_waits ha (hids _ hmem) rfl
  have hnamed := h.named.tell (gone.filterMap (·.waiter)) (disposal written)
  have htabled := h.tabled.tell hentries (disposal written)
  refine ⟨{ hnamed with }, { htabled with }, ?_⟩
  · refine ⟨h.queued.known, h.queued.distinct, hnodup.2.1,
      fun x hx => ⟨(hkept x hx).1, fun id hid => ?_⟩, fun x hx => ?_, fun x hx id hid => ?_⟩
    · refine ((hkept x hx).2 id hid).tell_of_not_mem (fun hmem => ?_) _
      exact hnodup.2.2 id hmem id (List.mem_filterMap.mpr ⟨x, hx, hid⟩) rfl
    · cases written with
      | false =>
        have hx : x ∈ b.written := hx
        exact ⟨(h.queued.written x hx).1,
          fun id hid => hold id _ ((h.queued.written x hx).2 id hid)⟩
      | true =>
        rcases List.mem_append.mp (show x ∈ b.written ++ gone from hx) with hx | hx
        · exact ⟨(h.queued.written x hx).1,
            fun id hid => hold id _ ((h.queued.written x hx).2 id hid)⟩
        · exact ⟨(hgone x hx).1, fun id hid => htold x hx id hid⟩
    · have hwritten : ∀ y ∈ b.written, y ∈ (b.dispose gone kept written).written := by
        intro y hy
        cases written with
        | false => exact hy
        | true => exact List.mem_append_left gone hy
      rcases h.queued.settled x hx id hid with hdone | hwaiting | hrefused
      · exact .inl (hwritten x hdone)
      · rw [hpending] at hwaiting
        rcases List.mem_append.mp hwaiting with hg | hk
        · cases written with
          | false => exact .inr (.inr (htold x hg id hid))
          | true => exact .inl (List.mem_append_right b.written hg)
        · exact .inr (.inl hk)
      · exact .inr (.inr (hold id _ hrefused))

/-! ### Requests -/

/-- A request comes to an outcome, and its entry is taken out. -/
def resolve (b : Ledger) (a : Awaited) (o : Outcome) : Ledger :=
  { b.tell [a.call] o with table := b.table.filter (·.seq != a.seq) }

theorem Tabled.seq_inj (h : b.Tabled) {a a' : Awaited} (ha : a ∈ b.table) (ha' : a' ∈ b.table)
    (hseq : a.seq = a'.seq) : a = a' :=
  List.inj_on_of_nodup_map h.keys ha ha' hseq

/-- A call has one entry. -/
theorem Kept.entry_inj (h : b.Kept) {a a' : Awaited} (ha : a ∈ b.table) (ha' : a' ∈ b.table)
    (hcall : a.call = a'.call) : a = a' := by
  obtain ⟨c, hc, hid, -, due, hwait⟩ := h.tabled.waiting a ha
  obtain ⟨c', hc', hid', -, due', hwait'⟩ := h.tabled.waiting a' ha'
  rw [h.named.call_inj hc hc' (by rw [hid, hid', hcall]), hwait'] at hwait
  exact h.tabled.seq_inj ha ha' (Wait.response.inj hwait).1.symm

theorem Kept.resolve (h : b.Kept) {a : Awaited} (ha : a ∈ b.table) (o : Outcome) :
    (b.resolve a o).Kept := by
  have hmem : ∀ {a' : Awaited}, a' ∈ b.table.filter (·.seq != a.seq) ↔
      a' ∈ b.table ∧ a'.seq ≠ a.seq := by simp
  have htold : ∀ id o', b.Told id o' → (b.resolve a o).Told id o' := fun id o' ht => ht.tell _ _
  have hnamed := h.named.tell [a.call] o
  refine ⟨{ hnamed with }, ⟨?_, ?_, ?_, h.tabled.known, h.tabled.distinct, ?_⟩, ?_⟩
  · exact h.tabled.keys.sublist (List.filter_sublist.map _)
  · intro a' ha'
    obtain ⟨hin, hne⟩ := hmem.mp ha'
    obtain ⟨c, hc, hid, hans, hwait⟩ := h.tabled.waiting a' hin
    refine ⟨c, List.mem_map.mpr ⟨c, hc, Call.told_of_not_mem fun hcall => ?_⟩, hid, hans, hwait⟩
    rw [hid, List.mem_singleton] at hcall
    exact hne (congrArg Awaited.seq (h.entry_inj hin ha hcall))
  · exact fun a' ha' => h.tabled.issued a' (hmem.mp ha').1
  · intro q hq
    rcases h.tabled.settled q hq with ⟨o', ht⟩ | ⟨a', ha', hcall⟩
    · exact .inl ⟨o', htold _ _ ht⟩
    · by_cases hseq : a'.seq = a.seq
      · obtain ⟨c, hc, hid, hans, -⟩ := h.tabled.waiting a ha
        have hqa : q.call = c.id := by rw [← hcall, h.tabled.seq_inj ha' ha hseq, hid]
        rw [hqa]
        exact .inl ⟨o, told_tell hc hans (by rw [hid]; exact List.mem_singleton_self _) o⟩
      · exact .inr ⟨a', hmem.mpr ⟨ha', hseq⟩, hcall⟩
  · refine h.queued.mono rfl rfl rfl (fun _ h => h) htold fun id hw => ?_
    refine hw.tell_of_not_mem (fun hcall => ?_) o
    exact h.call_ne_of_waits ha hw (List.mem_singleton.mp hcall).symm

/-- Every request still waiting is refused. -/
def clear (b : Ledger) : Ledger :=
  { b.tell (b.table.map (·.call)) (.failed .closed) with table := [] }

theorem Kept.clear (h : b.Kept) : b.clear.Kept := by
  have htold : ∀ id o', b.Told id o' → b.clear.Told id o' := fun id o' ht => ht.tell _ _
  have hnamed := h.named.tell (b.table.map (·.call)) (.failed .closed)
  refine ⟨{ hnamed with }, ⟨List.nodup_nil, ?_, ?_, h.tabled.known, h.tabled.distinct, ?_⟩, ?_⟩
  · exact fun a ha => absurd ha List.not_mem_nil
  · exact fun a ha => absurd ha List.not_mem_nil
  · intro q hq
    rcases h.tabled.settled q hq with ⟨o', ht⟩ | ⟨a, ha, hcall⟩
    · exact .inl ⟨o', htold _ _ ht⟩
    · obtain ⟨c, hc, hid, hans, -⟩ := h.tabled.waiting a ha
      rw [← hcall, ← hid]
      refine .inl ⟨_, told_tell hc hans ?_ (.failed .closed)⟩
      rw [hid]
      exact List.mem_map_of_mem ha
  · refine h.queued.mono rfl rfl rfl (fun _ h => h) htold fun id hw => ?_
    refine hw.tell_of_not_mem (fun hcall => ?_) _
    obtain ⟨a, ha, hid⟩ := List.mem_map.mp hcall
    exact h.call_ne_of_waits ha hw hid

/-! ### Leaving -/

/-- A call is over, and takes its entry with it. -/
def leave (b : Ledger) (c : Call) : Ledger :=
  { b with calls := b.calls.filter (·.id != c.id), table := b.table.filter (·.call != c.id) }

def returns (b : Ledger) (c : Call) (o : Outcome) : Ledger :=
  { b.leave c with returned := b.returned ++ [(c.id, o)] }

def drops (b : Ledger) (c : Call) : Ledger := { b.leave c with dropped := b.dropped ++ [c.id] }

theorem mem_leave_calls {c c' : Call} :
    c' ∈ (b.leave c).calls ↔ c' ∈ b.calls ∧ c'.id ≠ c.id := by
  simp [leave]

theorem mem_leave_table {c : Call} {a : Awaited} :
    a ∈ (b.leave c).table ↔ a ∈ b.table ∧ a.call ≠ c.id := by
  simp [leave]

theorem Named.leave_nodup (h : b.Named) (c : Call) : ((b.leave c).calls.map (·.id)).Nodup :=
  h.nodup.sublist (List.filter_sublist.map _)

theorem Named.returns (h : b.Named) {c : Call} (hc : c ∈ b.calls) (o : Outcome) :
    (b.returns c o).Named := by
  have hnew : ∀ id o', (id, o') ∈ b.returned ++ [(c.id, o)] →
      (id, o') ∈ b.returned ∨ id = c.id := fun id o' hmem =>
    (List.mem_append.mp hmem).imp_right fun h => (Prod.mk.inj (List.mem_singleton.mp h)).1
  refine ⟨h.leave_nodup c, fun c' hc' => h.known c' (mem_leave_calls.mp hc').1,
    fun id o' hret => ?_, fun id hdrop => ?_, ?_⟩
  · rcases hnew id o' hret with hold | rfl
    · obtain ⟨hknown, hdropped, hcalls⟩ := h.returned id o' hold
      exact ⟨hknown, hdropped, fun c' hc' => hcalls c' (mem_leave_calls.mp hc').1⟩
    · exact ⟨h.known c hc, fun hdrop => (h.dropped _ hdrop).2 c hc rfl,
        fun c' hc' => (mem_leave_calls.mp hc').2⟩
  · exact ⟨(h.dropped id hdrop).1,
      fun c' hc' => (h.dropped id hdrop).2 c' (mem_leave_calls.mp hc').1⟩
  · show ((b.returned ++ [(c.id, o)]).map (·.1)).Nodup
    rw [List.map_append, List.nodup_append]
    refine ⟨h.once, List.nodup_singleton _, fun id hid id' hid' => ?_⟩
    obtain ⟨⟨id, o'⟩, hret, rfl⟩ := List.mem_map.mp hid
    rw [List.mem_singleton.mp hid']
    exact fun heq => (h.returned id o' hret).2.2 c hc heq.symm

theorem Named.drops (h : b.Named) {c : Call} (hc : c ∈ b.calls) : (b.drops c).Named := by
  refine ⟨h.leave_nodup c, fun c' hc' => h.known c' (mem_leave_calls.mp hc').1,
    fun id o' hret => ?_, fun id hdrop => ?_, h.once⟩
  · obtain ⟨hknown, hdropped, hcalls⟩ := h.returned id o' hret
    refine ⟨hknown, fun hdrop => ?_, fun c' hc' => hcalls c' (mem_leave_calls.mp hc').1⟩
    rcases List.mem_append.mp hdrop with hdrop | hdrop
    · exact hdropped hdrop
    · exact hcalls c hc (List.mem_singleton.mp hdrop).symm
  · rcases List.mem_append.mp hdrop with hdrop | hdrop
    · exact ⟨(h.dropped id hdrop).1,
        fun c' hc' => (h.dropped id hdrop).2 c' (mem_leave_calls.mp hc').1⟩
    · rw [List.mem_singleton.mp hdrop]
      exact ⟨h.known c hc, fun c' hc' => (mem_leave_calls.mp hc').2⟩

/-- What a call that returns was told, it returns. -/
theorem Named.told_returns (h : b.Named) {c : Call} (hc : c ∈ b.calls) {o : Outcome}
    (ho : ∀ o', c.answer = some o' → o' = o) {o' : Outcome} (ht : b.Told id o') :
    (b.returns c o).Told id o' := by
  rcases ht with hdrop | hret | ⟨c', hc', hid, hans⟩
  · exact .inl hdrop
  · exact .inr (.inl (List.mem_append_left _ hret))
  · by_cases hcc : c'.id = c.id
    · rw [h.call_inj hc' hc hcc] at hid hans
      rw [← hid, ho o' hans]
      exact .inr (.inl (List.mem_append_right _ (List.mem_singleton_self _)))
    · exact .inr (.inr ⟨c', mem_leave_calls.mpr ⟨hc', hcc⟩, hid, hans⟩)

theorem told_drops {c : Call} {o : Outcome} (ht : b.Told id o) : (b.drops c).Told id o := by
  rcases ht with hdrop | hret | ⟨c', hc', hid, hans⟩
  · exact .inl (List.mem_append_left _ hdrop)
  · exact .inr (.inl hret)
  · by_cases hcc : c'.id = c.id
    · rw [← hid, hcc]
      exact .inl (List.mem_append_right _ (List.mem_singleton_self _))
    · exact .inr (.inr ⟨c', mem_leave_calls.mpr ⟨hc', hcc⟩, hid, hans⟩)

/-- The entries of the calls that stay are still there. -/
theorem Tabled.leave (h : b.Tabled) (c : Call) {b' : Ledger}
    (hcalls : b'.calls = (b.leave c).calls) (htable : b'.table = (b.leave c).table)
    (hissued : b'.issued = b.issued) (hknown : b'.known = b.known)
    (htold : ∀ id o, b.Told id o → b'.Told id o) (hgone : ∃ o, b'.Told c.id o) : b'.Tabled where
  keys := by
    rw [htable]
    exact h.keys.sublist (List.filter_sublist.map _)
  waiting a ha := by
    rw [htable] at ha
    obtain ⟨hin, hne⟩ := mem_leave_table.mp ha
    obtain ⟨c', hc', hid, hrest⟩ := h.waiting a hin
    rw [hcalls]
    exact ⟨c', mem_leave_calls.mpr ⟨hc', hid ▸ hne⟩, hid, hrest⟩
  issued a ha := by
    rw [htable] at ha
    rw [hissued]
    exact h.issued a (mem_leave_table.mp ha).1
  known := by rw [hissued, hknown]; exact h.known
  distinct := by rw [hissued]; exact h.distinct
  settled q hq := by
    rw [hissued] at hq
    rcases h.settled q hq with ⟨o, ht⟩ | ⟨a, ha, hcall⟩
    · exact .inl ⟨o, htold _ o ht⟩
    · by_cases hcc : a.call = c.id
      · rw [← hcall, hcc]
        exact .inl hgone
      · rw [htable]
        exact .inr ⟨a, mem_leave_table.mpr ⟨ha, hcc⟩, hcall⟩

/-- A call returns with its answer, or at the deadline of a request. -/
theorem Kept.returns (h : b.Kept) {c : Call} (hc : c ∈ b.calls)
    (ho : ∀ o', c.answer = some o' → o' = o) (hover : c.wait = .written → c.answer ≠ none) :
    (b.returns c o).Kept := by
  have htold : ∀ id o', b.Told id o' → (b.returns c o).Told id o' :=
    fun _ _ ht => h.named.told_returns hc ho ht
  have hgone : (b.returns c o).Told c.id o :=
    .inr (.inl (List.mem_append_right _ (List.mem_singleton_self _)))
  refine ⟨h.named.returns hc o, h.tabled.leave c rfl rfl rfl rfl htold ⟨o, hgone⟩,
    h.queued.mono rfl rfl rfl (fun _ h => h) htold fun id hw => ?_⟩
  refine hw.imp_right fun ⟨c', hc', hid, hwait, hans⟩ => ?_
  refine ⟨c', mem_leave_calls.mpr ⟨hc', fun hcc => ?_⟩, hid, hwait, hans⟩
  rw [h.named.call_inj hc' hc hcc] at hwait hans
  exact hover hwait hans

/-- A call is given up. -/
theorem Kept.drops (h : b.Kept) {c : Call} (hc : c ∈ b.calls) : (b.drops c).Kept := by
  have hgone : c.id ∈ (b.drops c).dropped :=
    List.mem_append_right _ (List.mem_singleton_self _)
  refine ⟨h.named.drops hc,
    h.tabled.leave c rfl rfl rfl rfl (fun _ _ ht => told_drops ht) ⟨.done, .inl hgone⟩,
    h.queued.mono rfl rfl rfl (fun _ h => h) (fun _ _ ht => told_drops ht) fun id hw => ?_⟩
  rcases hw with hdrop | ⟨c', hc', hid, hrest⟩
  · exact .inl (List.mem_append_left _ hdrop)
  · by_cases hcc : c'.id = c.id
    · rw [← hid, hcc]
      exact .inl hgone
    · exact .inr ⟨c', mem_leave_calls.mpr ⟨hc', hcc⟩, hid, hrest⟩

/-- Taking out the entry under a number whose caller is gone takes out the caller's entry and
no other. -/
theorem Kept.release_eq (h : b.Kept) {c : Call} (hc : c ∈ b.calls) :
    (match c.wait with
      | .written => b.table
      | .response seq _ => b.table.filter fun a =>
          a.seq != seq || (b.calls.filter (·.id != c.id)).any (·.id == a.call)) =
      b.table.filter (·.call != c.id) := by
  -- The entry of a call that waits is under the number that the call waits for.
  have hown : ∀ a ∈ b.table, a.call = c.id → ∃ due, c.wait = .response a.seq due := by
    intro a ha hcall
    obtain ⟨c', hc', hid, -, hwait⟩ := h.tabled.waiting a ha
    rwa [h.named.call_inj hc' hc (hid.trans hcall)] at hwait
  have hother : ∀ a ∈ b.table, a.call ≠ c.id →
      (b.calls.filter (·.id != c.id)).any (·.id == a.call) = true := by
    intro a ha hcall
    obtain ⟨c', hc', hid, -⟩ := h.tabled.waiting a ha
    refine List.any_eq_true.mpr ⟨c', List.mem_filter.mpr ⟨hc', ?_⟩, ?_⟩
    · simpa [hid] using hcall
    · simpa using hid
  cases hwait : c.wait with
  | written =>
    refine (List.filter_eq_self.mpr fun a ha => ?_).symm
    simp only [bne_iff_ne]
    intro hcall
    obtain ⟨due, hresponse⟩ := hown a ha hcall
    rw [hwait] at hresponse
    cases hresponse
  | response seq due =>
    refine List.filter_congr fun a ha => ?_
    by_cases hcall : a.call = c.id
    · obtain ⟨due', hresponse⟩ := hown a ha hcall
      rw [hwait] at hresponse
      obtain ⟨rfl, -⟩ := Wait.response.inj hresponse
      simp [hcall]
    · rw [hother a ha hcall, Bool.or_true]
      exact (bne_iff_ne.mpr hcall).symm

/-! ### Calls are made -/

/-- A call is refused at once. -/
def refuse (b : Ledger) (id : CallId) (err : Error) : Ledger :=
  { b with known := b.known ++ [id], returned := b.returned ++ [(id, .failed err)] }

/-- A frame is accepted, and nobody waits for it. -/
def accept (b : Ledger) (f : Frame) : Ledger :=
  { b with pending := b.pending ++ [{ frame := f }], accepted := b.accepted ++ [{ frame := f }] }

/-- A call waits for its frame to be written. -/
def write (b : Ledger) (id : CallId) (f : Frame) : Ledger :=
  { b with
    calls := b.calls ++ [{ id, wait := .written }]
    pending := b.pending ++ [{ frame := f, waiter := some id }]
    known := b.known ++ [id]
    accepted := b.accepted ++ [{ frame := f, waiter := some id }] }

/-- A call waits for the response to its request. -/
def request (b : Ledger) (id : CallId) (f : Frame) (capacity due : Nat) : Ledger :=
  { b.accept f with
    calls := b.calls ++ [{ id, wait := .response f.seq due }]
    table := b.table ++ [{ seq := f.seq, call := id, capacity }]
    known := b.known ++ [id]
    issued := b.issued ++ [⟨id, f⟩] }

theorem Named.refuse (h : b.Named) (hnew : id ∉ b.known) (err : Error) :
    (b.refuse id err).Named := by
  refine ⟨h.nodup, fun c hc => List.mem_append_left _ (h.known c hc), fun id' o hret => ?_,
    fun id' hdrop => ⟨List.mem_append_left _ (h.dropped id' hdrop).1, (h.dropped id' hdrop).2⟩, ?_⟩
  · rcases List.mem_append.mp hret with hold | hlast
    · obtain ⟨hknown, hrest⟩ := h.returned id' o hold
      exact ⟨List.mem_append_left _ hknown, hrest⟩
    · obtain ⟨rfl, -⟩ := Prod.mk.inj (List.mem_singleton.mp hlast)
      exact ⟨List.mem_append_right _ (List.mem_singleton_self _),
        fun hdrop => hnew (h.dropped _ hdrop).1, fun c hc hid => hnew (hid ▸ h.known c hc)⟩
  · show ((b.returned ++ [(id, Outcome.failed err)]).map (·.1)).Nodup
    rw [List.map_append, List.nodup_append]
    refine ⟨h.once, List.nodup_singleton _, fun id' hid' id'' hid'' => ?_⟩
    obtain ⟨⟨id', o⟩, hret, rfl⟩ := List.mem_map.mp hid'
    rw [List.mem_singleton.mp hid'']
    rintro rfl
    exact hnew (h.returned _ o hret).1

/-- A new call joins those that wait. -/
theorem Named.join (h : b.Named) (hnew : id ∉ b.known) {c : Call} (hid : c.id = id) {b' : Ledger}
    (hcalls : b'.calls = b.calls ++ [c]) (hknown : b'.known = b.known ++ [id])
    (hreturned : b'.returned = b.returned) (hdropped : b'.dropped = b.dropped) : b'.Named where
  nodup := by
    rw [hcalls, List.map_append, List.nodup_append]
    refine ⟨h.nodup, List.nodup_singleton _, fun i hi j hj => ?_⟩
    obtain ⟨c', hc', rfl⟩ := List.mem_map.mp hi
    obtain rfl : j = c.id := List.mem_singleton.mp hj
    rw [hid]
    exact fun heq => hnew (heq ▸ h.known c' hc')
  known c' hc' := by
    rw [hcalls] at hc'
    rw [hknown]
    rcases List.mem_append.mp hc' with hc' | hc'
    · exact List.mem_append_left _ (h.known c' hc')
    · rw [List.mem_singleton.mp hc', hid]
      exact List.mem_append_right _ (List.mem_singleton_self _)
  returned id' o hret := by
    rw [hreturned] at hret
    rw [hknown, hdropped, hcalls]
    obtain ⟨hin, hnot, hcs⟩ := h.returned id' o hret
    refine ⟨List.mem_append_left _ hin, hnot, fun c' hc' => ?_⟩
    rcases List.mem_append.mp hc' with hc' | hc'
    · exact hcs c' hc'
    · rw [List.mem_singleton.mp hc', hid]
      rintro rfl
      exact hnew hin
  dropped id' hdrop := by
    rw [hdropped] at hdrop
    rw [hknown, hcalls]
    obtain ⟨hin, hcs⟩ := h.dropped id' hdrop
    refine ⟨List.mem_append_left _ hin, fun c' hc' => ?_⟩
    rcases List.mem_append.mp hc' with hc' | hc'
    · exact hcs c' hc'
    · rw [List.mem_singleton.mp hc', hid]
      rintro rfl
      exact hnew hin
  once := by rw [hreturned]; exact h.once

section
variable {b' : Ledger}

theorem Told.mono (ht : b.Told id o) (hcalls : b.calls ⊆ b'.calls)
    (hreturned : b.returned ⊆ b'.returned) (hdropped : b.dropped ⊆ b'.dropped) : b'.Told id o := by
  rcases ht with hdrop | hret | ⟨c, hc, hrest⟩
  · exact .inl (hdropped hdrop)
  · exact .inr (.inl (hreturned hret))
  · exact .inr (.inr ⟨c, hcalls hc, hrest⟩)

theorem Waits.mono (hw : b.Waits id) (hcalls : b.calls ⊆ b'.calls)
    (hdropped : b.dropped ⊆ b'.dropped) : b'.Waits id := by
  rcases hw with hdrop | ⟨c, hc, hrest⟩
  · exact .inl (hdropped hdrop)
  · exact .inr ⟨c, hcalls hc, hrest⟩

theorem Tabled.mono (h : b.Tabled) (htable : b'.table = b.table) (hissued : b'.issued = b.issued)
    (hknown : b.known ⊆ b'.known) (hcalls : b.calls ⊆ b'.calls)
    (htold : ∀ id o, b.Told id o → b'.Told id o) : b'.Tabled where
  keys := by rw [htable]; exact h.keys
  waiting a ha := by
    rw [htable] at ha
    obtain ⟨c, hc, hrest⟩ := h.waiting a ha
    exact ⟨c, hcalls hc, hrest⟩
  issued := by rw [htable, hissued]; exact h.issued
  known q hq := hknown (h.known q (hissued ▸ hq))
  distinct := by rw [hissued]; exact h.distinct
  settled q hq := by
    rw [hissued] at hq
    rw [htable]
    exact (h.settled q hq).imp_left fun ⟨o, ht⟩ => ⟨o, htold _ o ht⟩

/-- Another frame is pending, and its call, if there is one, is new and waits. -/
theorem Queued.extend (h : b.Queued) {x : Outgoing} (haccepted : b'.accepted = b.accepted ++ [x])
    (hpending : b'.pending = b.pending ++ [x]) (hwritten : b'.written = b.written)
    (hknown : b.known ⊆ b'.known) (htold : ∀ id o, b.Told id o → b'.Told id o)
    (hwaits : ∀ id, b.Waits id → b'.Waits id)
    (hnew : ∀ id, x.waiter = some id → id ∉ b.known ∧ id ∈ b'.known ∧ b'.Waits id) :
    b'.Queued where
  known y hy id hid := by
    rw [haccepted] at hy
    rcases List.mem_append.mp hy with hy | hy
    · exact hknown (h.known y hy id hid)
    · rw [List.mem_singleton.mp hy] at hid
      exact (hnew id hid).2.1
  distinct y hy z hz id hyid hzid := by
    rw [haccepted] at hy hz
    rcases List.mem_append.mp hy with hy | hy <;> rcases List.mem_append.mp hz with hz | hz
    · exact h.distinct y hy z hz id hyid hzid
    · rw [List.mem_singleton.mp hz] at hzid
      exact absurd (h.known y hy id hyid) (hnew id hzid).1
    · rw [List.mem_singleton.mp hy] at hyid
      exact absurd (h.known z hz id hzid) (hnew id hyid).1
    · rw [List.mem_singleton.mp hy, List.mem_singleton.mp hz]
  once := by
    rw [hpending, List.filterMap_append, List.nodup_append]
    refine ⟨h.once, ?_, fun i hi j hj => ?_⟩
    · cases hx : x.waiter <;> simp [hx]
    · obtain ⟨y, hy, hyid⟩ := List.mem_filterMap.mp hi
      obtain ⟨z, hz, hzid⟩ := List.mem_filterMap.mp hj
      rw [List.mem_singleton.mp hz] at hzid
      rintro rfl
      exact (hnew i hzid).1 (h.known y (h.pending y hy).1 i hyid)
  pending y hy := by
    rw [hpending] at hy
    rw [haccepted]
    rcases List.mem_append.mp hy with hy | hy
    · exact ⟨List.mem_append_left _ (h.pending y hy).1,
        fun id hid => hwaits id ((h.pending y hy).2 id hid)⟩
    · rw [List.mem_singleton.mp hy]
      exact ⟨List.mem_append_right _ (List.mem_singleton_self x), fun id hid => (hnew id hid).2.2⟩
  written y hy := by
    rw [hwritten] at hy
    rw [haccepted]
    exact ⟨List.mem_append_left _ (h.written y hy).1,
      fun id hid => htold id _ ((h.written y hy).2 id hid)⟩
  settled y hy id hid := by
    rw [haccepted] at hy
    rw [hwritten, hpending]
    rcases List.mem_append.mp hy with hy | hy
    · rcases h.settled y hy id hid with hdone | hwaiting | hrefused
      · exact .inl hdone
      · exact .inr (.inl (List.mem_append_left _ hwaiting))
      · exact .inr (.inr (htold id _ hrefused))
    · exact .inr (.inl (List.mem_append_right _ hy))

end

theorem Kept.refuse (h : b.Kept) (hnew : id ∉ b.known) (err : Error) : (b.refuse id err).Kept := by
  have htold : ∀ id' o, b.Told id' o → (b.refuse id err).Told id' o := fun _ _ ht =>
    ht.mono (List.Subset.refl _) (List.subset_append_left _ _) (List.Subset.refl _)
  exact ⟨h.named.refuse hnew err,
    h.tabled.mono rfl rfl (List.subset_append_left _ _) (List.Subset.refl _) htold,
    h.queued.mono rfl rfl rfl (fun _ hid => List.mem_append_left _ hid) htold fun _ hw => hw⟩

theorem Kept.accept (h : b.Kept) (f : Frame) : (b.accept f).Kept := by
  have hnamed := h.named
  have htabled := h.tabled
  exact ⟨{ hnamed with }, { htabled with },
    h.queued.extend (x := { frame := f }) rfl rfl rfl (List.Subset.refl _) (fun _ _ ht => ht)
      (fun _ hw => hw) fun _ hid => nomatch hid⟩

theorem Kept.write (h : b.Kept) (hnew : id ∉ b.known) (f : Frame) : (b.write id f).Kept := by
  have hcalls : b.calls ⊆ (b.write id f).calls := List.subset_append_left _ _
  have hknown : b.known ⊆ (b.write id f).known := List.subset_append_left _ _
  have htold : ∀ id' o, b.Told id' o → (b.write id f).Told id' o := fun _ _ ht =>
    ht.mono hcalls (List.Subset.refl _) (List.Subset.refl _)
  refine ⟨h.named.join (c := { id, wait := .written }) hnew rfl rfl rfl rfl rfl,
    h.tabled.mono rfl rfl hknown hcalls htold,
    h.queued.extend (x := { frame := f, waiter := some id }) rfl rfl rfl hknown htold
      (fun _ hw => hw.mono hcalls (List.Subset.refl _)) ?_⟩
  rintro _ ⟨⟩
  exact ⟨hnew, List.mem_append_right _ (List.mem_singleton_self id),
    .inr ⟨_, List.mem_append_right _ (List.mem_singleton_self _), rfl, rfl, rfl⟩⟩

/-- A request is entered under a number that is free. -/
theorem Kept.request (h : b.Kept) (hnew : id ∉ b.known) {f : Frame}
    (hfree : f.seq ∉ b.table.map (·.seq)) (capacity due : Nat) :
    (b.request id f capacity due).Kept := by
  have hcalls : b.calls ⊆ (b.request id f capacity due).calls := List.subset_append_left _ _
  have hknown : b.known ⊆ (b.request id f capacity due).known := List.subset_append_left _ _
  have htold : ∀ id' o, b.Told id' o → (b.request id f capacity due).Told id' o := fun _ _ ht =>
    ht.mono hcalls (List.Subset.refl _) (List.Subset.refl _)
  refine ⟨h.named.join (c := { id, wait := .response f.seq due }) hnew rfl rfl rfl rfl rfl,
    ⟨?_, fun a ha => ?_, fun a ha => ?_, fun q hq => ?_, ?_, fun q hq => ?_⟩,
    h.queued.extend (x := { frame := f }) rfl rfl rfl hknown htold
      (fun _ hw => hw.mono hcalls (List.Subset.refl _)) fun _ hid => nomatch hid⟩
  · show ((b.table ++ [Awaited.mk f.seq id capacity]).map (·.seq)).Nodup
    rw [List.map_append, List.nodup_append]
    refine ⟨h.tabled.keys, List.nodup_singleton _, fun seq hseq seq' hseq' => ?_⟩
    obtain rfl : seq' = f.seq := List.mem_singleton.mp hseq'
    rintro rfl
    exact hfree hseq
  · rcases List.mem_append.mp ha with ha | ha
    · obtain ⟨c, hc, hrest⟩ := h.tabled.waiting a ha
      exact ⟨c, hcalls hc, hrest⟩
    · rw [List.mem_singleton.mp ha]
      exact ⟨_, List.mem_append_right _ (List.mem_singleton_self _), rfl, rfl, due, rfl⟩
  · rcases List.mem_append.mp ha with ha | ha
    · obtain ⟨q, hq, hrest⟩ := h.tabled.issued a ha
      exact ⟨q, List.mem_append_left _ hq, hrest⟩
    · rw [List.mem_singleton.mp ha]
      exact ⟨_, List.mem_append_right _ (List.mem_singleton_self _), rfl, rfl⟩
  · rcases List.mem_append.mp hq with hq | hq
    · exact hknown (h.tabled.known q hq)
    · rw [List.mem_singleton.mp hq]
      exact List.mem_append_right _ (List.mem_singleton_self id)
  · show ((b.issued ++ [Issued.mk id f]).map (·.call)).Nodup
    rw [List.map_append, List.nodup_append]
    refine ⟨h.tabled.distinct, List.nodup_singleton _, fun i hi j hj => ?_⟩
    obtain ⟨q, hq, rfl⟩ := List.mem_map.mp hi
    obtain rfl : j = id := List.mem_singleton.mp hj
    rintro rfl
    exact hnew (h.tabled.known q hq)
  · rcases List.mem_append.mp hq with hq | hq
    · rcases h.tabled.settled q hq with ⟨o, ht⟩ | ⟨a, ha, hcall⟩
      · exact .inl ⟨o, htold _ o ht⟩
      · exact .inr ⟨a, List.mem_append_left _ ha, hcall⟩
    · rw [List.mem_singleton.mp hq]
      exact .inr ⟨_, List.mem_append_right _ (List.mem_singleton_self _), rfl⟩

end Ledger
end Parley.Engine
