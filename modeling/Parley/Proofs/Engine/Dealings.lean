import Parley.Proofs.Engine.Ledger
import Parley.Proofs.Sequence

/-! What an engine asks and answers.

Of all that happens at a site, its `Account` keeps what concerns requests: the frames that
are accepted, received and delivered, the requests that are made, and the table they wait
in. Every move is a `Turn` of one of a few kinds (`turn_of_move`). Hence a frame with a
number is a request of the engine's own or the application's reply to a frame with that
number (`Sourced`), and as long as they last, the requests have the numbers from 1 on, each
its own (`Numbered`). -/
namespace Parley.Engine
open Channel

structure Account where
  accepted : List Outgoing
  issued : List Issued
  received : List Frame
  delivered : List Frame
  table : List Awaited
  sequence : Sequence

def Site.account (s : Site) : Account where
  accepted := s.log.accepted
  issued := s.log.issued
  received := s.log.received
  delivered := s.log.delivered
  table := s.engine.table
  sequence := s.engine.sequence

/-- A call has come to a response. -/
def Site.Answers (s : Site) (id : CallId) (payload : Bytes) : Prop :=
  s.ledger.CameTo id (.response payload)

/-- What a move does to a site, as far as requests go. -/
inductive Turn (reply : Bytes → Option Bytes) (s s' : Site) : Prop where
  /-- Entries may go, and calls return. -/
  | quiet {table} (h : s'.account = { s.account with table })
      (htable : ∀ a ∈ table, a ∈ s.engine.table)
      (hanswers : ∀ id v, s'.Answers id v → s.Answers id v)
  /-- A message is queued. -/
  | posts {o} (h : s'.account = { s.account with accepted := s.log.accepted ++ [o] })
      (ho : o.frame.isMessage = true)
      (hanswers : ∀ id v, s'.Answers id v → s.Answers id v)
  /-- A request is made under the next number. -/
  | asks {id payload capacity} (hnew : id ∉ s.log.calls)
      (h : s'.account = { s.account with
        accepted := s.log.accepted ++ [{ frame := ⟨s.engine.nextSeq, payload⟩ }]
        issued := s.log.issued ++ [⟨id, ⟨s.engine.nextSeq, payload⟩⟩]
        table := s.engine.table ++ [{ seq := s.engine.nextSeq, call := id, capacity }]
        sequence := (s.engine.sequence.nextFree (s.engine.table.map (·.seq))).2 })
      (hanswers : ∀ id v, s'.Answers id v → s.Answers id v)
  /-- A frame is received that no request waits for. -/
  | takes {f} (h : s'.account = { s.account with received := s.log.received ++ [f] })
      (hother : f.isMessage = true ∨ ∀ a ∈ s.engine.table, a.seq ≠ f.seq)
      (hanswers : ∀ id v, s'.Answers id v → s.Answers id v)
  /-- A frame is received that a request waits for, and may answer it. -/
  | resolves {f a} (h : s'.account = { s.account with
        received := s.log.received ++ [f]
        table := s.engine.table.filter (·.seq != a.seq) })
      (hf : f.isMessage = false) (ha : a ∈ s.engine.table) (hseq : a.seq = f.seq)
      (hanswers : ∀ id v, s'.Answers id v → s.Answers id v ∨ (id = a.call ∧ v = f.payload))
  /-- The application is done with a frame. -/
  | delivers {f} (h : s'.account = { s.account with delivered := s.log.delivered ++ [f] })
      (hanswers : ∀ id v, s'.Answers id v → s.Answers id v)
  /-- The application is done with a request, and its reply is queued. -/
  | replies {f payload} (hf : f.isMessage = false) (hreply : reply f.payload = some payload)
      (h : s'.account = { s.account with
        accepted := s.log.accepted ++ [{ frame := ⟨f.seq, payload⟩ }]
        delivered := s.log.delivered ++ [f] })
      (hanswers : ∀ id v, s'.Answers id v → s.Answers id v)

/-! ### Answers come from responses -/

section
variable {b : Ledger} {id : CallId} {o : Outcome}

theorem Ledger.cameTo_of_tell {ids : List CallId} {o' : Outcome} (h : (b.tell ids o').CameTo id o) :
    b.CameTo id o ∨ (id ∈ ids ∧ o = o') := by
  rcases h with hret | ⟨c, hc, hid, hans⟩
  · exact .inl (.inl hret)
  · obtain ⟨c', hc', rfl⟩ := List.mem_map.mp hc
    rw [Call.told_id] at hid
    by_cases hold : c'.id ∈ ids ∧ c'.answer = none
    · rw [Call.told_of_mem hold.1 hold.2] at hans
      exact .inr ⟨hid ▸ hold.1, (Option.some.inj hans).symm⟩
    · refine .inl (.inr ⟨c', hc', hid, ?_⟩)
      cases hanswer : c'.answer with
      | some o'' => rwa [Call.told_of_answer hanswer, hanswer] at hans
      | none =>
        have hnot : c'.id ∉ ids := fun hmem => hold ⟨hmem, hanswer⟩
        rw [Call.told_of_not_mem hnot, hanswer] at hans
        cases hans

end

/-! ### Every move is a turn -/

section
variable {key : SessionKey} {role : Role} {env : Env} {s s' : Site} {e : Engine}
  {stream : Duplex} {events : List Event}

/-- A queue that does not grow takes no frame. -/
theorem accepted_of_queue (events : List Event) (h : e.queue.length ≤ s.engine.queue.length) :
    (s.logged e stream events).accepted = s.log.accepted := by
  rw [Site.accepted_logged, List.drop_eq_nil_of_le h, List.append_nil]

theorem accepted_enqueue (events : List Event) {o : Outgoing}
    (h : e.queue = s.engine.queue ++ [o]) :
    (s.logged e stream events).accepted = s.log.accepted ++ [o] := by
  rw [Site.accepted_logged, h, List.drop_left]

theorem queue_stepped (h : Stepped env s.engine s.stream e stream events)
    (hstopped : s.engine.stopped = true) : e.queue.length ≤ s.engine.queue.length := by
  cases h with
  | answered
  | expired => exact Nat.le_of_eq (congrArg List.length (queue_leave _ _))
  | placed => exact Nat.le_of_eq (congrArg (·.queue.length) (complete_eq _ _ _))
  | closed
  | closeFailed
  | writeFailed
  | batched => exact Nat.zero_le _
  | readEnded
  | readExpired
  | overflowed => exact Nat.le_of_eq (congrArg (·.queue.length) (readLoopEnds_eq _ _ _))
  | replied _ _ _ _ htaken => exact absurd hstopped (by rw [(refusal_eq_none htaken).2]; decide)
  | _ => exact Nat.le_refl _

/-- An engine that takes no more frames accepts none. -/
theorem accepted_of_stopped (h : Move key role env s s') (hstopped : s.engine.stopped = true) :
    s'.log.accepted = s.log.accepted := by
  have hrefused : s.engine.stopped ≠ false := ne_false_of_eq_true hstopped
  cases h with
  | post h => exact absurd (post_eq_ok h).1 hrefused
  | write _ h => exact absurd (write_eq_ok h).1 hrefused
  | request _ _ h => exact absurd (request_eq_ok h).1 hrefused
  | refuse
  | giveUp => rfl
  | start h =>
    obtain ⟨-, rfl⟩ := start_eq_ok h
    exact accepted_of_queue _ (Nat.le_refl _)
  | abandon =>
    refine accepted_of_queue _ ?_
    rw [abandon]
    split
    · exact Nat.le_refl _
    · rw [completeAll_eq]
      exact Nat.le_refl _
  | step h => exact accepted_of_queue _ (queue_stepped (stepped_of_step h) hstopped)

theorem answers_tell (ids : List CallId) {o : Outcome} (ho : ∀ v, o ≠ .response v)
    (hcalls : s'.engine.calls = s.engine.calls.map (Call.told ids o))
    (hreturned : s'.log.returned = s.log.returned) {id : CallId} {v : Bytes} (h : s'.Answers id v) :
    s.Answers id v := by
  have htold : (s.ledger.tell ids o).CameTo id (.response v) := by
    have hcalls' : s'.ledger.calls = (s.ledger.tell ids o).calls := hcalls
    have hreturned' : s'.ledger.returned = (s.ledger.tell ids o).returned := hreturned
    rw [Site.Answers, Ledger.CameTo, hcalls', hreturned'] at h
    exact h
  exact (Ledger.cameTo_of_tell htold).resolve_right fun h => ho v h.2.symm

theorem answers_finished {e' : Engine} {ids : List CallId}
    (hcalls : e'.calls = s.engine.calls.map (Call.told ids (.failed .closed)))
    (he : s'.engine = e'.finished) (hreturned : s'.log.returned = s.log.returned) {id : CallId}
    {v : Bytes} (h : s'.Answers id v) : s.Answers id v := by
  have hall := calls_finished hcalls
  rw [← he] at hall
  exact answers_tell _ (by rintro _ ⟨⟩) hall hreturned h

theorem account_after {accepted : List Outgoing}
    (h : (s.logged e stream events).accepted = accepted) :
    (s.after e stream events).account = {
      accepted
      issued := (s.logged e stream events).issued
      received := (s.logged e stream events).received
      delivered := (s.logged e stream events).delivered
      table := e.table
      sequence := e.sequence } := by
  subst h
  rfl

theorem account_kept (events : List Event) (h : e.queue.length ≤ s.engine.queue.length) :
    (s.after e stream events).account = {
      accepted := s.log.accepted
      issued := (s.logged e stream events).issued
      received := (s.logged e stream events).received
      delivered := (s.logged e stream events).delivered
      table := e.table
      sequence := e.sequence } :=
  account_after (accepted_of_queue events h)

/-- A call is over, and its entry may go. -/
theorem turn_leave {c : Call} (he : s'.engine = s.engine.leave c)
    (haccepted : s'.log.accepted = s.log.accepted) (hissued : s'.log.issued = s.log.issued)
    (hreceived : s'.log.received = s.log.received) (hdelivered : s'.log.delivered = s.log.delivered)
    (hreturned : ∀ id v, (id, .response v) ∈ s'.log.returned → s.Answers id v)
    {reply : Bytes → Option Bytes} : Turn reply s s' := by
  have hcalls : s'.engine.calls = s.engine.calls.filter (·.id != c.id) := by rw [he, leave_eq]
  have hacc : s'.account = { s.account with table := s'.engine.table } := by
    simp only [Site.account, haccepted, hissued, hreceived, hdelivered]
    rw [he, leave_eq]
  refine .quiet hacc ?_ fun id v h => ?_
  · rw [he, leave_eq]
    cases c.wait with
    | written => exact fun a ha => ha
    | response seq due => exact fun a ha => List.mem_of_mem_filter ha
  · rcases h with hret | ⟨c', hc', hrest⟩
    · exact hreturned id v hret
    · have hc' : c' ∈ s'.engine.calls := hc'
      rw [hcalls] at hc'
      exact .inr ⟨c', List.mem_of_mem_filter hc', hrest⟩

/-- A call returns: with its answer, if that is a response. -/
theorem turn_returns {c : Call} {o : Outcome} (hc : c ∈ s.engine.calls)
    (ho : ∀ v, o = .response v → c.answer = some o) (hnotes : ∀ l : Log,
      events.foldl Log.note l = { l with returned := l.returned ++ [(c.id, o)] })
    {reply : Bytes → Option Bytes} :
    Turn reply s (s.after (s.engine.leave c) s.stream events) := by
  have hlog : s.logged (s.engine.leave c) s.stream events =
      { s.logged (s.engine.leave c) s.stream [] with
        returned := s.log.returned ++ [(c.id, o)] } := hnotes _
  refine turn_leave rfl (accepted_of_queue _ ?_) ?_ ?_ ?_ fun id v hret => ?_
  · exact Nat.le_of_eq (congrArg List.length (queue_leave ..))
  · exact (congrArg Log.issued hlog).trans rfl
  · exact (congrArg Log.received hlog).trans rfl
  · exact (congrArg Log.delivered hlog).trans rfl
  · rw [Site.after, hlog] at hret
    rcases List.mem_append.mp hret with hret | hret
    · exact .inl hret
    · obtain ⟨rfl, hv⟩ := Prod.mk.inj (List.mem_singleton.mp hret)
      exact .inr ⟨c, hc, rfl, hv ▸ ho v hv.symm⟩

/-- The drive is over: nothing waits any more, and no call is told a response. -/
theorem turn_finished {e' : Engine} (ids : List CallId)
    (hcalls : e'.calls = s.engine.calls.map (Call.told ids (.failed .closed)))
    (hsequence : e'.sequence = s.engine.sequence) (hnotes : ∀ l : Log, ∃ troubles ended,
      events.foldl Log.note l = { l with troubles, ended }) {reply : Bytes → Option Bytes} :
    Turn reply s (s.after e'.finished stream events) := by
  obtain ⟨troubles, ended, hlog⟩ := hnotes (s.logged e'.finished stream [])
  have hlog : s.logged e'.finished stream events =
      { s.logged e'.finished stream [] with troubles, ended } := hlog
  have hacc : (s.after e'.finished stream events).account = { s.account with table := [] } := by
    rw [account_kept events (Nat.zero_le _), hlog]
    simp only [Site.account, finished, tell, hsequence]
    rfl
  refine .quiet hacc (fun a ha => absurd ha List.not_mem_nil) fun id v h => ?_
  refine answers_finished hcalls rfl ?_ h
  exact (congrArg Log.returned hlog).trans rfl

theorem turn_stepped (h : Stepped env s.engine s.stream e stream events) :
    Turn env.reply s (s.after e stream events) := by
  have hsame : s.engine.calls = s.engine.calls.map (Call.told [] (.failed .closed)) :=
    (congrArg Engine.calls (tell_nil s.engine (.failed .closed))).symm
  cases h with
  | answered hc ho =>
    obtain rfl := by simpa using List.find?_some hc
    exact turn_returns (List.mem_of_find?_eq_some hc) (fun _ _ => ho) fun _ => rfl
  | expired hc ho hwait hdue =>
    obtain rfl := by simpa using List.find?_some hc
    exact turn_returns (o := .failed (.timeout .request)) (List.mem_of_find?_eq_some hc)
      (by rintro _ ⟨⟩) fun _ => rfl
  | closed => exact turn_finished [] hsame rfl fun _ => ⟨_, _, rfl⟩
  | closeFailed => exact turn_finished [] hsame rfl fun _ => ⟨_, _, rfl⟩
  | @writeFailed r err result hr =>
    refine turn_finished (r.writing.batch.filterMap (·.waiter)) ?_ ?_ fun l =>
      ⟨l.troubles ++ [err], l.ended ++ [result], rfl⟩
    · rw [completeAll_eq]
      rfl
    · rw [completeAll_eq]
      rfl
  | @placed r job due current rest count s' out hr hwriting hadv =>
    rw [complete_eq]
    refine .quiet (account_kept _ (Nat.le_refl _)) (fun _ h => h) fun _ _ h => ?_
    refine answers_tell (o := .done) current.waiter.toList (by rintro _ ⟨⟩) ?_ ?_ h <;> rfl
  | readEnded =>
    rw [readLoopEnds_eq]
    exact .quiet (account_kept _ (Nat.le_refl _)) (fun _ h => h) fun _ _ h => h
  | readExpired =>
    rw [readLoopEnds_eq]
    exact .quiet (account_kept _ (Nat.le_refl _)) (fun _ h => h) fun _ _ h => h
  | @handed r c due f o inc hr hread hadv hother =>
    refine .takes (account_kept _ (Nat.le_refl _)) ?_ fun _ _ h => h
    refine hother.imp_right fun hnone a ha hseq => ?_
    exact List.find?_eq_none.mp hnone a ha (by simpa using hseq)
  | @resolved r c due f o inc a hr hread hadv hf ha hfits =>
    have hseq : a.seq = f.seq := by simpa using List.find?_some ha
    rw [answer_eq]
    refine .resolves (account_kept _ (Nat.le_refl _)) hf (List.mem_of_find?_eq_some ha) hseq
      fun id v h => ?_
    have htold : (s.ledger.tell [a.call] (.response f.payload)).CameTo id (.response v) := h
    refine (Ledger.cameTo_of_tell htold).imp_right fun ⟨hid, hv⟩ => ?_
    exact ⟨List.mem_singleton.mp hid, Outcome.response.inj hv⟩
  | @overflowed r c due f o inc a err hr hread hreads hadv hf ha hover =>
    have hseq : a.seq = f.seq := by simpa using List.find?_some ha
    rw [answer_eq, readLoopEnds_eq]
    refine .resolves (account_kept _ (Nat.le_refl _)) hf (List.mem_of_find?_eq_some ha) hseq
      fun id v h => .inl ?_
    refine answers_tell (o := .failed err) [a.call] (by rintro _ ⟨⟩) ?_ ?_ h <;> rfl
  | handled => exact .delivers (account_kept _ (Nat.le_refl _)) fun _ _ h => h
  | @replied r f payload hr hread hf hreply htaken =>
    exact .replies hf hreply (account_after (accepted_enqueue _ rfl)) fun _ _ h => h
  | batched => exact .quiet (account_kept _ (Nat.zero_le _)) (fun _ h => h) fun _ _ h => h
  | _ => exact .quiet (account_kept _ (Nat.le_refl _)) (fun _ h => h) fun _ _ h => h

theorem answers_newCall {c : Call} (hc : c.answer = none)
    (hcalls : s'.engine.calls = s.engine.calls ++ [c])
    (hreturned : s'.log.returned = s.log.returned)
    {id : CallId} {v : Bytes} (h : s'.Answers id v) : s.Answers id v := by
  rcases h with hret | ⟨c', hc', hid, hans⟩
  · have hret : (id, .response v) ∈ s'.log.returned := hret
    rw [hreturned] at hret
    exact .inl hret
  · have hc' : c' ∈ s'.engine.calls := hc'
    rw [hcalls] at hc'
    rcases List.mem_append.mp hc' with hc' | hc'
    · exact .inr ⟨c', hc', hid, hans⟩
    · rw [List.mem_singleton.mp hc', hc] at hans
      cases hans

/-- Every move is a turn. -/
theorem turn_of_move (h : Move key role env s s') : Turn env.reply s s' := by
  cases h with
  | @post payload e h =>
    obtain ⟨-, rfl⟩ := post_eq_ok h
    exact .posts (account_after (accepted_enqueue _ rfl)) rfl fun _ _ h => h
  | @write id payload e hnew h =>
    obtain ⟨-, rfl⟩ := write_eq_ok h
    refine .posts (o := { frame := ⟨Frame.noResponse, payload⟩, waiter := some id })
      (account_after (accepted_enqueue _ rfl)) rfl fun _ _ h => ?_
    refine answers_newCall (c := { id, wait := .written }) rfl ?_ ?_ h <;> rfl
  | @request id payload capacity due e hnew hfree h =>
    obtain ⟨-, rfl⟩ := request_eq_ok h
    refine @Turn.asks _ _ _ id payload capacity hnew ?_ fun _ _ h => ?_
    · simp only [Site.account, Site.after]
      rw [accepted_enqueue [] rfl]
      rfl
    · refine answers_newCall (c := { id, wait := .response s.engine.nextSeq due })
        rfl ?_ ?_ h <;> rfl
  | refuse hnew h =>
    refine @Turn.quiet _ _ _ s.engine.table rfl (fun _ h => h) fun id v h => ?_
    rcases h with hret | hcall
    · rcases List.mem_append.mp hret with hret | hret
      · exact .inl hret
      · cases (Prod.mk.inj (List.mem_singleton.mp hret)).2
    · exact .inr hcall
  | @giveUp id c hc =>
    have hleave : s.engine.giveUp id = s.engine.leave c := by simp only [giveUp, hc]
    rw [hleave]
    refine turn_leave (c := c) ?_ ?_ ?_ ?_ ?_ ?hreturned
    case hreturned => exact fun _ _ hret => .inl hret
    all_goals rfl
  | start h =>
    obtain ⟨-, rfl⟩ := start_eq_ok h
    exact .quiet (account_kept _ (Nat.le_refl _)) (fun _ h => h) fun _ _ h => h
  | abandon =>
    cases hr : s.engine.drive with
    | none =>
      simp only [abandon, hr]
      exact .quiet (account_kept _ (Nat.le_refl _)) (fun _ h => h) fun _ _ h => h
    | some r =>
      simp only [abandon, hr, completeAll_eq]
      refine .quiet (account_kept _ (Nat.le_refl _)) (fun _ h => h) fun _ _ h => ?_
      refine answers_tell (o := .failed .closed) (r.writing.batch.filterMap (·.waiter))
        (by rintro _ ⟨⟩) ?_ ?_ h <;> rfl
  | step h => exact turn_stepped (stepped_of_step h)

end

/-! ### Where frames with a number come from -/

/-- Every frame with a number is a request of the engine's own, or the application's reply to
a frame with that number. -/
def Sourced (reply : Bytes → Option Bytes) (b : Account) : Prop :=
  ∀ x ∈ b.accepted, x.frame.isMessage = false →
    (∃ q ∈ b.issued, q.frame = x.frame) ∨
      ∃ payload, ⟨x.frame.seq, payload⟩ ∈ b.delivered ∧ reply payload = some x.frame.payload

section
variable {reply : Bytes → Option Bytes} {s s' : Site} {b b' : Account}

theorem Sourced.mono (h : Sourced reply b) (haccepted : b'.accepted = b.accepted)
    (hissued : b.issued ⊆ b'.issued) (hdelivered : b.delivered ⊆ b'.delivered) :
    Sourced reply b' := by
  intro x hx hnumber
  rw [haccepted] at hx
  refine (h x hx hnumber).imp ?_ ?_
  · exact fun ⟨q, hq, hframe⟩ => ⟨q, hissued hq, hframe⟩
  · exact fun ⟨payload, hdel, hreply⟩ => ⟨payload, hdelivered hdel, hreply⟩

/-- One more frame is accepted. -/
theorem Sourced.accept (h : Sourced reply b) {o : Outgoing}
    (ho : o.frame.isMessage = false → (∃ q ∈ b.issued, q.frame = o.frame) ∨
      ∃ payload, ⟨o.frame.seq, payload⟩ ∈ b.delivered ∧ reply payload = some o.frame.payload) :
    Sourced reply { b with accepted := b.accepted ++ [o] } := by
  intro x hx hnumber
  rcases List.mem_append.mp hx with hx | hx
  · exact h x hx hnumber
  · obtain rfl := List.mem_singleton.mp hx
    exact ho hnumber

theorem sourced_turn (h : Turn reply s s') (hs : Sourced reply s.account) :
    Sourced reply s'.account := by
  cases h with
  | quiet h
  | takes h
  | resolves h =>
    rw [h]
    exact hs
  | posts h ho =>
    rw [h]
    exact hs.accept fun hnumber => nomatch ho.symm.trans hnumber
  | @asks id payload _ _ h =>
    rw [h]
    have hgrown : Sourced reply { s.account with
        issued := s.log.issued ++ [⟨id, ⟨s.engine.nextSeq, payload⟩⟩] } :=
      hs.mono rfl (List.subset_append_left ..) (List.Subset.refl _)
    exact hgrown.accept fun _ => .inl ⟨_, List.mem_append_right _ (List.mem_singleton_self _), rfl⟩
  | delivers h =>
    rw [h]
    exact hs.mono rfl (List.Subset.refl _) (List.subset_append_left ..)
  | @replies f payload _ hreply h =>
    rw [h]
    have hgrown : Sourced reply { s.account with delivered := s.log.delivered ++ [f] } :=
      hs.mono rfl (List.Subset.refl _) (List.subset_append_left ..)
    exact hgrown.accept fun _ =>
      .inr ⟨f.payload, List.mem_append_right _ (List.mem_singleton_self f), hreply⟩

end

/-! ### The numbers of requests -/

theorem nextSeq_ne_zero (e : Engine) : e.nextSeq ≠ Frame.noResponse :=
  Sequence.nextFreeWithin_ne_zero _ _ _

/-- The requests have the numbers from 1 on. -/
structure Numbered (b : Account) : Prop where
  last : b.sequence.last.toNat = b.issued.length
  numbers : b.issued.map (·.frame.seq.toNat) = List.range' 1 b.issued.length

section
variable {reply : Bytes → Option Bytes} {s s' : Site} {b : Account}

theorem Numbered.toNat_mem (h : Numbered b) {q : Issued} (hq : q ∈ b.issued) :
    1 ≤ q.frame.seq.toNat ∧ q.frame.seq.toNat ≤ b.issued.length := by
  have hmem := List.mem_map_of_mem (f := (·.frame.seq.toNat)) hq
  rw [h.numbers, List.mem_range'_1] at hmem
  omega

/-- A number is given to one request only. -/
theorem Numbered.seq_inj (h : Numbered b) {q q' : Issued} (hq : q ∈ b.issued) (hq' : q' ∈ b.issued)
    (hseq : q.frame.seq = q'.frame.seq) : q = q' := by
  have hnodup : (b.issued.map (·.frame.seq.toNat)).Nodup := by
    rw [h.numbers]
    exact List.nodup_range'
  exact List.inj_on_of_nodup_map hnodup hq hq' (congrArg UInt32.toNat hseq)

theorem Numbered.isMessage (h : Numbered b) {q : Issued} (hq : q ∈ b.issued) :
    q.frame.isMessage = false := by
  have hpos := (h.toNat_mem hq).1
  rw [Frame.isMessage, beq_eq_false_iff_ne]
  intro hzero
  rw [hzero] at hpos
  exact absurd hpos (by decide)

/-- While numbers last, a request gets one that was never given. -/
theorem Numbered.next (h : Numbered s.account) (hk : s.ledger.Tabled)
    (hfew : s.log.issued.length + 1 < UInt32.size) :
    s.engine.sequence.nextFree (s.engine.table.map (·.seq)) = s.engine.sequence.next ∧
      s.engine.nextSeq.toNat = s.log.issued.length + 1 := by
  have hlast : s.engine.sequence.last.toNat = s.log.issued.length := h.last
  have hnext : s.engine.sequence.next.1.toNat = s.log.issued.length + 1 := by
    show (Sequence.after s.engine.sequence.last).toNat = _
    rw [Sequence.toNat_after, if_neg (by omega), hlast]
  have hfree : s.engine.sequence.next.1 ∉ s.engine.table.map (·.seq) := by
    intro hmem
    obtain ⟨a, ha, haseq⟩ := List.mem_map.mp hmem
    obtain ⟨q, hq, -, hqseq⟩ := hk.issued a ha
    have hbound := (h.toNat_mem hq).2
    rw [hqseq, haseq, hnext] at hbound
    exact absurd hbound (Nat.not_succ_le_self _)
  have hsame := Sequence.nextFree_of_not_mem hfree
  exact ⟨hsame, by rw [nextSeq, hsame, hnext]⟩

theorem numbered_turn (h : Turn reply s s') (hs : Numbered s.account) (hk : s.ledger.Tabled)
    (hfew : s'.log.issued.length < UInt32.size) : Numbered s'.account := by
  cases h with
  | quiet h
  | posts h
  | takes h
  | resolves h
  | delivers h
  | replies _ _ h =>
    rw [h]
    exact ⟨hs.last, hs.numbers⟩
  | @asks id payload _ _ h =>
    have hissued : s'.log.issued = s.log.issued ++ [⟨id, ⟨s.engine.nextSeq, payload⟩⟩] :=
      congrArg Account.issued h
    rw [hissued, List.length_append, List.length_singleton] at hfew
    obtain ⟨hsame, hseq⟩ := hs.next hk hfew
    have hlast : s.engine.sequence.next.2.last = s.engine.nextSeq := by
      rw [nextSeq, hsame]
      rfl
    rw [h]
    constructor
    · show (s.engine.sequence.nextFree (s.engine.table.map (·.seq))).2.last.toNat =
        (s.log.issued ++ [_]).length
      rw [hsame, hlast, hseq, List.length_append, List.length_singleton]
    · show (s.log.issued ++ [_]).map (fun q : Issued => q.frame.seq.toNat) =
        List.range' 1 (s.log.issued ++ [_]).length
      have hnumbers : s.log.issued.map (·.frame.seq.toNat) = List.range' 1 s.log.issued.length :=
        hs.numbers
      rw [List.map_append, hnumbers, List.length_append, List.length_singleton,
        List.range'_concat, List.map_singleton, hseq, Nat.one_mul, Nat.add_comm 1]

end
end Parley.Engine
