import Parley.Proofs.Engine.Receiving
import Parley.Proofs.Engine.Requests
import Parley.Proofs.Engine.Winding

/-! Where the frames go that an engine receives.

A frame is dispatched when it is received, to the request that waits under its number or to
the application (`Dispatch.destination`). A move dispatches one frame at most, and to that
place only (`routed_of_move`); a `Run` is a run with the frames that are dispatched in it.
The first frame with the number of a request that is dispatched while the request waits
decides what it comes to (`fate_of_run`), and nothing else answers it. -/
namespace Parley.Engine
open Channel

/-- A frame that is dispatched, and the requests that wait then. -/
structure Dispatch where
  frame : Frame
  table : List Awaited

/-- Where a frame may go. -/
inductive Destination where
  /-- To the application, as a message. -/
  | message
  /-- To the request with this entry. -/
  | response (a : Awaited)
  /-- To the application, as a request. -/
  | request

namespace Dispatch

def destination (x : Dispatch) : Destination :=
  if x.frame.isMessage then .message
  else match x.table.find? (·.seq == x.frame.seq) with
    | some a => .response a
    | none => .request

/-- Whether the application is handed the frame. -/
def isHanded (x : Dispatch) : Bool :=
  match x.destination with
  | .response _ => false
  | _ => true

theorem destination_of_other (x : Dispatch)
    (h : x.frame.isMessage = true ∨ x.table.find? (·.seq == x.frame.seq) = none) :
    x.destination = if x.frame.isMessage then .message else .request := by
  rw [destination]
  split
  · rfl
  · rename_i hf
    rw [h.resolve_left hf]

theorem destination_of_entry {x : Dispatch} {a : Awaited} (hf : x.frame.isMessage = false)
    (ha : x.table.find? (·.seq == x.frame.seq) = some a) : x.destination = .response a := by
  rw [destination, hf, ha]
  rfl

end Dispatch

/-- The frame the application has. -/
def ReadLoop.hand : ReadLoop → List Frame
  | .handling f => [f]
  | _ => []

namespace Site

/-- The frame the application has, if the stream is driven. -/
def hand (s : Site) : List Frame := (s.engine.drive.map (·.reading.hand)).getD []

/-- The frames that were dispatched between two states. -/
def dispatched (s s' : Site) : List Dispatch :=
  (s'.log.received.drop s.log.received.length).map (⟨·, s.engine.table⟩)

/-- Whether the stream is driven, or still to be attached. -/
def Served (s : Site) : Prop := s.engine.drive ≠ none ∨ s.engine.phase = .idle

end Site

/-! ### One step -/

section
variable (s s' : Site)

/-- The application has the frame; requests and calls are as they were. -/
structure Hands (f : Frame) : Prop where
  table : s'.engine.table = s.engine.table
  calls : s'.engine.calls = s.engine.calls
  reading : ∃ r, s'.engine.drive = some r ∧ r.reading = .handling f

/-- The frame is a request's response: the request's entry is taken out, and no other, and its
call is told, and no other. A response that is too long is the last frame that is read. -/
structure Responds (f : Frame) (a : Awaited) : Prop where
  table : s'.engine.table = s.engine.table.filter (·.call != a.call)
  calls : s'.engine.calls = s.engine.calls.map (Call.told [a.call] (a.outcome f))
  reading : ∃ r, s'.engine.drive = some r ∧
    (f.payload.length ≤ a.capacity → ∃ due, r.reading = .reading [] due) ∧
    (a.capacity < f.payload.length → r.reading = .ended)

/-- The frame has come to its destination. -/
def Reaches (x : Dispatch) : Prop :=
  match x.destination with
  | .response a => Responds s s' x.frame a
  | _ => Hands s s' x.frame

/-- What a step does with frames. -/
inductive Routed : Prop where
  | nothing (hreceived : s'.log.received = s.log.received)
      (hdelivered : s'.log.delivered = s.log.delivered)
      (hhand : s'.Served → s.Served ∧ s'.hand = s.hand)
  /-- The application returns from a frame. Only to a request does it reply, under its number. -/
  | returned {f} (hreceived : s'.log.received = s.log.received)
      (hdelivered : s'.log.delivered = s.log.delivered ++ [f])
      (hhand : s.hand = [f]) (hserved : s.Served) (hhand' : s'.hand = [])
      (hreply : s'.engine.queue = s.engine.queue ∨ f.isMessage = false ∧
        ∃ payload, s'.engine.queue = s.engine.queue ++ [{ frame := ⟨f.seq, payload⟩ }])
  /-- One frame is dispatched, when the application has none. -/
  | dispatched {f} (hreceived : s'.log.received = s.log.received ++ [f])
      (hdelivered : s'.log.delivered = s.log.delivered)
      (hhand : s.hand = []) (hserved : s.Served) (hreaches : Reaches s s' ⟨f, s.engine.table⟩)

end

variable {key : SessionKey} {role : Role} {env : Env} {w w' w₀ : World} {s s' : Site} {e : Engine}
  {stream : Duplex} {events : List Event} {id : CallId} {o : Outcome} {xs ys : List Dispatch}

theorem hand_of_drive {r : Drive} (hr : s.engine.drive = some r) : s.hand = r.reading.hand := by
  rw [Site.hand, hr]
  rfl

theorem served_of_drive {r : Drive} (hr : s.engine.drive = some r) : s.Served := by
  refine .inl fun hnone => ?_
  rw [hnone] at hr
  cases hr

theorem reaches_of_other {x : Dispatch}
    (hother : x.frame.isMessage = true ∨ x.table.find? (·.seq == x.frame.seq) = none)
    (h : Hands s s' x.frame) : Reaches s s' x := by
  rw [Reaches, x.destination_of_other hother]
  cases x.frame.isMessage <;> exact h

/-- The read loop is where it was, or nothing is read any more. -/
theorem Routed.kept {r : Drive} (hr : s.engine.drive = some r)
    (hreceived : s'.log.received = s.log.received) (hdelivered : s'.log.delivered = s.log.delivered)
    (hhand : s'.hand = r.reading.hand) : Routed s s' :=
  .nothing hreceived hdelivered fun _ => ⟨served_of_drive hr, hhand.trans (hand_of_drive hr).symm⟩

/-- The stream is not driven any more. -/
theorem Routed.over (hdrive : s'.engine.drive = none) (hphase : s'.engine.phase ≠ .idle)
    (hreceived : s'.log.received = s.log.received)
    (hdelivered : s'.log.delivered = s.log.delivered) : Routed s s' :=
  .nothing hreceived hdelivered fun hs =>
    hs.elim (fun hdriven => absurd hdrive hdriven) fun hidle => absurd hidle hphase

theorem routed_stepped (h : Stepped env s.engine s.stream e stream events) (hk : s.ledger.Kept) :
    Routed s (s.after e stream events) := by
  cases h with
  | notified => exact .nothing rfl rfl fun hs => ⟨hs, rfl⟩
  | answered
  | expired =>
    rw [leave_eq]
    exact .nothing rfl rfl fun hs => ⟨hs, rfl⟩
  | closed
  | closeFailed
  | writeFailed => exact .over rfl (by rintro ⟨⟩) rfl rfl
  | placed hr =>
    rw [complete_eq]
    exact .kept hr rfl rfl rfl
  | collected hr hread => exact .kept hr rfl rfl (by rw [hread]; rfl)
  | readEnded hr hread
  | readExpired hr hread =>
    rw [readLoopEnds_eq]
    exact .kept hr rfl rfl (by rw [hread]; rfl)
  | @handed r c due f o inc hr hread hadv hother =>
    exact .dispatched rfl rfl (by rw [hand_of_drive hr, hread]; rfl) (served_of_drive hr)
      (reaches_of_other hother ⟨rfl, rfl, _, rfl, rfl⟩)
  | @resolved r c due f o inc a hr hread hadv hf ha hfits =>
    refine .dispatched rfl rfl (by rw [hand_of_drive hr, hread]; rfl) (served_of_drive hr) ?_
    rw [Reaches, Dispatch.destination_of_entry (x := ⟨f, s.engine.table⟩) hf ha, answer_eq]
    refine ⟨filter_seq hk (List.mem_of_find?_eq_some ha), ?_, _, rfl, fun _ => ⟨_, rfl⟩,
      fun hlong => ?_⟩
    · rw [Awaited.outcome, if_pos hfits]
      rfl
    · exact absurd hfits (Nat.not_le_of_lt hlong)
  | @overflowed r c due f o inc a err hr hread hreads hadv hf ha hlong herr =>
    refine .dispatched rfl rfl (by rw [hand_of_drive hr, hread]; rfl) (served_of_drive hr) ?_
    rw [Reaches, Dispatch.destination_of_entry (x := ⟨f, s.engine.table⟩) hf ha, answer_eq,
      readLoopEnds_eq]
    refine ⟨filter_seq hk (List.mem_of_find?_eq_some ha), ?_, _, rfl, fun hfits => ?_, fun _ => rfl⟩
    · rw [Awaited.outcome, if_neg (Nat.not_le_of_lt hlong), ← herr]
      rfl
    · exact absurd hfits (Nat.not_le_of_lt hlong)
  | handled hr hread =>
    exact .returned rfl rfl (by rw [hand_of_drive hr, hread]; rfl) (served_of_drive hr) rfl
      (.inl rfl)
  | replied hr hread hf =>
    exact .returned rfl rfl (by rw [hand_of_drive hr, hread]; rfl) (served_of_drive hr) rfl
      (.inr ⟨hf, _, rfl⟩)
  | cancelled hr
  | draining hr
  | batched hr
  | emptied hr
  | waited hr
  | woken hr
  | batchDone hr
  | begun hr
  | placing hr
  | flushing hr
  | flushed hr => exact .kept hr rfl rfl rfl

/-- Every move does one of these things with frames. -/
theorem routed_of_move (h : Move key role env s s') (hk : s.ledger.Kept)
    (hs : Inbound key role.inbound s.intake s.inlet) : Routed s s' := by
  have hbusy : ∀ {r}, s.engine.drive = some r → s.engine.phase ≠ .idle := fun hr =>
    of_decide_eq_false (hs.takes hr).busy
  cases h with
  | post h =>
    obtain ⟨-, rfl⟩ := post_eq_ok h
    exact .nothing rfl rfl fun hs => ⟨hs, rfl⟩
  | write _ h =>
    obtain ⟨-, rfl⟩ := write_eq_ok h
    exact .nothing rfl rfl fun hs => ⟨hs, rfl⟩
  | request _ _ h =>
    obtain ⟨-, rfl⟩ := request_eq_ok h
    exact .nothing rfl rfl fun hs => ⟨hs, rfl⟩
  | refuse => exact .nothing rfl rfl fun hs => ⟨hs, rfl⟩
  | giveUp hc =>
    simp only [giveUp, hc, leave_eq]
    exact .nothing rfl rfl fun hs => ⟨hs, rfl⟩
  | start h =>
    obtain ⟨hidle, rfl⟩ := start_eq_ok h
    refine .nothing rfl rfl fun _ => ⟨.inr hidle, ?_⟩
    cases hr : s.engine.drive with
    | none => rw [Site.hand, Site.hand, hr]; rfl
    | some r => exact absurd hidle (hbusy hr)
  | abandon =>
    cases hr : s.engine.drive with
    | none =>
      simp only [abandon, hr]
      exact .nothing rfl rfl fun hs => ⟨hs, rfl⟩
    | some r =>
      simp only [abandon, hr, completeAll_eq]
      exact .over rfl (hbusy hr) rfl rfl
  | step h => exact routed_stepped (stepped_of_step h) hk

/-- A step of the world is a move, or of no concern to the frames received. -/
theorem routed_of_step (hw : World.Reachable key role w) (h : World.Step key role w w') :
    Routed w.toSite w'.toSite := by
  cases h with
  | near h => exact routed_of_move h (kept_of_reachable hw) (inbound_of_reachable hw)
  | far => exact .nothing rfl rfl fun hs => ⟨hs, rfl⟩

theorem hand_of_reaches {x : Dispatch} (h : Reaches s s' x) :
    s'.hand = if x.isHanded then [x.frame] else [] := by
  rw [Reaches] at h
  rw [Dispatch.isHanded]
  cases hx : x.destination with
  | response a =>
    rw [hx] at h
    obtain ⟨r, hr, hfits, hlong⟩ := h.reading
    rw [hand_of_drive hr]
    rcases Nat.lt_or_ge a.capacity x.frame.payload.length with hlt | hle
    · rw [hlong hlt]
      rfl
    · obtain ⟨due, hread⟩ := hfits hle
      rw [hread]
      rfl
  | message
  | request =>
    rw [hx] at h
    obtain ⟨r, hr, hread⟩ := h.reading
    rw [hand_of_drive hr, hread]
    rfl

/-! ### Runs -/

theorem dispatched_nil (h : s'.log.received = s.log.received) : s.dispatched s' = [] := by
  rw [Site.dispatched, h, List.drop_length]
  rfl

theorem dispatched_singleton {f : Frame} (h : s'.log.received = s.log.received ++ [f]) :
    s.dispatched s' = [⟨f, s.engine.table⟩] := by
  rw [Site.dispatched, h, List.drop_left]
  rfl

/-- A run, and the frames that are dispatched in it. -/
inductive Run (key : SessionKey) (role : Role) (w : World) : List Dispatch → World → Prop where
  | refl : Run key role w [] w
  | tail {xs w' w''} (h : Run key role w xs w') (hstep : World.Step key role w' w'') :
      Run key role w (xs ++ w'.toSite.dispatched w''.toSite) w''

theorem Run.leads (h : Run key role w xs w') : World.Leads key role w w' := by
  induction h with
  | refl => exact .refl
  | tail _ hstep ih => exact ih.tail hstep

theorem exists_run (h : World.Leads key role w w') : ∃ xs, Run key role w xs w' := by
  induction h with
  | refl => exact ⟨[], .refl⟩
  | tail _ hstep ih =>
    obtain ⟨xs, hrun⟩ := ih
    exact ⟨_, hrun.tail hstep⟩

/-- What was received was dispatched, frame by frame and in order, and what the application
was handed of it came back in order, but for the last. -/
structure Dealt (key : SessionKey) (role : Role) (xs : List Dispatch) (w : World) : Prop where
  frames : xs.map (·.frame) = w.log.received
  taken : wire key role.inbound 0 w.log.received <+: w.log.taken
  handed : ∃ last, (xs.filter (·.isHanded)).map (·.frame) = w.log.delivered ++ last ∧
    last.length ≤ 1 ∧ (w.toSite.Served → last = w.toSite.hand)

theorem length_hand_le (s : Site) : s.hand.length ≤ 1 := by
  rw [Site.hand]
  cases hr : s.engine.drive with
  | none => exact Nat.zero_le _
  | some r =>
    show r.reading.hand.length ≤ 1
    cases r.reading <;> simp [ReadLoop.hand]

theorem Dealt.step (h : Dealt key role xs w) (hw : World.Reachable key role w)
    (hstep : World.Step key role w w') :
    Dealt key role (xs ++ w.toSite.dispatched w'.toSite) w' := by
  have htaken := (inbound_of_reachable (hw.leads (.single hstep))).taken.bytes
  obtain ⟨last, hlast, hshort, hhand⟩ := h.handed
  cases routed_of_step hw hstep with
  | nothing hreceived hdelivered hhand' =>
    rw [dispatched_nil hreceived, List.append_nil]
    refine ⟨h.frames.trans hreceived.symm, htaken, last, by rw [hdelivered, hlast], hshort,
      fun hs => ?_⟩
    obtain ⟨hserved, hsame⟩ := hhand' hs
    rw [hsame, hhand hserved]
  | @returned f hreceived hdelivered hbefore hserved hafter hreply =>
    rw [dispatched_nil hreceived, List.append_nil]
    refine ⟨h.frames.trans hreceived.symm, htaken, [], ?_, Nat.zero_le _, fun _ => hafter.symm⟩
    rw [hlast, hdelivered, hhand hserved, hbefore, List.append_nil]
  | @dispatched f hreceived hdelivered hbefore hserved hreaches =>
    -- The application had no frame, so the one that is new is the last.
    have hafter := hand_of_reaches hreaches
    rw [dispatched_singleton hreceived]
    refine ⟨?_, htaken, w'.toSite.hand, ?_, length_hand_le _, fun _ => rfl⟩
    · rw [List.map_append, h.frames, hreceived]
      rfl
    · rw [List.filter_append, List.map_append, hlast, hhand hserved, hbefore, hdelivered, hafter,
        List.append_nil]
      cases hx : Dispatch.isHanded ⟨f, w.engine.table⟩ <;> simp [hx]

/-- **Frames are dispatched in the order in which they came, each of them once.** -/
theorem dealt_of_run {c : Config.Connection} {out inc : Nat}
    (h : Run key role (.fresh c out inc) xs w) : Dealt key role xs w := by
  induction h with
  | refl => exact ⟨rfl, List.prefix_rfl, [], rfl, Nat.zero_le _, fun _ => rfl⟩
  | tail hrun hstep ih => exact ih.step ⟨c, out, inc, hrun.leads⟩ hstep

/-! ### What a request comes to -/

/-- The frame has the number of a request, while the request waits. -/
def Awaited.meets (a : Awaited) (x : Dispatch) : Bool :=
  x.frame.seq == a.seq && x.table.any (·.call == a.call)

/-- What is known of a request, after these frames. -/
def Fate (a : Awaited) (xs : List Dispatch) (w : World) : Prop :=
  match xs.find? a.meets with
  | some x => w.ledger.Told a.call (a.outcome x.frame)
  | none => a ∈ w.engine.table ∨
      w.ledger.Told a.call (.failed (.timeout .request)) ∨ w.ledger.Told a.call (.failed .closed)

/-- Nothing that a call was told is taken back. -/
theorem told_step (hw : World.Reachable key role w) (h : World.Step key role w w')
    (ht : w.ledger.Told id o) : w'.ledger.Told id o := by
  cases h with
  | near h => exact told_move h (kept_of_reachable hw) ht
  | far => exact ht

/-- A call that was told something has no entry. -/
theorem no_entry_of_told (hk : s.ledger.Kept) (ht : s.ledger.Told id o) :
    s.engine.table.any (·.call == id) = false := by
  rw [List.any_eq_false]
  intro a ha hcall
  obtain ⟨q, -, hq, -⟩ := hk.tabled.issued a ha
  obtain ⟨hstay, hnone⟩ := (s.outstanding_iff q).mp (outstanding_of_entry hk ha hq)
  rw [hq, eq_of_beq hcall] at hstay hnone
  exact ht.elim hstay (hnone o)

/-- No frame that is dispatched meets a request that is over. -/
theorem meets_nothing {a : Awaited} (h : s.engine.table.any (·.call == a.call) = false) :
    (s.dispatched s').find? a.meets = none := by
  rw [List.find?_eq_none]
  intro x hx
  obtain ⟨f, -, rfl⟩ := List.mem_map.mp hx
  simp only [Awaited.meets, h, Bool.and_false, Bool.false_eq_true, not_false_eq_true]

/-- A frame with another number does not meet a request. -/
theorem Awaited.not_meets {a : Awaited} {x : Dispatch} (h : x.frame.seq ≠ a.seq) :
    a.meets x = false := by
  rw [meets, beq_eq_false_iff_ne.mpr h, Bool.false_and]

theorem Awaited.meets_of_mem {a : Awaited} {x : Dispatch} (hseq : x.frame.seq = a.seq)
    (ha : a ∈ x.table) : a.meets x = true := by
  rw [meets, hseq, beq_self_eq_true, Bool.true_and]
  exact List.any_eq_true.mpr ⟨a, ha, beq_self_eq_true _⟩

/-- What one move makes of a request that waits. -/
theorem fate_of_shift (h : Shift s s') (hk : s.ledger.Kept) {a : Awaited}
    (ha : a ∈ s.engine.table) (hseq : a.seq ≠ Frame.noResponse) :
    match (s.dispatched s').find? a.meets with
    | some x => s'.ledger.Told a.call (a.outcome x.frame)
    | none => a ∈ s'.engine.table ∨ s'.ledger.Told a.call (.failed (.timeout .request)) ∨
        s'.ledger.Told a.call (.failed .closed) := by
  cases h with
  | quiet _ htable hreceived =>
    rw [dispatched_nil hreceived]
    exact .inl (htable ▸ ha)
  | asked _ htable hreceived =>
    rw [dispatched_nil hreceived]
    exact .inl (htable ▸ List.mem_append_left _ ha)
  | @passed f hother _ htable hreceived =>
    have hne : f.seq ≠ a.seq := fun hsame => by
      rcases hother with hmessage | hnone
      · exact hseq (hsame.symm.trans (eq_of_beq hmessage))
      · exact List.find?_eq_none.mp hnone a ha (beq_iff_eq.mpr hsame.symm)
    rw [dispatched_singleton hreceived, List.find?_singleton, a.not_meets hne]
    exact .inl (htable ▸ ha)
  | @resolved f b hf hb _ htable hreceived hcame =>
    have hb' := List.mem_of_find?_eq_some hb
    have hbseq : b.seq = f.seq := by simpa using List.find?_some hb
    rw [dispatched_singleton hreceived, List.find?_singleton]
    -- The frame meets the request whose entry it takes out, and no other: numbers are distinct.
    by_cases hcall : a.call = b.call
    · obtain rfl := hk.entry_inj ha hb' hcall
      rw [a.meets_of_mem hbseq.symm ha]
      exact .inr hcame
    · have hne : f.seq ≠ a.seq := fun hsame =>
        hcall (by rw [hk.tabled.seq_inj ha hb' (hsame.symm.trans hbseq.symm)])
      rw [a.not_meets hne]
      exact .inl (htable ▸ List.mem_filter.mpr ⟨ha, bne_iff_ne.mpr hcall⟩)
  | @gone id _ htable hreceived hover =>
    rw [dispatched_nil hreceived]
    by_cases hcall : a.call = id
    · rw [hcall]
      exact .inr (.inl hover)
    · exact .inl (htable ▸ List.mem_filter.mpr ⟨ha, bne_iff_ne.mpr hcall⟩)
  | ended _ _ hreceived _ hcame =>
    rw [dispatched_nil hreceived]
    exact .inr (.inr (.inr (hcame a ha)))

theorem Fate.step {a : Awaited} (h : Fate a xs w) (hseq : a.seq ≠ Frame.noResponse)
    (hw : World.Reachable key role w) (hstep : World.Step key role w w') :
    Fate a (xs ++ w.toSite.dispatched w'.toSite) w' := by
  have hk := kept_of_reachable hw
  have hshift : Shift w.toSite w'.toSite := by
    cases hstep with
    | near hm => exact shift_of_move hm hk
    | far => exact .quiet rfl rfl rfl
  unfold Fate at h ⊢
  rw [List.find?_append]
  cases hx : xs.find? a.meets with
  | some x =>
    rw [hx] at h
    exact told_step hw hstep h
  | none =>
    rw [hx] at h
    rw [Option.none_or]
    -- A request that is over has no entry, so that nothing meets it any more.
    have hover : ∀ {o}, w.ledger.Told a.call o →
        (w.toSite.dispatched w'.toSite).find? a.meets = none :=
      fun ht => meets_nothing (no_entry_of_told hk ht)
    rcases h with ha | hlate | hclosed
    · exact fate_of_shift hshift hk ha hseq
    · rw [hover hlate]
      exact .inr (.inl (told_step hw hstep hlate))
    · rw [hover hclosed]
      exact .inr (.inr (told_step hw hstep hclosed))

/-- **The first frame that meets a request decides what it comes to**; until one does, the
request waits, or was too late, or the drive is over. -/
theorem fate_of_run (hw : World.Reachable key role w) {a : Awaited} (ha : a ∈ w.engine.table)
    (h : Run key role w xs w') : Fate a xs w' := by
  induction h with
  | refl => exact .inl ha
  | tail hrun hstep ih =>
    exact ih.step (seq_ne_zero_of_reachable hw a ha) (hw.leads hrun.leads) hstep

/-- What the call of a request comes to, if these frames are dispatched from its start. -/
structure Resolution (a : Awaited) (xs : List Dispatch) (w : World) : Prop where
  response : ∀ payload, w.ledger.CameTo a.call (.response payload) ↔
    ∃ x, xs.find? a.meets = some x ∧ x.frame.payload = payload ∧ payload.length ≤ a.capacity
  tooLarge : ∀ x, xs.find? a.meets = some x → a.capacity < x.frame.payload.length →
    w.ledger.CameTo a.call
      (.failed (.framing (.responseTooLarge a.seq x.frame.payload.length a.capacity)))

/-- A request that is not given up comes to what its fate is. -/
theorem Fate.resolution {a : Awaited} (h : Fate a xs w) (hk : w.ledger.Kept)
    (hstay : a.call ∉ w.log.dropped) : Resolution a xs w := by
  unfold Fate at h
  cases hx : xs.find? a.meets with
  | some x =>
    rw [hx] at h
    have hcame := h.resolve_left hstay
    constructor
    · intro payload
      constructor
      · intro hresponse
        have houtcome := hk.named.cameTo_inj hresponse hcame
        rw [Awaited.outcome] at houtcome
        split at houtcome
        · rename_i hfits
          obtain rfl := Outcome.response.inj houtcome
          exact ⟨x, hx, rfl, hfits⟩
        · cases houtcome
      · rintro ⟨x', hx', rfl, hfits⟩
        obtain rfl := Option.some.inj (hx.symm.trans hx')
        rwa [Awaited.outcome, if_pos hfits] at hcame
    · intro x' hx' hlong
      obtain rfl := Option.some.inj (hx.symm.trans hx')
      rwa [Awaited.outcome, if_neg (Nat.not_le_of_lt hlong)] at hcame
  | none =>
    rw [hx] at h
    refine ⟨fun payload => ⟨fun hresponse => ?_, ?_⟩, fun x hx' => ?_⟩
    · have hother : ∀ {err}, ¬w.ledger.Told a.call (.failed err) := fun ht => by
        cases hk.named.cameTo_inj hresponse (ht.resolve_left hstay)
      rcases h with ha | hlate | hclosed
      · have hnone := no_entry_of_told hk (.inr hresponse)
        exact absurd (beq_self_eq_true a.call) (List.any_eq_false.mp hnone a ha)
      · exact absurd hlate hother
      · exact absurd hclosed hother
    · rintro ⟨x, hx', -⟩
      rw [hx] at hx'
      cases hx'
    · rw [hx] at hx'
      cases hx'

/-! ### What calls return -/

/-- A call that came to something has come to it for good. -/
theorem cameTo_stays (hw : World.Reachable key role w) (ho : w.ledger.CameTo id o)
    (hlater : World.Leads key role w w') (hstay : id ∉ w'.log.dropped) (o' : Outcome) :
    w'.ledger.CameTo id o' ↔ o' = o := by
  have ht : w'.ledger.Told id o := by
    induction hlater with
    | refl => exact .inr ho
    | tail hleads hstep ih =>
      have hgrows := World.grows_leads (.single hstep)
      exact told_step (hw.leads hleads) hstep (ih fun hd => hstay (hgrows.dropped.subset hd))
  have hcame := ht.resolve_left hstay
  refine ⟨fun ho' => (kept_of_reachable (hw.leads hlater)).named.cameTo_inj ho' hcame, ?_⟩
  rintro rfl
  exact hcame

/-- A call that came to something has returned it, or returns it when it looks. -/
theorem returns_of_cameTo (hk : s.ledger.Kept) (ho : s.ledger.CameTo id o) :
    (id, o) ∈ s.log.returned ∨
      ∀ env, ∃ e, s.engine.step env (.call id) s.stream = some (e, s.stream, [.returned id o]) := by
  refine ho.imp (fun h => h) fun ⟨c, hc, hid, hans⟩ env => ?_
  have hfind : s.engine.calls.find? (·.id == id) = some c := by
    cases hfound : s.engine.calls.find? (·.id == id) with
    | none => exact absurd (beq_iff_eq.mpr hid) (List.find?_eq_none.mp hfound c hc)
    | some c' =>
      have hid' : c'.id = id := by simpa using List.find?_some hfound
      rw [hk.named.call_inj (List.mem_of_find?_eq_some hfound) hc (hid'.trans hid.symm)]
  exact ⟨s.engine.leave c, by simp only [step, stepCall, hfind, hans]⟩

/-! ### Responses that are too long -/

/-- A response that is too long ends the reading. While the stream is served it is what the
drive ends with; after a cancellation the result is decided already. -/
theorem winds_of_overflow (h : Stepped env s.engine s.stream e stream events)
    (hl : Looped s.engine) (hrunning : ∀ r, s.engine.drive = some r → s.log.ended = [])
    {f : Frame} {a : Awaited}
    (hreceived : (s.after e stream events).log.received = s.log.received ++ [f])
    (hf : f.isMessage = false) (ha : s.engine.table.find? (·.seq == f.seq) = some a)
    (hlong : a.capacity < f.payload.length) :
    ∃ r res r', s.engine.drive = some r ∧ Winds res (s.after e stream events) r' ∧
      ((r.control = .serving ∧
          res = .error (.framing (.responseTooLarge a.seq f.payload.length a.capacity))) ∨
        (r.control = .draining (.ok ()) ∧ res = .ok ())) := by
  have hsame : ∀ {g}, s.log.received ++ [g] = s.log.received ++ [f] → g = f := fun h =>
    List.singleton_inj.mp (List.append_cancel_left h)
  cases h with
  | @overflowed r c due g o inc b err hr hread hreads hadv hg hb _ herr =>
    obtain rfl := hsame hreceived
    obtain rfl := Option.some.inj (hb.symm.trans ha)
    have hrun := hrunning r hr
    rw [answer_eq, readLoopEnds_eq]
    cases hc : r.control with
    | serving =>
      exact ⟨r, .error err, _, hr, ⟨rfl, rfl, .inl rfl, Bool.or_true _, hrun⟩,
        .inl ⟨hc, by rw [herr]⟩⟩
    | draining res =>
      -- Reading goes on while draining only after a cancellation, which decided the result.
      have hne : r.reading ≠ .ended := by
        rw [hread]
        rintro ⟨⟩
      obtain rfl := (hl r hr).drains res hc hne
      have hstopped : s.engine.stopped = true := (hl r hr).stopped (by rw [hc]; rfl)
      refine ⟨r, .ok (), _, hr, ⟨rfl, rfl, .inl rfl, ?_, hrun⟩, .inr ⟨hc, rfl⟩⟩
      show (s.engine.stopped || _) = true
      rw [hstopped, Bool.true_or]
    | closing =>
      rw [hc] at hreads
      cases hreads
  | handed hr hread hadv hother =>
    obtain rfl := hsame hreceived
    rcases hother with hmessage | hnone
    · rw [hf] at hmessage
      cases hmessage
    · rw [ha] at hnone
      cases hnone
  | resolved hr hread hadv hg hb hfits =>
    obtain rfl := hsame hreceived
    obtain rfl := Option.some.inj (hb.symm.trans ha)
    exact absurd hfits (Nat.not_le_of_lt hlong)
  | _ => exact absurd hreceived.symm (ne_of_append_singleton _ _)

theorem destination_eq_response {x : Dispatch} {a : Awaited} (h : x.destination = .response a) :
    x.frame.isMessage = false ∧ x.table.find? (·.seq == x.frame.seq) = some a := by
  unfold Dispatch.destination at h
  split at h
  · cases h
  · rename_i hf
    split at h
    · rename_i b hb
      obtain rfl := Destination.response.inj h
      exact ⟨Bool.eq_false_iff.mpr hf, hb⟩
    · cases h

/-- What a drive ends with once a response was too long. -/
theorem concludes_of_overflow (hw : World.Reachable key role w) (hstep : World.Step key role w w')
    {f : Frame} {a : Awaited} (hreceived : w'.log.received = w.log.received ++ [f])
    (hto : Dispatch.destination ⟨f, w.engine.table⟩ = .response a)
    (hlong : a.capacity < f.payload.length) :
    ∃ r, w.engine.drive = some r ∧
      ((r.control = .serving ∧ Concludes key role
          (.error (.framing (.responseTooLarge a.seq f.payload.length a.capacity))) w') ∨
        (r.control = .draining (.ok ()) ∧ Concludes key role (.ok ()) w')) := by
  obtain ⟨hf, ha⟩ := destination_eq_response hto
  have hw' := hw.leads (.single hstep)
  have hrunning : ∀ r, w.engine.drive = some r → w.log.ended = [] := fun r hr => by
    by_contra hended
    have hnone := (over_of_ended hw hended).drive
    rw [hr] at hnone
    cases hnone
  cases hstep with
  | far => exact absurd hreceived.symm (ne_of_append_singleton _ _)
  | near hm =>
    cases hm with
    | step hs =>
      obtain ⟨r, res, r', hr, hwinds, hres⟩ := winds_of_overflow (stepped_of_step hs)
        (fun r hr => loops_of_reachable hw hr) hrunning hreceived hf ha hlong
      have hbusy := ((inbound_of_reachable hw').takes hwinds.drive).busy
      have hconcludes := concludes_of_decided hw' (.inl ⟨r', hwinds⟩) (of_decide_eq_false hbusy)
      refine ⟨r, hr, ?_⟩
      rcases hres with ⟨hserving, rfl⟩ | ⟨hdraining, rfl⟩
      · exact .inl ⟨hserving, hconcludes⟩
      · exact .inr ⟨hdraining, hconcludes⟩
    | _ => exact absurd hreceived.symm (ne_of_append_singleton _ _)

/-! ### The headline -/

/-- **Every frame that is received goes to one place.** Frames are dispatched in the order in
which they came, each once: one under 0 to the application as a message, one under the number
of a request that waits to that request, any other to the application as a request. So a
request that is not given up comes to a response exactly if the first frame that meets it has
a payload that its caller can take, and fails if it is too long; and what it has come to it
returns, and nothing else. After a response that is too long the drive ends with that error,
or as it would have if it was cancelled before. -/
theorem frames_go_to_one_place {c : Config.Connection} {out inc : Nat}
    (h : Run key role (.fresh c out inc) xs w) :
    Dealt key role xs w ∧
    (∀ w', World.Step key role w w' → Routed w.toSite w'.toSite) ∧
    (∀ id payload capacity due w', World.Step key role w w' →
      w.engine.request id payload capacity due = .ok w'.engine →
      ∀ ys w'', Run key role w' ys w'' → id ∉ w''.log.dropped →
        Resolution { seq := w.engine.nextSeq, call := id, capacity } ys w'') ∧
    (∀ id o, w.ledger.CameTo id o →
      (∀ w', World.Leads key role w w' → id ∉ w'.log.dropped →
        ∀ o', w'.ledger.CameTo id o' ↔ o' = o) ∧
      ((id, o) ∈ w.log.returned ∨ ∀ env, ∃ e,
        w.engine.step env (.call id) w.stream = some (e, w.stream, [.returned id o]))) ∧
    (∀ w', World.Step key role w w' → ∀ f a, w'.log.received = w.log.received ++ [f] →
      Dispatch.destination ⟨f, w.engine.table⟩ = .response a → a.capacity < f.payload.length →
      ∃ r, w.engine.drive = some r ∧
        ((r.control = .serving ∧ Concludes key role
            (.error (.framing (.responseTooLarge a.seq f.payload.length a.capacity))) w') ∨
          (r.control = .draining (.ok ()) ∧ Concludes key role (.ok ()) w'))) := by
  have hw : World.Reachable key role w := ⟨c, out, inc, h.leads⟩
  refine ⟨dealt_of_run h, fun w' hstep => routed_of_step hw hstep, ?_, ?_, ?_⟩
  · intro id payload capacity due w' hstep hrequest ys w'' hrun hstay
    have hw' := hw.leads (.single hstep)
    obtain ⟨-, hengine⟩ := request_eq_ok hrequest
    have ha : { seq := w.engine.nextSeq, call := id, capacity } ∈ w'.engine.table := by
      rw [hengine]
      exact List.mem_append_right _ (List.mem_singleton_self _)
    exact (fate_of_run hw' ha hrun).resolution (kept_of_reachable (hw'.leads hrun.leads)) hstay
  · intro id o ho
    exact ⟨fun w' hlater hstay => cameTo_stays hw ho hlater hstay,
      returns_of_cameTo (kept_of_reachable hw) ho⟩
  · intro w' hstep f a hreceived hto hlong
    exact concludes_of_overflow hw hstep hreceived hto hlong

/-- The far end answers the first request. -/
def responding (key : SessionKey) : Duplex :=
  { roomy with incoming := { capacity := 100, held := wire key .serverToClient 0 [⟨1, [2]⟩] } }

theorem ahead_responding (key : SessionKey) (env : Env) (settings : Settings)
    (hadmits : Admits settings.maxRead ⟨1, [2]⟩) :
    (firstDrive key .client env settings).opener.Ahead [] (responding key).incoming [] [⟨1, [2]⟩] :=
  ahead_first settings rfl rfl (spellable_byte 2) hadmits

/-- The only frame is the response that the only request waits for, and its call returns it. -/
theorem response_goes_to_request : ∃ xs w, Run ⟨[7]⟩ .client (.fresh {} 100 100) xs w ∧
    xs.map (·.frame) = [⟨1, [2]⟩] ∧ w.log.delivered = [] ∧
    ∀ env, ∃ e, w.engine.step env (.call 0) w.stream =
      some (e, w.stream, [.returned 0 (.response [2])]) := by
  let key : SessionKey := ⟨[7]⟩
  let settings : Settings := ({} : Config.Connection).settings
  let env : Env := prompt false fun _ => none
  let w₀ : World := .fresh {} 100 100
  let asked : Site := .asked key .client env settings roomy [1] 1 9
  have hasked : Moves key .client env w₀.toSite asked := asks rfl roomy 1 9
  let w₁ : World := { w₀ with toSite := { asked with stream := responding key } }
  have hfar : World.Step key .client { w₀ with toSite := asked } w₁ := .far rfl
  obtain ⟨o, inc, bs, -, -, hgiven⟩ : ∃ o inc bs, o.Ahead [] inc [] [] ∧ _ ∧
      Moves key .client env w₁.toSite (w₁.toSite.given env
        { firstDrive key .client env settings with opener := o } ⟨1, [2]⟩ inc bs) :=
    receives (s := w₁.toSite) env rfl rfl rfl (ahead_responding key env settings rfl)
  let first : Drive := { firstDrive key .client env settings with opener := o }
  let w₂ : World := { w₁ with toSite := w₁.toSite.given env first ⟨1, [2]⟩ inc bs }
  obtain ⟨xs, hrun⟩ : ∃ xs, Run key .client w₀ xs w₂ :=
    exists_run (((w₀.leads hasked).tail hfar).trans (w₁.leads hgiven))
  obtain ⟨hdealt, -, -, hcalls, -⟩ := frames_go_to_one_place hrun
  have hcame : w₂.ledger.CameTo 0 (.response [2]) :=
    .inr ⟨{ id := 0, wait := .response 1 9, answer := some (.response [2]) },
      List.mem_singleton_self _, rfl, rfl⟩
  exact ⟨xs, w₂, hrun, hdealt.frames, rfl,
    ((hcalls 0 (.response [2]) hcame).2).resolve_left List.not_mem_nil⟩

/-- A response comes after a cancellation, and is too long for its caller: the drive ends well. -/
theorem exists_overflow (key : SessionKey) : ∃ w, World.Reachable key .client w ∧
    w.ledger.CameTo 0 (.failed (.framing (.responseTooLarge 1 1 0))) ∧
    w.log.ended = [.ok ()] := by
  let settings : Settings := ({} : Config.Connection).settings
  let env : Env := prompt true fun _ => none
  let w₀ : World := .fresh {} 100 100
  let asked : Site := .asked key .client env settings roomy [1] 0 9
  have hasked : Moves key .client env w₀.toSite asked := asks rfl roomy 0 9
  let first : Drive := firstDrive key .client env settings
  have hcancelled : Move key .client env asked (asked.cancelled first) := cancels rfl rfl rfl
  let w₁ : World :=
    { w₀ with toSite := { asked.cancelled first with stream := responding key } }
  have hfar : World.Step key .client { w₀ with toSite := asked.cancelled first } w₁ :=
    .far rfl
  obtain ⟨o, inc, bs, -, -, hgiven⟩ : ∃ o inc bs, o.Ahead [] inc [] [] ∧ _ ∧
      Moves key .client env w₁.toSite (w₁.toSite.given env
        { first with opener := o, control := .draining (.ok ()) } ⟨1, [2]⟩ inc bs) :=
    receives (s := w₁.toSite) env rfl rfl rfl (ahead_responding key env settings rfl)
  -- The read loop has ended, and the request's frame is still to be sent.
  let given : Site := w₁.toSite.given env
    { first with opener := o, control := .draining (.ok ()) } ⟨1, [2]⟩ inc bs
  let last : Drive :=
    { first with opener := o, reading := .ended, control := .draining (.ok ()) }
  let sent : Site := given.sent last (wire key .clientToServer 0 [⟨1, [1]⟩])
  have hsent : Moves key .client env given sent :=
    sends_byte rfl rfl rfl rfl rfl rfl rfl rfl rfl (by decide : 25 ≤ 100)
  obtain ⟨e, hcloses⟩ : ∃ e, Moves key .client env sent { sent with engine := e }.hungUp :=
    closes rfl rfl rfl rfl rfl rfl
  let w₂ : World := { w₁ with toSite := given }
  let w₃ : World := { w₂ with toSite := { sent with engine := e }.hungUp }
  have hw₂ : World.Reachable key .client w₂ := ⟨_, _, _,
    ((w₀.leads (hasked.tail hcancelled)).tail hfar).trans (w₁.leads hgiven)⟩
  have hlater : World.Leads key .client w₂ w₃ := w₂.leads (hsent.trans hcloses)
  have hcame : w₂.ledger.CameTo 0 (.failed (.framing (.responseTooLarge 1 1 0))) :=
    .inr ⟨{ id := 0, wait := .response 1 9,
            answer := some (.failed (.framing (.responseTooLarge 1 1 0))) },
      List.mem_singleton_self _, rfl, rfl⟩
  exact ⟨w₃, hw₂.leads hlater,
    (cameTo_stays hw₂ hcame hlater List.not_mem_nil _).mpr rfl, rfl⟩

/-- A request may fail for a response that is too long without the drive ending so. -/
theorem overflow_after_cancellation : ¬∀ w, World.Reachable ⟨[7]⟩ .client w →
    ∀ id seq length capacity,
      w.ledger.CameTo id (.failed (.framing (.responseTooLarge seq length capacity))) →
      ∀ res ∈ w.log.ended, res = .error (.framing (.responseTooLarge seq length capacity)) := by
  intro hall
  obtain ⟨w, hw, hcame, hended⟩ := exists_overflow ⟨[7]⟩
  have hres := hall w hw 0 1 1 0 hcame (.ok ()) (by rw [hended]; exact List.mem_singleton_self _)
  cases hres

end Parley.Engine
