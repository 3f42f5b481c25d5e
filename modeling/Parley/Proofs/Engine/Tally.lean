import Parley.Proofs.Engine.Dispatch

/-! What comes and goes under one number.

For one number, the `Tally` of a site counts the frames that were accepted and received under it,
the requests made under it, the frame that the application has and the request that waits. Unless
a request under the number is forgotten (`forgotten`), every move changes the tally in one of a few
ways (`tallied_of_move`).

Of the two ends of a stream, as long as neither receives more than the other accepted, no step
makes more frames than twice the requests (`Balanced.step`). The invariant is about what is still
under way: what is on its way to an end that is served may be replied to there, unless a request
waits for it; and while both ends are served no more is under way than requests wait. -/
namespace Parley.Engine
open Channel

/-! ### Tallies -/

/-- What has happened under a number at one end. -/
structure Tally where
  /-- Frames accepted. -/
  sent : Nat
  /-- Requests made. -/
  asked : Nat
  /-- Frames received. -/
  got : Nat
  /-- Frames that the application has. -/
  held : Nat
  /-- Requests that wait. -/
  waits : Nat
  /-- Whether the stream is driven, or still to be attached. -/
  served : Prop

namespace Site

/-- The tally of a number. -/
def tally (s : Site) (n : UInt32) : Tally where
  sent := (s.log.accepted.map (·.frame.seq)).count n
  asked := (s.log.issued.map (·.frame.seq)).count n
  got := (s.log.received.map (·.seq)).count n
  held := (s.hand.map (·.seq)).count n
  waits := (s.engine.table.map (·.seq)).count n
  served := s.Served

instance (s : Site) : Decidable s.Served :=
  inferInstanceAs (Decidable (s.engine.drive ≠ none ∨ s.engine.phase = .idle))

/-- The numbers of the requests that are forgotten between two states: nobody waits for them any
more, though the stream is served and nothing was received. -/
def forgotten (s s' : Site) : List UInt32 :=
  if s'.Served ∧ s'.log.received = s.log.received then
    (s.engine.table.filter (· ∉ s'.engine.table)).map (·.seq)
  else []

/-- The messages that were accepted. -/
def messages (s : Site) : Nat := s.log.accepted.countP (·.frame.isMessage)

end Site

/-- What a move does to a tally. -/
inductive Tally.Step (t t' : Tally) : Prop where
  | rests (hsent : t'.sent = t.sent) (hasked : t'.asked = t.asked) (hgot : t'.got = t.got)
      (hheld : t'.held ≤ t.held) (hserved : t'.served → t.served ∧ t'.waits = t.waits)
  /-- A request is made. -/
  | asks (hsent : t'.sent = t.sent + 1) (hasked : t'.asked = t.asked + 1) (hgot : t'.got = t.got)
      (hheld : t'.held ≤ t.held) (hserved : t'.served → t.served ∧ t'.waits = t.waits + 1)
  /-- The application is handed a frame that no request waits for. -/
  | takes (hserved : t.served) (hsent : t'.sent = t.sent) (hasked : t'.asked = t.asked)
      (hgot : t'.got = t.got + 1) (hheld : t.held = 0) (hheld' : t'.held = 1)
      (hwaits : t.waits = 0) (hwaits' : t'.waits = 0)
  /-- A request gets its response. -/
  | resolves (hserved : t.served) (hsent : t'.sent = t.sent) (hasked : t'.asked = t.asked)
      (hgot : t'.got = t.got + 1) (hheld : t'.held = t.held) (hwaits : t'.waits + 1 = t.waits)
  /-- The application returns from a frame, perhaps with a reply. -/
  | returns (hserved : t.served) (hsent : t'.sent ≤ t.sent + 1) (hasked : t'.asked = t.asked)
      (hgot : t'.got = t.got) (hheld : t'.held + 1 = t.held) (hwaits : t'.waits = t.waits)

variable {key : SessionKey} {role : Role} {env : Env} {s s' : Site} {n : UInt32}

theorem hand_of_not_served (h : ¬s.Served) : s.hand = [] := by
  have hnone : s.engine.drive = none := by
    by_contra hdrive
    exact h (.inl hdrive)
  rw [Site.hand, hnone]
  rfl

/-- Nothing was received or delivered, so the application has what it had. -/
theorem Routed.hand_of_quiet (h : Routed s s') (hreceived : s'.log.received = s.log.received)
    (hdelivered : s'.log.delivered = s.log.delivered) (hserved : s'.Served) :
    s.Served ∧ s'.hand = s.hand := by
  cases h with
  | nothing _ _ hhand => exact hhand hserved
  | returned _ hmore => exact absurd (hmore.symm.trans hdelivered) (ne_of_append_singleton _ _)
  | dispatched hmore => exact absurd (hmore.symm.trans hreceived) (ne_of_append_singleton _ _)

/-- A frame was received, when the application had none, and has come to its destination. -/
theorem Routed.of_received (h : Routed s s') {f : Frame}
    (hreceived : s'.log.received = s.log.received ++ [f]) :
    s.Served ∧ s.hand = [] ∧
      s'.hand = if Dispatch.isHanded ⟨f, s.engine.table⟩ then [f] else [] := by
  cases h with
  | nothing hsame
  | returned hsame => exact absurd (hreceived.symm.trans hsame) (ne_of_append_singleton _ _)
  | dispatched hmore _ hhand hserved hreaches =>
    obtain rfl := List.singleton_inj.mp (List.append_cancel_left (hmore.symm.trans hreceived))
    exact ⟨hserved, hhand, hand_of_reaches hreaches⟩

/-- The application has returned from a frame. -/
theorem Routed.of_delivered (h : Routed s s') {f : Frame}
    (hdelivered : s'.log.delivered = s.log.delivered ++ [f]) :
    s.Served ∧ s.hand = [f] ∧ s'.hand = [] := by
  cases h with
  | nothing _ hsame
  | dispatched _ hsame => exact absurd (hdelivered.symm.trans hsame) (ne_of_append_singleton _ _)
  | returned _ hmore hhand hserved hhand' =>
    obtain rfl := List.singleton_inj.mp (List.append_cancel_left (hmore.symm.trans hdelivered))
    exact ⟨hserved, hhand, hhand'⟩

/-- Nothing was received or delivered, so no more frames are held. -/
theorem Routed.held_le (h : Routed s s') (hreceived : s'.log.received = s.log.received)
    (hdelivered : s'.log.delivered = s.log.delivered) (n : UInt32) :
    (s'.tally n).held ≤ (s.tally n).held := by
  by_cases hserved : s'.Served
  · have hhand := (h.hand_of_quiet hreceived hdelivered hserved).2
    simp [Site.tally, hhand]
  · simp [Site.tally, hand_of_not_served hserved]

section
variable {f : Frame} {o : Outgoing} {q : Issued} {a : Awaited}

theorem sent_append (h : s'.log.accepted = s.log.accepted ++ [o]) (n : UInt32) :
    (s'.tally n).sent = (s.tally n).sent + if o.frame.seq = n then 1 else 0 := by
  simp [Site.tally, h, List.count_singleton]

theorem asked_append (h : s'.log.issued = s.log.issued ++ [q]) (n : UInt32) :
    (s'.tally n).asked = (s.tally n).asked + if q.frame.seq = n then 1 else 0 := by
  simp [Site.tally, h, List.count_singleton]

theorem got_append (h : s'.log.received = s.log.received ++ [f]) (n : UInt32) :
    (s'.tally n).got = (s.tally n).got + if f.seq = n then 1 else 0 := by
  simp [Site.tally, h, List.count_singleton]

theorem waits_append (h : s'.engine.table = s.engine.table ++ [a]) (n : UInt32) :
    (s'.tally n).waits = (s.tally n).waits + if a.seq = n then 1 else 0 := by
  simp [Site.tally, h, List.count_singleton]

/-- What waits under one number is taken out, and nothing else. -/
theorem waits_filter {seq : UInt32} (h : s'.engine.table = s.engine.table.filter (·.seq != seq))
    (n : UInt32) : (s'.tally n).waits = if seq = n then 0 else (s.tally n).waits := by
  have hmap : s'.engine.table.map (·.seq) = (s.engine.table.map (·.seq)).filter (· != seq) := by
    rw [h, List.filter_map]
    rfl
  have hwaits : (s'.tally n).waits = ((s.engine.table.map (·.seq)).filter (· != seq)).count n := by
    rw [← hmap]
    rfl
  rw [hwaits]
  split
  · rename_i hseq
    simp [List.count_eq_zero, hseq]
  · rename_i hseq
    exact List.count_filter (by simpa using fun h => hseq h.symm)

end

/-- A number that is not forgotten is waited for as before. -/
theorem waits_of_kept (hk : s.ledger.Kept) (hk' : s'.ledger.Kept) (hserved : s'.Served)
    (hreceived : s'.log.received = s.log.received) (htable : s'.engine.table ⊆ s.engine.table)
    (hkept : n ∉ s.forgotten s') : (s'.tally n).waits = (s.tally n).waits := by
  have hkeys : (s.engine.table.map (·.seq)).Nodup := hk.tabled.keys
  have hkeys' : (s'.engine.table.map (·.seq)).Nodup := hk'.tabled.keys
  have hiff : n ∈ s'.engine.table.map (·.seq) ↔ n ∈ s.engine.table.map (·.seq) := by
    refine ⟨fun h => List.map_subset _ htable h, fun h => ?_⟩
    obtain ⟨a, ha, rfl⟩ := List.mem_map.mp h
    by_contra hgone
    refine hkept ?_
    rw [Site.forgotten, if_pos ⟨hserved, hreceived⟩]
    refine List.mem_map_of_mem (List.mem_filter.mpr ⟨ha, ?_⟩)
    simpa using fun h => hgone (List.mem_map_of_mem h)
  simp only [Site.tally, hkeys.count, hkeys'.count, hiff]

/-- Nothing is accepted, received or delivered under the number. -/
theorem Tally.Step.of_quiet (hrouted : Routed s s') (hk : s.ledger.Kept) (hk' : s'.ledger.Kept)
    (hsent : (s'.tally n).sent = (s.tally n).sent) (hissued : s'.log.issued = s.log.issued)
    (hreceived : s'.log.received = s.log.received) (hdelivered : s'.log.delivered = s.log.delivered)
    (htable : s'.engine.table ⊆ s.engine.table) (hkept : n ∉ s.forgotten s') :
    (s.tally n).Step (s'.tally n) := by
  refine .rests hsent ?_ ?_ (hrouted.held_le hreceived hdelivered n) fun hserved => ?_
  · simp [Site.tally, hissued]
  · simp [Site.tally, hreceived]
  · exact ⟨(hrouted.hand_of_quiet hreceived hdelivered hserved).1,
      waits_of_kept hk hk' hserved hreceived htable hkept⟩

/-- A request is made. -/
theorem Tally.Step.of_asked (hrouted : Routed s s') {o : Outgoing} {q : Issued} {a : Awaited}
    (haccepted : s'.log.accepted = s.log.accepted ++ [o])
    (hissued : s'.log.issued = s.log.issued ++ [q])
    (htable : s'.engine.table = s.engine.table ++ [a])
    (hreceived : s'.log.received = s.log.received) (hdelivered : s'.log.delivered = s.log.delivered)
    (hq : q.frame.seq = o.frame.seq) (ha : a.seq = o.frame.seq) (n : UInt32) :
    (s.tally n).Step (s'.tally n) := by
  have hsent := sent_append haccepted n
  have hasked := asked_append hissued n
  have hwaits := waits_append htable n
  have hgot : (s'.tally n).got = (s.tally n).got := by simp [Site.tally, hreceived]
  have hheld := hrouted.held_le hreceived hdelivered n
  have hserved : s'.Served → s.Served := fun h =>
    (hrouted.hand_of_quiet hreceived hdelivered h).1
  rw [hq] at hasked
  rw [ha] at hwaits
  by_cases hseq : o.frame.seq = n
  · rw [if_pos hseq] at hsent hasked hwaits
    exact .asks hsent hasked hgot hheld fun h => ⟨hserved h, hwaits⟩
  · rw [if_neg hseq] at hsent hasked hwaits
    exact .rests hsent hasked hgot hheld fun h => ⟨hserved h, hwaits⟩

/-- A frame that no request waits for is handed to the application. -/
theorem isHanded_of_other {x : Dispatch}
    (h : x.frame.isMessage = true ∨ ∀ a ∈ x.table, a.seq ≠ x.frame.seq) : x.isHanded = true := by
  have hother : x.frame.isMessage = true ∨ x.table.find? (·.seq == x.frame.seq) = none :=
    h.imp_right fun hnone => List.find?_eq_none.mpr fun a ha => by simpa using hnone a ha
  rw [Dispatch.isHanded, x.destination_of_other hother]
  cases x.frame.isMessage <;> rfl

theorem isHanded_of_entry {x : Dispatch} {a : Awaited} (hf : x.frame.isMessage = false)
    (ha : a ∈ x.table) (hseq : a.seq = x.frame.seq) : x.isHanded = false := by
  cases hfound : x.table.find? (·.seq == x.frame.seq) with
  | none => exact absurd (beq_iff_eq.mpr hseq) (List.find?_eq_none.mp hfound a ha)
  | some b => rw [Dispatch.isHanded, Dispatch.destination_of_entry hf hfound]

/-- The application is handed a frame. -/
theorem Tally.Step.of_taken (hrouted : Routed s s') {f : Frame}
    (haccepted : s'.log.accepted = s.log.accepted) (hissued : s'.log.issued = s.log.issued)
    (hreceived : s'.log.received = s.log.received ++ [f])
    (htable : s'.engine.table = s.engine.table)
    (hother : f.isMessage = true ∨ ∀ a ∈ s.engine.table, a.seq ≠ f.seq)
    (hn : n ≠ Frame.noResponse) : (s.tally n).Step (s'.tally n) := by
  obtain ⟨hserved, hhand, hhand'⟩ := hrouted.of_received hreceived
  rw [isHanded_of_other hother, if_pos rfl] at hhand'
  have hsent : (s'.tally n).sent = (s.tally n).sent := by simp [Site.tally, haccepted]
  have hasked : (s'.tally n).asked = (s.tally n).asked := by simp [Site.tally, hissued]
  have hwaits : (s'.tally n).waits = (s.tally n).waits := by simp [Site.tally, htable]
  have hgot := got_append hreceived n
  by_cases hseq : f.seq = n
  · have hnone : (s.tally n).waits = 0 := by
      rcases hother with hmessage | hnone
      · exact absurd (hseq.symm.trans (beq_iff_eq.mp hmessage)) hn
      · rw [Site.tally, List.count_eq_zero]
        intro hmem
        obtain ⟨a, ha, heq⟩ := List.mem_map.mp hmem
        exact hnone a ha (heq.trans hseq.symm)
    have hheld : (s.tally n).held = 0 := by simp [Site.tally, hhand]
    have hheld' : (s'.tally n).held = 1 := by simp [Site.tally, hhand', hseq]
    rw [if_pos hseq] at hgot
    exact .takes hserved hsent hasked hgot hheld hheld' hnone (hwaits.trans hnone)
  · have hheld' : (s'.tally n).held = 0 := by simp [Site.tally, hhand', hseq]
    rw [if_neg hseq] at hgot
    exact .rests hsent hasked hgot (by omega) fun _ => ⟨hserved, hwaits⟩

/-- A frame comes to the request that waits for it. -/
theorem Tally.Step.of_resolved (hrouted : Routed s s') (hk : s.ledger.Kept) {f : Frame}
    {a : Awaited} (haccepted : s'.log.accepted = s.log.accepted)
    (hissued : s'.log.issued = s.log.issued)
    (hreceived : s'.log.received = s.log.received ++ [f])
    (htable : s'.engine.table = s.engine.table.filter (·.seq != a.seq))
    (hf : f.isMessage = false) (ha : a ∈ s.engine.table) (hfseq : a.seq = f.seq) (n : UInt32) :
    (s.tally n).Step (s'.tally n) := by
  obtain ⟨hserved, hhand, hhand'⟩ := hrouted.of_received hreceived
  rw [isHanded_of_entry hf ha hfseq, if_neg (by decide)] at hhand'
  have hsent : (s'.tally n).sent = (s.tally n).sent := by simp [Site.tally, haccepted]
  have hasked : (s'.tally n).asked = (s.tally n).asked := by simp [Site.tally, hissued]
  have hheld : (s'.tally n).held = (s.tally n).held := by simp [Site.tally, hhand, hhand']
  have hgot := got_append hreceived n
  have hwaits := waits_filter htable n
  rw [hfseq] at hwaits
  by_cases hseq : f.seq = n
  · have hone : (s.tally n).waits = 1 :=
      List.count_eq_one_of_mem hk.tabled.keys (hseq ▸ hfseq ▸ List.mem_map_of_mem ha)
    rw [if_pos hseq] at hgot hwaits
    exact .resolves hserved hsent hasked hgot hheld (by rw [hone, hwaits])
  · rw [if_neg hseq] at hgot hwaits
    exact .rests hsent hasked hgot (Nat.le_of_eq hheld) fun _ => ⟨hserved, hwaits⟩

/-- The application returns from a frame. What it may have replied is under the same number. -/
theorem Tally.Step.of_delivered (hrouted : Routed s s') {f : Frame}
    (hsent : (s'.tally n).sent = (s.tally n).sent ∨
      (s'.tally n).sent = (s.tally n).sent + if f.seq = n then 1 else 0)
    (hissued : s'.log.issued = s.log.issued) (hreceived : s'.log.received = s.log.received)
    (hdelivered : s'.log.delivered = s.log.delivered ++ [f])
    (htable : s'.engine.table = s.engine.table) : (s.tally n).Step (s'.tally n) := by
  obtain ⟨hserved, hhand, hhand'⟩ := hrouted.of_delivered hdelivered
  have hasked : (s'.tally n).asked = (s.tally n).asked := by simp [Site.tally, hissued]
  have hgot : (s'.tally n).got = (s.tally n).got := by simp [Site.tally, hreceived]
  have hwaits : (s'.tally n).waits = (s.tally n).waits := by simp [Site.tally, htable]
  have hheld' : (s'.tally n).held = 0 := by simp [Site.tally, hhand']
  by_cases hseq : f.seq = n
  · have hheld : (s.tally n).held = 1 := by simp [Site.tally, hhand, hseq]
    rw [if_pos hseq] at hsent
    exact .returns hserved (by omega) hasked hgot (by omega) hwaits
  · rw [if_neg hseq] at hsent
    exact .rests (by omega) hasked hgot (by omega) fun _ => ⟨hserved, hwaits⟩

/-- Unless its request is forgotten, every move changes the tally of a number in one of these
ways. -/
theorem tallied_of_move (h : Move key role env s s') (hk : s.ledger.Kept) (hk' : s'.ledger.Kept)
    (hs : Inbound key role.inbound s.intake s.inlet) (hn : n ≠ Frame.noResponse)
    (hkept : n ∉ s.forgotten s') : (s.tally n).Step (s'.tally n) := by
  have hrouted := routed_of_move h hk hs
  cases turn_of_move h with
  | @quiet table hacc htable =>
    have haccepted : s'.log.accepted = s.log.accepted := congrArg Account.accepted hacc
    have hentries : s'.engine.table = table := congrArg Account.table hacc
    exact .of_quiet hrouted hk hk' (by simp [Site.tally, haccepted])
      (congrArg Account.issued hacc) (congrArg Account.received hacc)
      (congrArg Account.delivered hacc) (fun a ha => htable a (hentries ▸ ha)) hkept
  | @posts o hacc hmessage =>
    have hentries : s'.engine.table = s.engine.table := congrArg Account.table hacc
    have hsent := sent_append (congrArg Account.accepted hacc) n
    have hne : o.frame.seq ≠ n := fun heq => hn (heq.symm.trans (beq_iff_eq.mp hmessage))
    rw [if_neg hne] at hsent
    exact .of_quiet hrouted hk hk' hsent (congrArg Account.issued hacc)
      (congrArg Account.received hacc) (congrArg Account.delivered hacc)
      (fun a ha => hentries ▸ ha) hkept
  | asks hnew hacc =>
    exact .of_asked hrouted (congrArg Account.accepted hacc) (congrArg Account.issued hacc)
      (congrArg Account.table hacc) (congrArg Account.received hacc)
      (congrArg Account.delivered hacc) rfl rfl n
  | takes hacc hother =>
    exact .of_taken hrouted (congrArg Account.accepted hacc) (congrArg Account.issued hacc)
      (congrArg Account.received hacc) (congrArg Account.table hacc) hother hn
  | resolves hacc hf ha hfseq =>
    exact .of_resolved hrouted hk (congrArg Account.accepted hacc) (congrArg Account.issued hacc)
      (congrArg Account.received hacc) (congrArg Account.table hacc) hf ha hfseq n
  | delivers hacc =>
    have haccepted : s'.log.accepted = s.log.accepted := congrArg Account.accepted hacc
    exact .of_delivered hrouted (.inl (by simp [Site.tally, haccepted]))
      (congrArg Account.issued hacc) (congrArg Account.received hacc)
      (congrArg Account.delivered hacc) (congrArg Account.table hacc)
  | @replies f payload hf hreply hacc =>
    have hsent : (s'.tally n).sent = (s.tally n).sent + if f.seq = n then 1 else 0 :=
      sent_append (congrArg Account.accepted hacc) n
    exact .of_delivered hrouted (.inr hsent) (congrArg Account.issued hacc)
      (congrArg Account.received hacc) (congrArg Account.delivered hacc)
      (congrArg Account.table hacc)

/-! ### Two ends -/

namespace Tally

/-- The frames that are on their way from here or have been: those accepted, and the one that the
application may still reply to. -/
def load (t : Tally) : Nat := t.sent + t.held

/-- The frames from the other end that brought no reply, or will not. -/
def room (t : Tally) : Nat := t.got + t.waits

/-- What is under way between two ends comes to no more than two frames a request. -/
structure Balanced (a b : Tally) : Prop where
  bounded : a.load + b.load ≤ 2 * (a.asked + b.asked)
  /-- What is on its way to an end may bring a reply, unless a request waits for it. -/
  near : a.served → a.load + b.load + b.load ≤ 2 * (a.asked + b.asked) + a.room
  far : b.served → a.load + b.load + a.load ≤ 2 * (a.asked + b.asked) + b.room
  /-- No more is under way than requests wait. -/
  settled : a.served → b.served → a.load + b.load ≤ a.room + b.room

theorem balanced_of_load {a b : Tally} (ha : a.load = 0) (hb : b.load = 0) : Balanced a b := by
  constructor <;> intros <;> omega

theorem Balanced.symm {a b : Tally} (h : Balanced a b) : Balanced b a where
  bounded := by have := h.bounded; omega
  near hserved := by have := h.far hserved; omega
  far hserved := by have := h.near hserved; omega
  settled hb ha := by have := h.settled ha hb; omega

/-- A step at one end keeps the balance, if it receives no more than the other end accepted. -/
theorem Balanced.step {a a' b : Tally} (h : Balanced a b) (hstep : a.Step a')
    (hgot : a'.got ≤ b.sent) : Balanced a' b := by
  obtain ⟨hbounded, hnear, hfar, hsettled⟩ := h
  simp only [load, room] at hbounded hnear hfar hsettled
  cases hstep with
  | takes hserved hsent hasked hgot' hheld hheld' hwaits hwaits' =>
    -- No request waits here, so that what was on its way was known to bring a reply.
    have hreply := hnear hserved
    refine ⟨?_, fun _ => ?_, fun hb => ?_, fun _ hb => ?_⟩ <;> simp only [load, room]
    · omega
    · omega
    · have := hsettled hserved hb
      omega
    · have := hsettled hserved hb
      omega
  | rests hsent hasked hgot' hheld hserved
  | asks hsent hasked hgot' hheld hserved =>
    refine ⟨?_, fun ha => ?_, fun hb => ?_, fun ha hb => ?_⟩ <;> simp only [load, room]
    · omega
    · obtain ⟨hserved, hwaits⟩ := hserved ha
      have := hnear hserved
      omega
    · have := hfar hb
      omega
    · obtain ⟨hserved, hwaits⟩ := hserved ha
      have := hsettled hserved hb
      omega
  | resolves hserved hsent hasked hgot' hheld hwaits
  | returns hserved hsent hasked hgot' hheld hwaits =>
    have hreply := hnear hserved
    refine ⟨?_, fun _ => ?_, fun hb => ?_, fun _ hb => ?_⟩ <;> simp only [load, room]
    · omega
    · omega
    · have := hfar hb
      omega
    · have := hsettled hserved hb
      omega

end Tally
end Parley.Engine
