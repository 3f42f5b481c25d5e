import Parley.Proofs.Channel.Meeting

/-! Two ends that shake hands agree, and what each writes behind its handshake reaches the other.

No end waits for long: room for a public key is there from the start, so each comes to read the
other's, and once both streams are secured a pipe that is full is read and one that is empty has
room (`Sound.ready`). Every step leaves less to write, or no more and less to read
(`Step.lighter`). So in whatever order the ends go and in whatever pieces their bytes cross, both
come to the same key and to all frames of the other (`handshake_agrees`). Frames that are too
long for the other end are no part of this: it never receives one (`limited_of_leads`). -/
namespace Parley.Channel

/-! ### What is left to do -/

/-- How many steps it takes at most to hand these frames over. -/
def Sealer.efforts : List Frame → Nat
  | [] => 0
  | f :: fs => effort f + efforts fs

/-- How many steps the writing half makes at most: the frames to write, the call under way, what
is in the buffer, and the flush. -/
def Secured.work (s : Secured) : Nat :=
  Sealer.efforts s.todo + (s.job.map (·.effort + 1)).getD 0 + s.sealer.outlet.held.length +
    2 * (!s.flushed).toNat

/-- How many steps a handshake makes at most, besides those that only read. -/
def Exchange.work : Exchange → Nat
  | .sending _ left => left.length + 3
  | .receiving .. => 2
  | .agreed _ => 1

/-- How many steps an end makes at most, besides those that only read. -/
def Stage.work (plan : Plan) : Stage → Nat
  | .shaking x => x.work + Sealer.efforts plan.frames + 2
  | .secured s => s.work
  | .gone _ => 0

/-- How many bytes an end has read ahead. -/
def Stage.ahead : Stage → Nat
  | .secured s => s.opener.ahead.length
  | _ => 0

variable {plan : Role → Plan} {r : Role} {q q' : Side} {d d' : Duplex} {more : Bytes}

theorem Sealer.effort_pos (f : Frame) : 0 < effort f := by
  rw [effort]
  omega

/-- A step of a handshake leaves less to do, or it reads. -/
theorem Exchange.work_advance {x x' : Exchange} (h : x.advance r d = some (.ok (x', d'))) :
    x'.work < x.work ∨ x'.work = x.work ∧ d'.outgoing = d.outgoing ∧
      d'.incoming.held.length < d.incoming.held.length := by
  cases x with
  | sending secret left =>
    simp only [advance] at h
    split at h
    · cases h
      exact .inl (by simp only [work]; omega)
    · rename_i hleft
      obtain ⟨res, hpush, hres⟩ := Option.map_eq_some_iff.mp h
      cases res with
      | error e => cases hres
      | ok pushed =>
        cases hres
        obtain ⟨-, hroom, hrest, -⟩ := Pipe.push_ok hpush
        have hpos := List.length_pos_iff.mpr hleft
        refine .inl ?_
        rw [work, work, hrest, List.length_drop]
        omega
  | receiving secret arrived =>
    simp only [advance] at h
    split at h
    · split at h
      · cases h
      · cases h
        exact .inl (by simp only [work]; omega)
    · split at h
      · cases h
      · cases h
      · rename_i bs inc hne hpull
        cases h
        have hconserves := congrArg List.length (Pipe.pull_conserves hpull)
        have hpos : 0 < bs.length := List.length_pos_iff.mpr hne
        rw [List.length_append] at hconserves
        exact .inr ⟨rfl, rfl, by show inc.held.length < _; omega⟩
  | agreed key => cases h

/-- **A step of an end leaves less to write, or no more and less to read.** -/
theorem Side.Step.lighter (h : Side.Step r (plan r) q d q' d')
    (hexpects : q.stage.Expects plan r q.taken (d.incoming.held ++ more))
    (hinc : d.incoming.closed = false) :
    q'.stage.work (plan r) < q.stage.work (plan r) ∨
      q'.stage.work (plan r) ≤ q.stage.work (plan r) ∧ d'.outgoing = d.outgoing ∧
        2 * d'.incoming.held.length + q'.stage.ahead <
          2 * d.incoming.held.length + q.stage.ahead := by
  obtain ⟨stage, taken⟩ := q
  cases h with
  | @exchanges x x' _ bs hq h hbs =>
    obtain rfl : stage = _ := hq
    simp only [Stage.work, Stage.ahead]
    rcases Exchange.work_advance h with hless | ⟨hsame, hout, hless⟩
    · exact .inl (by omega)
    · exact .inr ⟨by omega, hout, by omega⟩
  | @fails x e hq =>
    obtain rfl : stage = _ := hq
    exact .inl (by simp only [Stage.work]; omega)
  | secures hq =>
    obtain rfl : stage = _ := hq
    refine .inl ?_
    simp only [Stage.work, Exchange.work, Secured.work, Secured.start, Sealer.create,
      Option.map_none, Option.getD_none, List.length_nil, Bool.not_false, Bool.toNat_true]
    omega
  | begins hq hjob htodo h =>
    obtain rfl : stage = _ := hq
    obtain ⟨heffort, houtlet⟩ := Sealer.effort_of_write h
    refine .inl ?_
    simp only [Stage.work, Secured.work, hjob, htodo, houtlet, Sealer.efforts, Option.map_none,
      Option.map_some, Option.getD_none, Option.getD_some]
    omega
  | @refused s f fs e hq hjob htodo =>
    obtain rfl : stage = _ := hq
    have hpos := Sealer.effort_pos f
    refine .inl ?_
    simp only [Stage.work, Secured.work, htodo, Sealer.efforts]
    omega
  | flushes hq hjob htodo hflushed =>
    obtain rfl : stage = _ := hq
    refine .inl ?_
    simp only [Stage.work, Secured.work, hjob, hflushed, Sealer.Job.effort, Option.map_none,
      Option.map_some, Option.getD_none, Option.getD_some, Bool.not_false, Bool.not_true,
      Bool.toNat_false, Bool.toNat_true]
    omega
  | @writes s job job' sealer out hq hjob h =>
    obtain rfl : stage = _ := hq
    refine .inl ?_
    cases job' with
    | none =>
      obtain rfl := Sealer.advance_done h
      simp only [Stage.work, Secured.work, hjob, Option.map_none, Option.map_some,
        Option.getD_none, Option.getD_some]
      omega
    | some job' =>
      have hless := Sealer.advance_less h
      simp only [Stage.work, Secured.work, hjob, Option.map_some, Option.getD_some]
      omega
  | breaks hq hjob =>
    obtain rfl : stage = _ := hq
    refine .inl ?_
    simp only [Stage.work, Secured.work, hjob, Option.map_some, Option.getD_some]
    omega
  | @reads s reading o inc hq h =>
    obtain rfl : stage = _ := hq
    cases hexpects with
    | secured _ hs =>
      obtain ⟨gs, -, hahead⟩ := hs.ahead
      have hbefore : s.opener.Ahead s.collected d.incoming more gs := hahead.elsewhere hinc rfl
      have hopen : reading ≠ .ended := by
        rintro rfl
        obtain ⟨-, -, -, hclosed⟩ := Opener.advance_ended h
        rw [hinc] at hclosed
        cases hclosed
      have hless := (hbefore.effort_advance h).2 hopen
      simp only [Opener.effort] at hless
      refine .inr ⟨?_, rfl, ?_⟩
      · cases reading <;> simp only [Secured.reads, Stage.work, Secured.work] <;> omega
      · cases reading <;> simp only [Secured.reads, Stage.ahead] <;> omega

namespace Meeting
variable {m m' : Meeting} {capacity : Role → Nat}

/-- The sum over both ends. -/
def both (f : Role → Nat) : Nat := f .client + f .server

theorem both_eq (f : Role → Nat) (r : Role) : both f = f r + f r.opposite := by
  cases r
  · rfl
  · exact Nat.add_comm ..

/-- What is left to write. -/
def work (plan : Role → Plan) (m : Meeting) : Nat :=
  both fun r => (m.sides r).stage.work (plan r)

/-- What is left to read of what was written. -/
def load (m : Meeting) : Nat :=
  both fun r => 2 * (m.pipes r.opposite).held.length + (m.sides r).stage.ahead

/-- Less is left to write; or no more, and less to read. -/
def Lighter (plan : Role → Plan) (m' m : Meeting) : Prop :=
  m'.work plan < m.work plan ∨ m'.work plan ≤ m.work plan ∧ m'.load < m.load

/-- **Every step brings the end closer.** -/
theorem Step.lighter (hm : m.Sound plan capacity) (h : Step plan m m') : Lighter plan m' m := by
  obtain @⟨r, seen, seen', rest, q, hseen, h⟩ := h
  obtain ⟨-, hinc, hexpects⟩ := hm.glimpse hseen
  have hwork : ∀ m : Meeting, m.work plan =
      (m.sides r).stage.work (plan r) + (m.sides r.opposite).stage.work (plan r.opposite) :=
    fun m => both_eq _ r
  have hload : ∀ m : Meeting, m.load =
      2 * (m.pipes r.opposite).held.length + (m.sides r).stage.ahead +
        (2 * (m.pipes r).held.length + (m.sides r.opposite).stage.ahead) := fun m => by
    rw [load, both_eq _ r, Role.opposite_opposite]
  rw [Lighter, hwork, hwork, hload, hload, sides_put, sides_put_opposite, pipes_put,
    pipes_put_opposite]
  rcases h.lighter hexpects hinc with hless | ⟨hle, hout, hless⟩
  · exact .inl (by omega)
  · refine .inr ⟨by omega, ?_⟩
    have hheld : seen.incoming.held ++ rest = (m.pipes r.opposite).held := hseen.held
    have hlength := congrArg List.length hheld
    rw [List.length_append] at hlength
    show 2 * (seen'.incoming.held ++ rest).length + _ + (2 * seen'.outgoing.held.length + _) < _
    rw [hout, hseen.outgoing, List.length_append]
    show _ + (2 * (m.pipes r).held.length + _) < _
    omega

/-- What becomes lighter with every step does so only finitely often. -/
theorem lighter_induction (plan : Role → Plan) {motive : Meeting → Prop}
    (h : ∀ m, (∀ m', Lighter plan m' m → motive m') → motive m) (m : Meeting) : motive m :=
  h m fun m' _ => lighter_induction plan h m'
termination_by (m.work plan, m.load)
decreasing_by
  rcases ‹Lighter plan m' m› with hlt | ⟨hle, hlt⟩
  · exact .left _ _ hlt
  · exact Prod.Lex.right' _ hle hlt

end Meeting
/-! ### Somebody can go on -/

/-- What an end waits for that can make no step: room for what it writes, or bytes to read. -/
inductive Stage.Waits (d : Duplex) : Stage → Prop where
  | sending {secret left : Bytes} (hleft : left ≠ []) (hroom : d.outgoing.room = 0) :
      Waits d (.shaking (.sending secret left))
  | receiving {secret arrived : Bytes} (hshort : arrived.length < Exchange.keyLength)
      (hheld : d.incoming.held = []) : Waits d (.shaking (.receiving secret arrived))
  | secured {s : Secured} (hwrites : s.flushed = true ∧ s.job = none ∨ d.outgoing.room = 0)
      (hahead : s.opener.ahead = []) (hheld : d.incoming.held = []) : Waits d (.secured s)

theorem Stage.Waits.mono {stage : Stage} (h : stage.Waits d')
    (hroom : d'.outgoing.room = 0 → d.outgoing.room = 0)
    (hheld : d'.incoming.held = [] → d.incoming.held = []) : stage.Waits d := by
  cases h with
  | sending hleft hfull => exact .sending hleft (hroom hfull)
  | receiving hshort hempty => exact .receiving hshort (hheld hempty)
  | secured hwrites hahead hempty => exact .secured (hwrites.imp_right hroom) hahead (hheld hempty)

section
open Meeting

/-- A handshake waits for room for its key, or for the other end's. -/
theorem Exchange.waits_of_advance {x : Exchange} (hnot : ∀ k, x ≠ .agreed k)
    (h : x.advance r d = none) : (Stage.shaking x).Waits d := by
  cases x with
  | sending secret left =>
    simp only [advance] at h
    split at h
    · cases h
    · rename_i hleft
      exact .sending hleft (Pipe.room_of_push (Option.map_eq_none_iff.mp h))
  | receiving secret arrived =>
    simp only [advance] at h
    split at h
    · split at h <;> cases h
    · rename_i hshort
      split at h
      · rename_i hpull
        exact .receiving (Nat.lt_of_not_le hshort) (Pipe.empty_of_pull hpull)
      · cases h
      · cases h
  | agreed k => exact absurd rfl (hnot k)

/-- **An end that can make no step waits.** -/
theorem Side.waits_of_stuck (hfair : Fair plan) (hsends : q.stage.Sends plan r)
    (hexpects : q.stage.Expects plan r q.taken (d.incoming.held ++ more))
    (hout : d.outgoing.closed = false) (hinc : d.incoming.closed = false)
    (hstuck : ∀ q' d', ¬ Side.Step r (plan r) q d q' d') : q.stage.Waits d := by
  obtain ⟨stage, taken⟩ := q
  cases stage with
  | shaking x =>
    by_cases hagreed : ∃ k, x = .agreed k
    · obtain ⟨k, rfl⟩ := hagreed
      exact absurd (.secures rfl) (hstuck _ _)
    · cases hadv : x.advance r d with
      | none => exact Exchange.waits_of_advance (fun k hk => hagreed ⟨k, hk⟩) hadv
      | some res =>
        obtain ⟨x', d', bs, rfl, hbs, -⟩ := keeps_exchange hfair hadv hsends hexpects hout hinc
        exact absurd (.exchanges rfl hadv hbs) (hstuck _ _)
  | secured s =>
    have hread : s.opener.advance s.collected d.incoming = none :=
      Option.eq_none_iff_forall_ne_some.mpr fun _ hadv =>
        absurd (.reads rfl hadv) (hstuck _ _)
    obtain ⟨hahead, hheld⟩ := Opener.empty_of_advance hread
    refine .secured ?_ hahead hheld
    cases hjob : s.job with
    | some job =>
      cases hadv : s.sealer.advance job d.outgoing with
      | none => exact .inr (Sealer.room_of_advance hadv)
      | some res =>
        cases res with
        | ok x => exact absurd (.writes rfl hjob hadv) (hstuck _ _)
        | error e => exact absurd (.breaks rfl hjob hadv) (hstuck _ _)
    | none =>
      cases htodo : s.todo with
      | cons f fs =>
        cases hwrite : s.sealer.write f with
        | ok x => exact absurd (.begins rfl hjob htodo hwrite) (hstuck _ _)
        | error e => exact absurd (.refused rfl hjob htodo hwrite) (hstuck _ _)
      | nil =>
        cases hflushed : s.flushed with
        | true => exact .inl ⟨rfl, rfl⟩
        | false => exact absurd (.flushes rfl hjob htodo hflushed) (hstuck _ _)
  | gone e => cases hsends

theorem Meeting.length_greeting : (greeting plan r).length = Exchange.keyLength :=
  Crypto.X25519.length_publicKey _

/-- No end expects more than a public key and the frames. -/
theorem Stage.Expects.length_le {stage : Stage} {taken next : Bytes}
    (h : stage.Expects plan r taken next) :
    taken.length + next.length ≤ Exchange.keyLength + (speech plan r.opposite).length := by
  cases h with
  | sending htaken h =>
    rw [htaken, h, List.length_append, length_greeting]
    exact Nat.le_of_eq (Nat.zero_add _)
  | receiving _ h =>
    exact Nat.le_of_eq (by rw [← List.length_append, h, List.length_append, length_greeting])
  | agreed htaken h =>
    exact Nat.le_of_eq (by rw [htaken, h, length_greeting])
  | @secured s htaken h =>
    obtain ⟨gs, hall, hahead⟩ := h.ahead
    have hwire := congrArg List.length hahead.bytes
    rw [h.opening, h.nonces] at hwire
    rw [htaken, length_greeting, speech, Role.outbound_opposite, ← hall, wire_append,
      Nat.zero_add]
    simp only [List.length_append] at hwire ⊢
    omega

theorem Stage.Expects.taken_prefix {stage : Stage} {taken next : Bytes}
    (h : stage.Expects plan r taken next) : taken <+: greeting plan r.opposite := by
  cases h with
  | sending htaken =>
    rw [htaken]
    exact List.nil_prefix
  | receiving hshort h =>
    refine List.prefix_of_prefix_length_le ⟨next, h⟩ (List.prefix_append ..) ?_
    rwa [length_greeting]
  | agreed htaken
  | secured htaken => exact htaken ▸ List.prefix_rfl

/-! ### Both ends at rest -/

/-- The handshake of an end was a success. Both halves of its stream have the key of the meeting,
each with the nonces of its direction; the other end's public key was taken from the stream, and
nothing after it; and what was received is the other end's first frames. -/
structure Side.Agrees (plan : Role → Plan) (r : Role) (q : Side) (s : Secured) : Prop where
  stage : q.stage = .secured s
  sealing : s.sealer.key = key plan
  opening : s.opener.key = key plan
  outbound : s.sealer.nonces.direction = r.outbound
  inbound : s.opener.nonces.direction = r.opposite.outbound
  taken : q.taken = greeting plan r.opposite
  length : q.taken.length = Exchange.keyLength
  received : s.received <+: (plan r.opposite).frames

namespace Meeting
variable {m m' : Meeting} {capacity : Role → Nat}

/-- Both ends have agreed, all that either had to write is flushed, and the other end has received
it. -/
structure Done (plan : Role → Plan) (m : Meeting) : Prop where
  ends : ∀ r, ∃ s, (m.sides r).Agrees plan r s ∧ s.todo = [] ∧ s.job = none ∧
    s.sealer.outlet.held = [] ∧ s.received = (plan r.opposite).frames

theorem Sound.agrees (hm : m.Sound plan capacity) {s : Secured}
    (hq : (m.sides r).stage = .secured s) : (m.sides r).Agrees plan r s := by
  have hsends := hm.sends r
  have hexpects := hm.expects r
  rw [hq] at hsends hexpects
  cases hsends with
  | secured hs =>
    cases hexpects with
    | secured htaken h =>
      obtain ⟨gs, hall, -⟩ := h.ahead
      refine ⟨hq, hs.sealing, h.opening, hs.direction, ?_, htaken, ?_, ⟨gs, hall⟩⟩
      · rw [h.nonces, Role.outbound_opposite]
      · rw [htaken, length_greeting]

/-- There is room for the rest of a public key. -/
theorem Sound.room_of_sending (hm : m.Sound plan capacity)
    (hcap : ∀ r, Exchange.keyLength ≤ capacity r) {secret left : Bytes}
    (hq : (m.sides r).stage = .shaking (.sending secret left)) (hleft : left ≠ []) :
    (m.pipes r).room ≠ 0 := by
  have hle := (hm.expects r.opposite).length_le
  rw [coming, Role.opposite_opposite, hq, Stage.unsent] at hle
  simp only [List.length_append] at hle
  have hpos := List.length_pos_iff.mpr hleft
  have := hcap r
  rw [Pipe.room, hm.capacity r]
  omega

/-- An end that waits has no more to hand over than its frames. -/
theorem Sound.unsent_le (hm : m.Sound plan capacity)
    (hcap : ∀ r, Exchange.keyLength ≤ capacity r)
    (hwaits : (m.sides r).stage.Waits (m.stream r)) :
    ((m.sides r).stage.unsent plan r).length ≤ (speech plan r).length := by
  have hsends := hm.sends r
  generalize hq : (m.sides r).stage = stage at hwaits hsends
  cases hwaits with
  | sending hleft hroom => exact absurd hroom (hm.room_of_sending hcap hq hleft)
  | receiving => exact Nat.le_refl _
  | secured =>
    cases hsends with
    | secured hs => exact hs.unsent.length_le

/-- If both ends wait, both handshakes are done, and nothing is left to read. -/
theorem Sound.secured_of_waits (hm : m.Sound plan capacity)
    (hcap : ∀ r, Exchange.keyLength ≤ capacity r)
    (hwaits : ∀ r, (m.sides r).stage.Waits (m.stream r)) (r : Role) :
    ∃ s, (m.sides r).stage = .secured s ∧
      (s.flushed = true ∧ s.job = none ∨ (m.pipes r).room = 0) ∧ s.opener.ahead = [] ∧
      (m.pipes r.opposite).held = [] := by
  have hr := hwaits r
  have hexpects := hm.expects r
  generalize hq : (m.sides r).stage = stage at hr hexpects
  cases hr with
  | sending hleft hroom => exact absurd hroom (hm.room_of_sending hcap hq hleft)
  | receiving hshort hheld =>
    -- The other end has sent all of its key, and nothing of it is still in the pipe.
    have hunsent := hm.unsent_le hcap (hwaits r.opposite)
    have hempty : (m.pipes r.opposite).held = [] := hheld
    cases hexpects with
    | receiving _ h =>
      have hlength := congrArg List.length h
      rw [coming, hempty] at hlength
      simp only [List.length_append, List.length_nil, length_greeting] at hlength
      omega
  | secured hwrites hahead hheld => exact ⟨_, rfl, hwrites, hahead, hheld⟩

/-- Then nothing is left to write either: the pipes have room again. -/
theorem Sound.written_of_waits (hm : m.Sound plan capacity)
    (hcap : ∀ r, Exchange.keyLength ≤ capacity r)
    (hwaits : ∀ r, (m.sides r).stage.Waits (m.stream r)) (r : Role) :
    ∃ s, (m.sides r).stage = .secured s ∧ s.todo = [] ∧ s.job = none ∧
      s.sealer.outlet.held = [] ∧ s.opener.ahead = [] ∧ (m.pipes r.opposite).held = [] := by
  obtain ⟨-, -, -, -, hread⟩ := hm.secured_of_waits hcap hwaits r.opposite
  rw [Role.opposite_opposite] at hread
  have hroom : (m.pipes r).room ≠ 0 := by
    have hlarge := hcap r
    rw [Exchange.keyLength] at hlarge
    rw [Pipe.room, hread, hm.capacity r, List.length_nil]
    omega
  obtain ⟨s, hq, hwrites, hahead, hheld⟩ := hm.secured_of_waits hcap hwaits r
  obtain ⟨hflushed, hjob⟩ := hwrites.resolve_right hroom
  have hsends := hm.sends r
  rw [hq] at hsends
  cases hsends with
  | secured hs =>
    obtain ⟨htodo, hflushing | ⟨-, houtlet⟩⟩ := hs.flushed hflushed
    · rw [hjob] at hflushing
      cases hflushing
    · exact ⟨s, hq, htodo, hjob, houtlet, hahead, hheld⟩

/-- **If both ends wait, both are done.** -/
theorem Sound.done_of_waits (hm : m.Sound plan capacity)
    (hcap : ∀ r, Exchange.keyLength ≤ capacity r)
    (hwaits : ∀ r, (m.sides r).stage.Waits (m.stream r)) : m.Done plan := by
  refine ⟨fun r => ?_⟩
  obtain ⟨s, hq, htodo, hjob, houtlet, hahead, hheld⟩ := hm.written_of_waits hcap hwaits r
  obtain ⟨s', hq', htodo', hjob', houtlet', -⟩ := hm.written_of_waits hcap hwaits r.opposite
  refine ⟨s, hm.agrees hq, htodo, hjob, houtlet, ?_⟩
  have hexpects := hm.expects r
  have hnil : m.coming plan r = [] := by
    rw [coming, hheld, hq', Stage.unsent, htodo', hjob', houtlet']
    rfl
  rw [hq, hnil] at hexpects
  cases hexpects with
  | secured _ h =>
    obtain ⟨gs, hall, hleft⟩ := h.ahead
    obtain ⟨-, rfl⟩ := hleft.nothing_left hahead rfl
    rw [← hall, List.append_nil]

/-- **Where the ends are not done, one can make a step**, whatever they find. -/
theorem Sound.ready (hfair : Fair plan) (hm : m.Sound plan capacity)
    (hcap : ∀ r, Exchange.keyLength ≤ capacity r) (hnot : ¬ m.Done plan)
    {seen : Role → Duplex} {rest : Role → Bytes}
    (hseen : ∀ r, Glimpse (m.stream r) (seen r) (rest r)) :
    ∃ r q d, Side.Step r (plan r) (m.sides r) (seen r) q d := by
  refine Classical.byContradiction fun hnone => hnot (hm.done_of_waits hcap fun r => ?_)
  obtain ⟨hout, hinc, hexpects⟩ := hm.glimpse (hseen r)
  have hwaits := Side.waits_of_stuck hfair (hm.sends r) hexpects hout hinc
    fun q d h => hnone ⟨r, q, d, h⟩
  exact hwaits.mono (hseen r).room (hseen r).there

/-! ### Agreement -/

/-- Whatever the ends do, they come to this: they are there, or one of them can make a step,
whatever part of their streams they find, and after every step they still come to it. -/
inductive Settles (plan : Role → Plan) (goal : Meeting → Prop) : Meeting → Prop where
  | done {m : Meeting} (h : goal m) : Settles plan goal m
  | next {m : Meeting}
      (hready : ∀ (seen : Role → Duplex) (rest : Role → Bytes),
        (∀ r, Glimpse (m.stream r) (seen r) (rest r)) →
        ∃ r q d, Side.Step r (plan r) (m.sides r) (seen r) q d)
      (hsteps : ∀ m', Step plan m m' → Settles plan goal m') : Settles plan goal m

theorem Sound.settles (hfair : Fair plan) (hm : m.Sound plan capacity)
    (hcap : ∀ r, Exchange.keyLength ≤ capacity r) : m.Settles plan (·.Done plan) := by
  induction m using lighter_induction plan with
  | h m ih =>
    by_cases hdone : m.Done plan
    · exact .done hdone
    · exact .next (fun _ _ hseen => hm.ready hfair hcap hdone hseen) fun m' hstep =>
        ih m' (hstep.lighter hm) (sound_step hfair hm hstep)

/-- **A handshake agrees, and nothing behind it is lost.** The exchange of the two secrets commutes
and is contributory, and a public key fits into each direction of the stream. Each end writes its
frames as soon as its own handshake is done. Then, in whatever order the ends go and in whatever
pieces their bytes cross, both handshakes succeed and each end receives all frames of the other,
in their order. At no time has an end failed, taken anything but the other end's public key in its
handshake, come to another key than the other end, or received anything but the other's first
frames. -/
theorem handshake_agrees (hfair : Fair plan) (hcap : ∀ r, Exchange.keyLength ≤ capacity r) :
    (fresh plan capacity).Settles plan (·.Done plan) ∧
    ∀ m, Leads plan (fresh plan capacity) m → ∀ r,
      (∀ e, (m.sides r).stage ≠ .gone e) ∧
      (m.sides r).taken <+: greeting plan r.opposite ∧
      (∀ k, (m.sides r).stage = .shaking (.agreed k) →
        k = key plan ∧ (m.sides r).taken = greeting plan r.opposite) ∧
      ∀ s, (m.sides r).stage = .secured s → (m.sides r).Agrees plan r s := by
  refine ⟨(sound_fresh plan capacity).settles hfair hcap, fun m hleads r => ?_⟩
  have hm := sound_of_leads hfair hleads
  have hexpects := hm.expects r
  refine ⟨fun e hq => ?_, hexpects.taken_prefix, fun k hq => ?_, fun s hq => hm.agrees hq⟩
  · rw [hq] at hexpects
    cases hexpects
  · rw [hq] at hexpects
    cases hexpects with
    | agreed htaken => exact ⟨rfl, htaken⟩

/-- Each end has a frame for the other. -/
def greeters : Role → Plan
  | .client => ⟨[1], 64, 64, [⟨1, [5]⟩]⟩
  | .server => ⟨[2], 64, 64, [⟨1, [6]⟩]⟩

/-- They meet over pipes that hold one public key. -/
theorem greeters_meet :
    Fair greeters ∧ (∀ _ : Role, Exchange.keyLength ≤ 32) ∧
      (fresh greeters fun _ => 32).Settles greeters (·.Done greeters) := by
  have hfair : Fair greeters := by
    refine ⟨by decide +kernel, by decide +kernel, fun r f hf => ?_, fun r f hf => ?_, fun r => ?_⟩
    · cases r <;> obtain rfl := List.mem_singleton.mp hf <;> exact ⟨rfl, spellable_byte _⟩
    · cases r <;> obtain rfl := List.mem_singleton.mp hf <;> rfl
    · cases r <;> decide
  exact ⟨hfair, fun _ => by decide, (handshake_agrees hfair fun _ => by decide).1⟩

/-! ### Frames that are too long -/

end Meeting

/-- The reading half is within its limit. -/
structure Secured.Limited (max : Nat) (s : Secured) : Prop where
  maxPlaintext : s.opener.maxPlaintext = max
  short : s.collected.length < Opener.needed s.collected
  received : ∀ f ∈ s.received, Admits max f

def Stage.Limited (max : Nat) : Stage → Prop
  | .secured s => s.Limited max
  | _ => True

/-- No step of an end receives a frame that is too long there. -/
theorem Side.Step.limited {plan : Plan} (h : Side.Step r plan q d q' d')
    (hq : q.stage.Limited plan.maxRead) : q'.stage.Limited plan.maxRead := by
  obtain ⟨stage, taken⟩ := q
  cases h with
  | exchanges
  | fails
  | refused
  | breaks => trivial
  | secures => exact ⟨rfl, Opener.short_nil, by rintro _ ⟨⟩⟩
  | begins hstage
  | flushes hstage
  | writes hstage =>
    obtain rfl : stage = _ := hstage
    exact ⟨hq.maxPlaintext, hq.short, hq.received⟩
  | @reads s reading o inc hstage hadv =>
    obtain rfl : stage = _ := hstage
    cases reading with
    | partly c =>
      obtain ⟨hshort, -, ho, -⟩ := Opener.advance_partly hq.short hadv
      exact ⟨(congrArg Opener.maxPlaintext ho).trans hq.maxPlaintext, hshort, hq.received⟩
    | frame f =>
      obtain ⟨-, ho, -, -, hadmits, -⟩ := Opener.advance_frame hq.short hadv
      rw [hq.maxPlaintext] at hadmits
      refine ⟨(congrArg Opener.maxPlaintext ho).trans hq.maxPlaintext, Opener.short_nil,
        List.forall_mem_append.mpr ⟨hq.received, ?_⟩⟩
      rwa [List.forall_mem_singleton]
    | ended
    | failed => trivial

namespace Meeting
variable {m : Meeting} {capacity : Role → Nat}

/-- **No end ever receives a frame that is too long there.** -/
theorem limited_of_leads (h : Leads plan (fresh plan capacity) m) :
    ∀ r, (m.sides r).stage.Limited (plan r).maxRead := by
  induction h with
  | refl => exact fun _ => trivial
  | tail _ hstep ih =>
    obtain @⟨r, seen, seen', rest, q, -, h⟩ := hstep
    refine forall_role r ?_ ?_
    · rw [sides_put]
      exact h.limited (ih r)
    · rw [sides_put_opposite]
      exact ih r.opposite

/-- The client has a frame that the server may not take. -/
def lopsided : Role → Plan
  | .client => ⟨[1], 64, 64, [⟨1, [5]⟩]⟩
  | .server => ⟨[2], 4, 64, []⟩

/-- A frame that may be sent, but not taken at the other end, is not received there: the two
never come to the end. -/
theorem long_frame_is_not_received :
    Crypto.X25519.multiply (lopsided .client).secret (greeting lopsided .server) =
      Crypto.X25519.multiply (lopsided .server).secret (greeting lopsided .client) ∧
    Crypto.X25519.contributory
      (Crypto.X25519.multiply (lopsided .client).secret (greeting lopsided .server)) = true ∧
    (∀ r, ∀ f ∈ (lopsided r).frames, f.Fits (lopsided r).maxWrite) ∧
    (∀ r, (lopsided r).frames.length ≤ Nonce.last) ∧ (∀ _ : Role, Exchange.keyLength ≤ 32) ∧
    ∀ m, Leads lopsided (fresh lopsided fun _ => 32) m → ¬ m.Done lopsided := by
  refine ⟨by decide +kernel, by decide +kernel, fun r f hf => ?_, fun r => ?_, fun _ => by decide,
    fun m hleads hdone => ?_⟩
  · cases r with
    | client =>
      obtain rfl := List.mem_singleton.mp hf
      exact ⟨rfl, spellable_byte _⟩
    | server => cases hf
  · cases r <;> decide
  · obtain ⟨s, hagrees, -, -, -, hreceived⟩ := hdone.ends .server
    have hlimited := limited_of_leads hleads .server
    rw [hagrees.stage] at hlimited
    have hmem : ⟨1, [5]⟩ ∈ s.received := by
      rw [hreceived]
      exact List.mem_singleton.mpr rfl
    cases hlimited.received _ hmem

end Meeting
end
end Parley.Channel
