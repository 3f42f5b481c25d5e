import Mathlib.Data.List.Perm.Subperm
import Parley.Proofs.Engine.Pair
import Parley.Proofs.Engine.Tally

/-! How much two engines have to say to each other.

Replies go out under the numbers of the frames that they answer, and a frame under a number that
no request waits for is answered, whatever it is. So a reply is answered if the request that it is
for was forgotten: two applications that reply to everything may go on for ever about it
(`late_reply_is_answered`). A `Course` is a run with the numbers of the requests that are forgotten
in it. Under every other number there are no more frames than two for each request, so that in the
end nothing is under way (`traffic_dies_out`). -/
namespace Parley.Engine
open Channel

/-! ### What is forgotten -/

section
variable {key : SessionKey} {role : Role} {w w' : World} {s s' : Site} {n : UInt32}

/-- An entry that goes while the stream is served, and nothing is received, is that of a call that
is too late or was given up. -/
theorem Shift.late (h : Shift s s') (hended : s'.log.ended = s.log.ended)
    (hreceived : s'.log.received = s.log.received) {a : Awaited} (ha : a ∈ s.engine.table)
    (hgone : a ∉ s'.engine.table) : s'.ledger.Told a.call (.failed (.timeout .request)) := by
  cases h with
  | quiet _ htable => exact absurd ha (htable ▸ hgone)
  | asked _ htable => exact absurd (List.mem_append_left _ ha) (htable ▸ hgone)
  | passed _ _ _ hmore
  | resolved _ _ _ _ hmore => exact absurd (hmore.symm.trans hreceived) (ne_of_append_singleton _ _)
  | gone _ htable _ hover =>
    rw [call_of_gone htable ha hgone]
    exact hover
  | ended _ _ _ hmore => exact absurd hended hmore

theorem not_served_of_ended (hw : World.Reachable key role w) (h : w.log.ended ≠ []) :
    ¬w.toSite.Served := by
  have hover := over_of_ended hw h
  rintro (hdriven | hidle)
  · exact hdriven hover.drive
  · rw [hover.phase] at hidle
    cases hidle

/-- A number is forgotten with a request that is too late or given up. -/
theorem told_of_forgotten (hw : World.Reachable key role w) (hstep : World.Step key role w w')
    (h : n ∈ w.toSite.forgotten w'.toSite) :
    ∃ q ∈ w.log.issued, q.frame.seq = n ∧
      w'.ledger.Told q.call (.failed (.timeout .request)) := by
  have hw' := hw.leads (.single hstep)
  have hgrows := World.grows_leads (.single hstep)
  rw [Site.forgotten] at h
  split at h
  · rename_i hquiet
    obtain ⟨a, ha, rfl⟩ := List.mem_map.mp h
    obtain ⟨hin, hgone⟩ := List.mem_filter.mp ha
    have hgone : a ∉ w'.engine.table := by simpa using hgone
    obtain ⟨q, hq, hcall, hseq⟩ := (kept_of_reachable hw).tabled.issued a hin
    -- The drive cannot have ended, for the stream is served.
    have hnone : w'.log.ended = [] := by
      by_contra hended
      exact not_served_of_ended hw' hended hquiet.1
    have hended : w'.log.ended = w.log.ended :=
      hnone.trans (List.prefix_nil.mp (hnone ▸ hgrows.ended)).symm
    refine ⟨q, hq, hseq, ?_⟩
    rw [hcall]
    cases hstep with
    | far => exact absurd hin hgone
    | near hm =>
      exact (shift_of_move hm (kept_of_reachable hw)).late hended hquiet.2 hin hgone
  · cases h

end

/-! ### Messages -/

section
variable {key : SessionKey} {role : Role} {env : Env} {s s' : Site} {e : Engine}
  {stream : Duplex} {events : List Event}

theorem messages_of_accepted (h : s'.log.accepted = s.log.accepted) :
    s'.messages = s.messages := by
  rw [Site.messages, h, Site.messages]

theorem messages_of_message {o : Outgoing} (h : s'.log.accepted = s.log.accepted ++ [o])
    (ho : o.frame.isMessage = true) : s'.messages = s.messages + 1 := by
  rw [Site.messages, h, List.countP_append, List.countP_singleton, if_pos ho, Site.messages]

theorem messages_of_number {o : Outgoing} (h : s'.log.accepted = s.log.accepted ++ [o])
    (ho : o.frame.isMessage = false) : s'.messages = s.messages := by
  rw [Site.messages, h, List.countP_append, List.countP_singleton, if_neg (by simp [ho]),
    Nat.add_zero, Site.messages]

/-- No step of a task brings a message. -/
theorem messages_stepped (h : Stepped env s.engine s.stream e stream events) :
    (s.after e stream events).messages = s.messages := by
  cases h with
  | replied hr hread hf => exact messages_of_number (accepted_enqueue _ rfl) hf
  | answered
  | expired =>
    exact messages_of_accepted (accepted_of_queue _ (Nat.le_of_eq (congrArg _ (queue_leave ..))))
  | closed
  | closeFailed
  | writeFailed
  | batched => exact messages_of_accepted (accepted_of_queue _ (Nat.zero_le _))
  | placed =>
    rw [complete_eq]
    exact messages_of_accepted (accepted_of_queue _ (Nat.le_refl _))
  | readEnded
  | readExpired =>
    rw [readLoopEnds_eq]
    exact messages_of_accepted (accepted_of_queue _ (Nat.le_refl _))
  | resolved =>
    rw [answer_eq]
    exact messages_of_accepted (accepted_of_queue _ (Nat.le_refl _))
  | overflowed =>
    rw [answer_eq, readLoopEnds_eq]
    exact messages_of_accepted (accepted_of_queue _ (Nat.le_refl _))
  | _ => exact messages_of_accepted (accepted_of_queue _ (Nat.le_refl _))

/-- A message is accepted from a call that posts or writes it, and from nothing else. -/
theorem messages_of_move (h : Move key role env s s') :
    s'.messages = s.messages ∨ s'.messages = s.messages + 1 ∧
      ∃ payload, s.engine.post payload = .ok s'.engine ∨
        ∃ id, s.engine.write id payload = .ok s'.engine := by
  cases h with
  | @post payload e h =>
    obtain ⟨-, rfl⟩ := post_eq_ok h
    exact .inr ⟨messages_of_message (accepted_enqueue _ rfl) rfl, payload, .inl h⟩
  | @write id payload e _ h =>
    obtain ⟨-, rfl⟩ := write_eq_ok h
    exact .inr ⟨messages_of_message (accepted_enqueue _ rfl) rfl, payload, .inr ⟨id, h⟩⟩
  | request _ _ h =>
    obtain ⟨-, rfl⟩ := request_eq_ok h
    exact .inl (messages_of_number (accepted_enqueue _ rfl)
      (beq_eq_false_iff_ne.mpr (nextSeq_ne_zero s.engine)))
  | refuse => exact .inl rfl
  | giveUp => exact .inl rfl
  | start h =>
    obtain ⟨-, rfl⟩ := start_eq_ok h
    exact .inl (messages_of_accepted (accepted_of_queue _ (Nat.le_refl _)))
  | abandon =>
    refine .inl (messages_of_accepted (accepted_of_queue _ ?_))
    cases hr : s.engine.drive with
    | none => simp only [abandon, hr, Nat.le_refl]
    | some r => simp only [abandon, hr, completeAll_eq, tell, Nat.le_refl]
  | step h => exact .inl (messages_stepped (stepped_of_step h))

end

namespace Pair

/-! ### Courses -/

/-- What both ends have of something. -/
def both {α : Type} (p : Pair) (f : Log → List α) : List α :=
  f (p.parties .client).log ++ f (p.parties .server).log

def accepted (p : Pair) : List Frame := p.both fun l => frames l.accepted

def written (p : Pair) : List Frame := p.both fun l => frames l.written

def issued (p : Pair) : List Issued := p.both (·.issued)

def messages (p : Pair) : Nat := p.accepted.countP (·.isMessage)

/-- The numbers of the requests that are forgotten between two states. -/
def forgotten (p p' : Pair) : List UInt32 :=
  (p.site .client).forgotten (p'.site .client) ++ (p.site .server).forgotten (p'.site .server)

/-- A run, and the numbers of the requests that are forgotten in it. -/
inductive Course (key : SessionKey) (reply : Role → Bytes → Option Bytes) :
    List UInt32 → Pair → Prop where
  | fresh (c : Role → Config.Connection) (out inc : Nat) : Course key reply [] (fresh c out inc)
  | step {ns p p'} (h : Course key reply ns p) (hstep : Step key reply p p') :
      Course key reply (ns ++ forgotten p p') p'

variable {key : SessionKey} {reply : Role → Bytes → Option Bytes} {p p' : Pair} {n : UInt32}
  {ns : List UInt32}

theorem Course.reachable (h : Course key reply ns p) : Reachable key reply p := by
  induction h with
  | fresh c out inc => exact ⟨c, out, inc, .refl⟩
  | step _ hstep ih => exact ih.step hstep

theorem exists_course (h : Reachable key reply p) : ∃ ns, Course key reply ns p := by
  refine Reachable.induct (motive := fun p => ∃ ns, Course key reply ns p) ?_ ?_ h
  · exact fun c out inc => ⟨[], .fresh c out inc⟩
  · rintro p p' - ⟨ns, hcourse⟩ hstep
    exact ⟨_, hcourse.step hstep⟩

theorem mem_forgotten : n ∈ forgotten p p' ↔ ∃ r, n ∈ (p.site r).forgotten (p'.site r) := by
  rw [forgotten, List.mem_append]
  constructor
  · rintro (h | h)
    · exact ⟨.client, h⟩
    · exact ⟨.server, h⟩
  · rintro ⟨r, h⟩
    cases r with
    | client => exact .inl h
    | server => exact .inr h

/-- Numbers are forgotten with requests that are too late or given up. -/
theorem Course.told (h : Course key reply ns p) : ∀ n ∈ ns, ∃ r, ∃ q ∈ (p.parties r).log.issued,
    q.frame.seq = n ∧ (p.site r).ledger.Told q.call (.failed (.timeout .request)) := by
  induction h with
  | fresh c out inc => exact fun n hn => absurd hn List.not_mem_nil
  | @step ns p p' hcourse hstep ih =>
    have hp := hcourse.reachable
    intro n hn
    rcases List.mem_append.mp hn with hn | hn
    · obtain ⟨r, q, hq, hseq, htold⟩ := ih n hn
      exact ⟨r, q, (hstep.grows r).issued.subset hq, hseq,
        told_step (hp.world r) (hstep.world r) htold⟩
    · obtain ⟨r, hr⟩ := mem_forgotten.mp hn
      obtain ⟨q, hq, hseq, htold⟩ := told_of_forgotten (hp.world r) (hstep.world r) hr
      exact ⟨r, q, (hstep.grows r).issued.subset hq, hseq, htold⟩

/-! ### One number -/

/-- No more is received under a number than the other end accepted. -/
theorem got_le_sent (h : Reachable key reply p) (r : Role) (n : UInt32) :
    ((p.site r).tally n).got ≤ ((p.site r.opposite).tally n).sent := by
  have hprefix := (received_of_accepted h r).map (·.seq)
  rw [frames, List.map_map] at hprefix
  exact hprefix.sublist.count_le n

/-- The two ends are in balance under a number. -/
def BalancedUnder (p : Pair) (n : UInt32) : Prop :=
  ∀ r, ((p.site r).tally n).Balanced ((p.site r.opposite).tally n)

/-- It does not matter from which end one looks. -/
theorem balancedUnder_of_end {r : Role}
    (h : ((p.site r).tally n).Balanced ((p.site r.opposite).tally n)) : p.BalancedUnder n := by
  intro r'
  rcases Role.eq_or_eq_opposite r r' with rfl | rfl
  · exact h
  · rw [Role.opposite_opposite] at h
    exact h.symm

theorem BalancedUnder.step (h : p.BalancedUnder n) (hp : Reachable key reply p)
    (hstep : Step key reply p p') (hn : n ≠ Frame.noResponse) (hkept : n ∉ forgotten p p') :
    p'.BalancedUnder n := by
  have hp' := hp.step hstep
  obtain @⟨r, env, s, -, hm⟩ := hstep
  have hstays : n ∉ (p.site r).forgotten ((p.put r s).site r) := fun hgone =>
    hkept (mem_forgotten.mpr ⟨r, hgone⟩)
  have hgot := got_le_sent hp' r n
  have hk' := hp'.kept r
  have hfar : ((p.put r s).site r.opposite).tally n = (p.site r.opposite).tally n := by
    rw [site_put_opposite]
    rfl
  refine balancedUnder_of_end (r := r) ?_
  rw [hfar] at hgot ⊢
  rw [site_put] at hstays hgot hk' ⊢
  exact (h r).step (tallied_of_move hm (hp.kept r) hk' (hp.inbound r) hn hstays) hgot

/-- Under a number that is not forgotten the two ends are in balance. -/
theorem Course.balanced (h : Course key reply ns p) (hn : n ≠ Frame.noResponse) (hkept : n ∉ ns) :
    p.BalancedUnder n := by
  induction h with
  | fresh c out inc => exact fun r => Tally.balanced_of_load rfl rfl
  | step hcourse hstep ih =>
    rw [List.mem_append, not_or] at hkept
    exact (ih hkept.1).step hcourse.reachable hstep hn hkept.2

/-! ### All numbers -/

/-- Where no value occurs more than twice as often, no more than twice as many do. -/
theorem countP_le_of_count (xs ys : List UInt32) (keeps : UInt32 → Bool)
    (h : ∀ x, keeps x = true → xs.count x ≤ 2 * ys.count x) :
    xs.countP keeps ≤ 2 * ys.countP keeps := by
  have hsub : (xs.filter keeps).Subperm (ys.filter keeps ++ ys.filter keeps) := by
    rw [List.subperm_ext_iff]
    intro x hx
    have hkeeps := (List.mem_filter.mp hx).2
    rw [List.count_append, List.count_filter hkeeps, List.count_filter hkeeps, ← Nat.two_mul]
    exact h x hkeeps
  have hlength := hsub.length_le
  rwa [List.length_append, ← List.countP_eq_length_filter, ← List.countP_eq_length_filter,
    ← Nat.two_mul] at hlength

theorem count_both {α : Type} (p : Pair) (f : Log → List α) (g : α → UInt32) (n : UInt32) :
    ((p.both f).map g).count n = (((f (p.parties .client).log).map g).count n) +
      (((f (p.parties .server).log).map g).count n) := by
  rw [both, List.map_append, List.count_append]

/-- Under a number that is not forgotten there are no more than two frames for each request. -/
theorem Course.count_le (h : Course key reply ns p) (hn : n ≠ Frame.noResponse) (hkept : n ∉ ns) :
    (p.accepted.map (·.seq)).count n ≤ 2 * (p.issued.map (·.frame.seq)).count n := by
  have hbounded := (h.balanced hn hkept .client).bounded
  have hclient : ((frames (p.parties .client).log.accepted).map (·.seq)).count n =
      ((p.site .client).tally n).sent := by
    rw [frames, List.map_map]
    rfl
  have hserver : ((frames (p.parties .server).log.accepted).map (·.seq)).count n =
      ((p.site .server).tally n).sent := by
    rw [frames, List.map_map]
    rfl
  rw [accepted, issued, count_both, count_both, hclient, hserver]
  show _ ≤ 2 * (((p.site .client).tally n).asked + ((p.site .server).tally n).asked)
  exact Nat.le_trans (Nat.add_le_add (Nat.le_add_right _ _) (Nat.le_add_right _ _)) hbounded

/-- Frames are messages, or under a number. -/
theorem countP_le_messages (fs : List Frame) (keeps : UInt32 → Bool) :
    fs.countP (fun f => keeps f.seq) ≤ fs.countP (·.isMessage) +
      (fs.map (·.seq)).countP fun n => n != Frame.noResponse && keeps n := by
  rw [List.countP_map]
  induction fs with
  | nil => exact Nat.le_refl _
  | cons f fs ih =>
    simp only [List.countP_cons, Function.comp_apply]
    cases hf : f.isMessage with
    | true => split <;> simp <;> omega
    | false =>
      have hne : (f.seq != Frame.noResponse) = true := by simpa [Frame.isMessage] using hf
      simp only [hne, Bool.true_and, Bool.false_eq_true, if_false]
      omega

/-- **Under the numbers that are not forgotten** there are no more frames than messages and two for
each request. -/
theorem Course.accepted_le (h : Course key reply ns p) :
    p.accepted.countP (·.seq ∉ ns) ≤
      p.messages + 2 * p.issued.countP (·.frame.seq ∉ ns) := by
  let keeps : UInt32 → Bool := fun n => n != Frame.noResponse && n ∉ ns
  have hnumbers : (p.accepted.map (·.seq)).countP keeps ≤
      2 * (p.issued.map (·.frame.seq)).countP keeps := by
    refine countP_le_of_count _ _ keeps fun n hn => ?_
    obtain ⟨hne, hkept⟩ := Bool.and_eq_true_iff.mp hn
    exact h.count_le (bne_iff_ne.mp hne) (of_decide_eq_true hkept)
  have hrequests : (p.issued.map (·.frame.seq)).countP keeps ≤
      p.issued.countP (·.frame.seq ∉ ns) := by
    rw [List.countP_map]
    exact List.countP_mono_left fun q _ hq => (Bool.and_eq_true_iff.mp hq).2
  calc p.accepted.countP (·.seq ∉ ns)
      ≤ p.messages + (p.accepted.map (·.seq)).countP keeps := countP_le_messages _ (· ∉ ns)
    _ ≤ p.messages + 2 * (p.issued.map (·.frame.seq)).countP keeps :=
        Nat.add_le_add_left hnumbers _
    _ ≤ p.messages + 2 * p.issued.countP (·.frame.seq ∉ ns) :=
        Nat.add_le_add_left (Nat.mul_le_mul_left 2 hrequests) _

/-- Every frame that is written was accepted. -/
theorem written_le (h : Reachable key reply p) (keeps : Frame → Bool) :
    p.written.countP keeps ≤ p.accepted.countP keeps := by
  have hend : ∀ r, (frames (p.parties r).log.written).countP keeps ≤
      (frames (p.parties r).log.accepted).countP keeps := by
    intro r
    obtain ⟨cut, rest, hflow⟩ := (outbound_of_reachable (h.world r)).flow
    have hprefix : (p.parties r).log.written <+: (p.parties r).log.accepted :=
      (List.prefix_append _ cut).trans hflow.order
    exact (frames_mono hprefix).sublist.countP_le
  rw [written, accepted, both, both, List.countP_append, List.countP_append]
  exact Nat.add_le_add (hend .client) (hend .server)

theorem messages_eq (p : Pair) (r : Role) :
    p.messages = (p.site r).messages + (p.site r.opposite).messages := by
  have hsum : p.messages = (p.site .client).messages + (p.site .server).messages := by
    rw [messages, accepted, both, List.countP_append, frames, frames, List.countP_map,
      List.countP_map]
    rfl
  cases r with
  | client => exact hsum
  | server => exact hsum.trans (Nat.add_comm _ _)

/-- Messages come from calls that post or write them, one from each. -/
theorem messages_of_step (h : Step key reply p p') :
    p'.messages = p.messages ∨ p'.messages = p.messages + 1 ∧ ∃ r payload,
      (p.parties r).engine.post payload = .ok (p'.parties r).engine ∨
        ∃ id, (p.parties r).engine.write id payload = .ok (p'.parties r).engine := by
  obtain @⟨r, env, s, -, hm⟩ := h
  have hfar : ((p.put r s).site r.opposite).messages = (p.site r.opposite).messages := by
    rw [site_put_opposite]
    rfl
  rw [messages_eq _ r, messages_eq p r, hfar, site_put]
  rcases messages_of_move hm with hsame | ⟨hmore, payload, hcall⟩
  · exact .inl (by rw [hsame])
  · refine .inr ⟨by omega, r, payload, ?_⟩
    rw [parties_put_self]
    exact hcall

end Pair

/-! ### Echoes -/

/-- A byte has come, and was sent back in these bytes. -/
structure Echoed (s s' : Site) (b : UInt8) (bytes : Bytes) : Prop where
  issued : s'.log.issued = s.log.issued
  accepted : s'.log.accepted = s.log.accepted ++ [{ frame := ⟨1, [b]⟩ }]
  written : s'.log.written = s.log.written ++ [{ frame := ⟨1, [b]⟩ }]
  outgoing : s'.stream.outgoing =
    { s.stream.outgoing with held := s.stream.outgoing.held ++ bytes }
  incoming : s'.stream.incoming = { s.stream.incoming with held := [] }

section
variable {key : SessionKey} {role : Role} {env : Env} {s : Site}

/-- An end that waits for no response and finds a byte in its pipe sends it back. -/
theorem echoes {r : Drive} {due : Option Nat} {b : UInt8} (hr : s.engine.drive = some r)
    (hreads : r.control.reads = true) (hread : r.reading = .reading [] due)
    (hw : r.writing = .looking) (hqueue : s.engine.queue = []) (htable : s.engine.table = [])
    (htaken : s.engine.refusal 1 = none)
    (hahead : r.opener.Ahead [] s.stream.incoming [] [⟨1, [b]⟩])
    (hlimit : Frame.checkPayload 1 r.sealer.maxPlaintext = .ok ())
    (hcounter : r.sealer.nonces.counter + 1 ≤ Nonce.last) (hbuffer : r.sealer.outlet.held = [])
    (hopen : s.stream.outgoing.closed = false)
    (hroom : s.stream.outgoing.held.length + 25 ≤ s.stream.outgoing.capacity)
    (hattentive : env.attentive = true) (hreply : env.reply [b] = some [b]) :
    ∃ s', Moves key role env s s' ∧ Echoed s s' b
      (wire r.sealer.key r.sealer.nonces.direction r.sealer.nonces.counter [⟨1, [b]⟩]) := by
  let f : Frame := ⟨1, [b]⟩
  obtain ⟨o, inc, bs, hrest, ⟨hclosed, hcap⟩, hgiven⟩ := receives env hr hreads hread hahead
  have hheld : inc.held = [] := (by simpa [wire] using hrest.bytes : o.ahead = [] ∧ _).2
  -- The application is handed the byte, and replies.
  let handling : Drive := { r with opener := o, reading := .handling f }
  let handed : Site :=
    { s.given env { r with opener := o } f inc bs with engine := s.engine.driving handling }
  have hhanded : Moves key role env s handed := by
    have hengine : s.engine.dispatch env { r with opener := o } f = s.engine.driving handling := by
      simp [dispatch, f, Frame.isMessage, Frame.noResponse, htable, handling]
    rw [Site.given, hengine] at hgiven
    exact hgiven
  let replied : Site := handed.replied env handling f [b]
  have hreplied : Move key role env handed replied :=
    replies rfl hreads rfl rfl hattentive hreply htaken
  -- The reply is all that is queued.
  let last : Drive := { handling with reading := .reading [] (s.engine.readDue env.now) }
  have hsingle : replied.engine.queue = [{ frame := f }] := by
    show s.engine.queue ++ [{ frame := f }] = _
    rw [hqueue]
    rfl
  have hlength : (wire r.sealer.key r.sealer.nonces.direction r.sealer.nonces.counter [f]).length =
      25 := by
    rw [wire_singleton, length_sealed, Frame.length_encode]
    rfl
  have hsent : Moves key role env replied (replied.sent last
      (wire r.sealer.key r.sealer.nonces.direction r.sealer.nonces.counter [f])) := by
    refine sends (s := replied) (r := last) rfl hw ?_ hopen ?_ ?_ hbuffer ?_ ?_
    · rw [hsingle]
      exact List.cons_ne_nil _ _
    · rw [hsingle]
      exact List.forall_mem_singleton.mpr ⟨hlimit, spellable_byte b⟩
    · rw [hsingle]
      exact hcounter
    · rw [hsingle]
      rfl
    · rw [hlength]
      exact hroom
  refine ⟨_, hhanded.trans (.head hreplied hsent), rfl, rfl, ?_, rfl, ?_⟩
  · show s.log.written ++ replied.engine.queue = _
    rw [hsingle]
  · show inc = _
    cases inc
    cases hheld
    cases hclosed
    cases hcap
    rfl

end

namespace Pair
variable {key : SessionKey} {reply : Role → Bytes → Option Bytes} {p p' : Pair}
  {ns : List UInt32}

/-- Both applications reply with what they get. -/
def echo : Role → Bytes → Option Bytes := fun _ => some

/-- The client has asked for one byte, which is too late at once, and has sent it. -/
def asking (key : SessionKey) : Site :=
  let settings : Settings := ({} : Config.Connection).settings
  let env : Env := prompt false some
  (Site.asked key .client env settings roomy [1] 1 0).sent (firstDrive key .client env settings)
    (wire key .clientToServer 0 [⟨1, [1]⟩])

/-- The server has sent it back. -/
theorem exists_echo (key : SessionKey) : ∃ p : Pair, Reachable key echo p ∧
    p.site .client = { asking key with stream := ⟨{ capacity := 100 },
      { capacity := 100, held := wire key .serverToClient 0 [⟨1, [1]⟩] }⟩ } ∧
    (p.parties .server).log.issued = [] ∧
    (p.parties .server).log.accepted = [{ frame := ⟨1, [1]⟩ }] ∧
    (p.parties .server).log.written = [{ frame := ⟨1, [1]⟩ }] := by
  let settings : Settings := ({} : Config.Connection).settings
  let env : Env := prompt false some
  let p₀ : Pair := fresh (fun _ => {}) 100 100
  have hasked : Moves key .client env (p₀.site .client)
      (.asked key .client env settings roomy [1] 1 0) := asks rfl roomy 1 0
  have hsent : Moves key .client env (.asked key .client env settings roomy [1] 1 0)
      (asking key) :=
    sends_byte rfl rfl rfl rfl rfl rfl rfl rfl rfl (by decide : 25 ≤ 100)
  let p₁ : Pair := p₀.put .client (asking key)
  let server : Site := .started key .server env settings (asking key).stream.flip
  have hserver : Move key .server env (p₁.site .server) server :=
    starts settings (asking key).stream.flip
  have hahead : (firstDrive key .server env settings).opener.Ahead [] server.stream.incoming []
      [⟨1, [1]⟩] := ahead_first settings rfl rfl (spellable_byte 1) rfl
  obtain ⟨s, hmoves, hechoed⟩ := @echoes key .server env server
    (firstDrive key .server env settings) _ 1 rfl rfl rfl rfl rfl rfl rfl hahead rfl
    (by decide : 0 + 1 ≤ Nonce.last) rfl rfl (by decide : 0 + 25 ≤ 100) rfl rfl
  have hfirst : Leads key echo p₀ p₁ := p₀.leads rfl (hasked.trans hsent)
  have hsecond : Leads key echo p₁ (p₁.put .server s) := p₁.leads rfl (.head hserver hmoves)
  refine ⟨p₁.put .server s, ⟨_, _, _, hfirst.trans hsecond⟩, ?_, hechoed.issued, hechoed.accepted,
    hechoed.written⟩
  show { asking key with stream := ⟨s.stream.incoming, s.stream.outgoing⟩ } = _
  rw [hechoed.incoming, hechoed.outgoing]
  rfl

/-! ### The headline -/

/-- How much the two ends say to each other, when these numbers were forgotten. -/
structure Limited (key : SessionKey) (reply : Role → Bytes → Option Bytes) (ns : List UInt32)
    (p : Pair) : Prop where
  /-- Numbers are forgotten with requests that are too late or given up. -/
  forgotten : ∀ n ∈ ns, ∃ r, ∃ q ∈ (p.parties r).log.issued, q.frame.seq = n ∧
    (p.site r).ledger.Told q.call (.failed (.timeout .request))
  /-- Messages come from calls that post or write them, one from each. -/
  messages : ∀ p', Step key reply p p' → p'.messages = p.messages ∨
    p'.messages = p.messages + 1 ∧ ∃ r payload,
      (p.parties r).engine.post payload = .ok (p'.parties r).engine ∨
        ∃ id, (p.parties r).engine.write id payload = .ok (p'.parties r).engine
  /-- Under all other numbers there are no more frames than messages and two for each request. -/
  accepted : p.accepted.countP (·.seq ∉ ns) ≤ p.messages + 2 * p.issued.countP (·.frame.seq ∉ ns)
  written : p.written.countP (·.seq ∉ ns) ≤ p.messages + 2 * p.issued.countP (·.frame.seq ∉ ns)
  /-- If nothing is forgotten, that is so of all frames. -/
  all : ns = [] → p.written.length ≤ p.messages + 2 * p.issued.length

/-- **Traffic dies out**, unless requests are forgotten, whatever the applications reply. -/
theorem traffic_dies_out (h : Course key reply ns p) : Limited key reply ns p := by
  have hwritten : p.written.countP (·.seq ∉ ns) ≤
      p.messages + 2 * p.issued.countP (·.frame.seq ∉ ns) :=
    Nat.le_trans (written_le h.reachable _) h.accepted_le
  refine ⟨h.told, fun p' hstep => messages_of_step hstep, h.accepted_le, hwritten, ?_⟩
  rintro rfl
  simpa using hwritten

/-- Where nothing is forgotten, an echo is all that comes back. -/
theorem echo_comes_back : ∃ p, Course ⟨[7]⟩ echo [] p ∧ p.messages = 0 ∧ p.issued.length = 1 ∧
    p.written.length = 2 ∧ p.written.length ≤ p.messages + 2 * p.issued.length := by
  obtain ⟨p, hp, hclient, hissued, haccepted, hwritten⟩ := exists_echo ⟨[7]⟩
  obtain ⟨ns, hcourse⟩ := exists_course hp
  have hlog : (p.parties .client).log = (asking ⟨[7]⟩).log := congrArg Site.log hclient
  have hnone : ns = [] := by
    refine List.eq_nil_iff_forall_not_mem.mpr fun n hn => ?_
    obtain ⟨r, q, hq, -, htold⟩ := hcourse.told n hn
    cases r with
    | server =>
      rw [hissued] at hq
      cases hq
    | client =>
      rw [hlog] at hq
      obtain rfl := List.mem_singleton.mp hq
      rw [hclient] at htold
      -- It still waits.
      rcases htold with hdropped | hreturned | ⟨c, hc, -, hanswer⟩
      · exact absurd hdropped List.not_mem_nil
      · exact absurd hreturned List.not_mem_nil
      · obtain rfl := List.mem_singleton.mp hc
        cases hanswer
  subst hnone
  have hframes : p.accepted = [⟨1, [1]⟩, ⟨1, [1]⟩] := by
    rw [accepted, both, hlog, haccepted]
    rfl
  have hboth : p.written = [⟨1, [1]⟩, ⟨1, [1]⟩] := by
    rw [written, both, hlog, hwritten]
    rfl
  have hone : p.issued = [⟨0, ⟨1, [1]⟩⟩] := by
    rw [issued, both, hlog, hissued]
    rfl
  refine ⟨p, hcourse, by rw [messages, hframes]; rfl, by rw [hone]; rfl, by rw [hboth]; rfl,
    (traffic_dies_out hcourse).all rfl⟩

/-- The client is late and has forgotten its request when its byte comes back: it sends the byte
back as if it had been asked for it. -/
theorem exists_late_reply (key : SessionKey) : ∃ p : Pair, Reachable key echo p ∧
    p.messages = 0 ∧ p.issued.length = 1 ∧ p.written.length = 3 := by
  obtain ⟨p, ⟨c, out, inc, hp⟩, hclient, hissued, haccepted, hwritten⟩ := exists_echo key
  let settings : Settings := ({} : Config.Connection).settings
  let env : Env := prompt false some
  let sent : Site := { asking key with stream := ⟨{ capacity := 100 },
    { capacity := 100, held := wire key .serverToClient 0 [⟨1, [1]⟩] }⟩ }
  let late : Site := { sent with
    engine := sent.engine.leave { id := 0, wait := .response 1 0 }
    log := { sent.log with returned := [(0, .failed (.timeout .request))] } }
  have hlate : Move key .client env sent late :=
    @expires key .client env sent 0 { id := 0, wait := .response 1 0 } 1 0 rfl rfl rfl
      (Nat.le_refl 0)
  have hahead : (firstDrive key .client env settings).opener.Ahead [] late.stream.incoming []
      [⟨1, [1]⟩] := ahead_first settings rfl rfl (spellable_byte 1) rfl
  obtain ⟨s, hmoves, hechoed⟩ := @echoes key .client env late _ _ 1 rfl rfl rfl rfl rfl rfl rfl
    hahead rfl (by decide : 1 + 1 ≤ Nonce.last) rfl rfl (by decide : 0 + 25 ≤ 100) rfl rfl
  have hleads : Leads key echo p (p.put .client s) :=
    p.leads rfl (by rw [hclient]; exact .head hlate hmoves)
  have hserver : ((p.put .client s).parties .server) = p.parties .server :=
    parties_put_opposite p .client s
  have hsent : s.log.accepted = [{ frame := ⟨1, [1]⟩ }, { frame := ⟨1, [1]⟩ }] := hechoed.accepted
  have hwrote : s.log.written = [{ frame := ⟨1, [1]⟩ }, { frame := ⟨1, [1]⟩ }] := hechoed.written
  have hone : s.log.issued = [⟨0, ⟨1, [1]⟩⟩] := hechoed.issued
  refine ⟨p.put .client s, ⟨c, out, inc, hp.trans hleads⟩, ?_, ?_, ?_⟩
  · rw [messages, accepted, both, parties_put_self, hserver, hsent, haccepted]
    rfl
  · rw [issued, both, parties_put_self, hserver, hone, hissued]
    rfl
  · rw [written, both, parties_put_self, hserver, hwrote, hwritten]
    rfl

/-- More frames may be sent than messages and two for each request. -/
theorem late_reply_is_answered : ¬∀ p, Reachable ⟨[7]⟩ echo p →
    p.written.length ≤ p.messages + 2 * p.issued.length := by
  intro hall
  obtain ⟨p, hp, hmessages, hissued, hwritten⟩ := exists_late_reply ⟨[7]⟩
  have hfew := hall p hp
  rw [hmessages, hissued, hwritten] at hfew
  exact absurd hfew (by decide)

end Pair
end Parley.Engine
