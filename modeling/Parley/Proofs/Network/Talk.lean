import Parley.Proofs.Channel.Handshaking
import Parley.Proofs.Engine.Asking
import Parley.Proofs.Engine.Greeting

/-! Two ends of a stream, from their handshakes to their engines.

Each end makes its handshake with a secret of its own and then drives an engine; what the two send
after their public keys is known beforehand. Of every byte it is known where it is: with its
sender, in its pipe, or with its reader (`Talk.Sound`). A step of either end keeps this, however far
the other end is (`Sound.shakes`, `Sound.engages`, `Sound.works`), and leaves less to do
(`Talk.weight`). As long as the client's call has not been answered, one of the ends can make a step
(`Sound.ready`). -/
namespace Parley
open Channel Engine Meeting

/-- One end of a stream: in its handshake, with what it has taken of the other end's bytes, or with
an engine and its log. -/
inductive End where
  | shaking (x : Exchange) (taken : Bytes)
  | engaged (e : Engine) (l : Log)

namespace End

/-- How many bytes of the other end's key it has still to take. -/
def wanting : End → Nat
  | shaking _ taken => Exchange.keyLength - taken.length
  | engaged .. => 0

/-- What it has taken behind that key. -/
def heard : End → Bytes
  | shaking .. => []
  | engaged _ l => l.taken

/-- How far it has still to go. -/
def rank : End → Nat
  | shaking (.sending _ left) _ => left.length + Exchange.keyLength + 5
  | shaking (.receiving _ arrived) _ => Exchange.keyLength - arrived.length + 4
  | shaking (.agreed _) _ => 3
  | engaged e _ => (!e.stopped).toNat

end End

/-- Two ends of a stream, and the pipe that each writes. -/
structure Talk where
  ends : Role → End
  pipes : Role → Pipe

namespace Talk

/-- The stream as an end sees it. -/
def stream (t : Talk) (r : Role) : Duplex := ⟨t.pipes r, t.pipes r.opposite⟩

/-- An end has changed, and what it sees of the stream. -/
def put (t : Talk) (r : Role) (q : End) (d : Duplex) : Talk where
  ends r' := if r' = r then q else t.ends r'
  pipes r' := if r' = r then d.outgoing else d.incoming

section
variable (plan : Role → Plan) (t : Talk) (r : Role)

/-- What an end has still to hand over. -/
def unsent : Bytes :=
  match t.ends r with
  | .shaking x _ => Channel.Stage.unsent plan r (.shaking x)
  | .engaged .. => (speech plan r).drop ((t.ends r.opposite).heard ++
      (t.pipes r).held.drop (t.ends r.opposite).wanting).length

/-- What an end has still to take. -/
def coming : Bytes := (t.pipes r.opposite).held ++ t.unsent plan r.opposite

/-- An engine at one end, without what is left of the handshake in its outgoing pipe. -/
def voice (e : Engine) (l : Log) : Attended where
  engine := e
  stream := (t.stream r).past (t.ends r.opposite).wanting
  log := l
  heard := (t.ends r.opposite).heard
  coming := t.unsent plan r.opposite

/-- What is left to read at an end. -/
def unread : Nat :=
  match t.ends r with
  | .shaking .. => 0
  | .engaged e l => (t.voice plan r e l).unread

def toil : Nat :=
  match t.ends r with
  | .shaking .. => 0
  | .engaged e _ => e.toil

/-- How much is left to do: how far the ends are, then what is to be read, then what is to be
written. -/
def weight : Nat × Nat × Nat :=
  ((t.ends .client).rank + (t.ends .server).rank, t.unread plan .client + t.unread plan .server,
    t.toil .client + t.toil .server)

/-- Less is left to do. -/
def Less (t' t : Talk) : Prop :=
  Prod.Lex (· < ·) (Prod.Lex (· < ·) (· < ·)) (t'.weight plan) (t.weight plan)

end

variable {plan : Role → Plan} {P P' : Role → Attended → Prop} {t : Talk} {r : Role} {q : End}
  {d d' : Duplex}

@[simp] theorem ends_put : (t.put r q d).ends r = q := if_pos rfl

@[simp] theorem ends_put_opposite : (t.put r q d).ends r.opposite = t.ends r.opposite :=
  if_neg r.opposite_ne

@[simp] theorem pipes_put : (t.put r q d).pipes r = d.outgoing := if_pos rfl

@[simp] theorem pipes_put_opposite : (t.put r q d).pipes r.opposite = d.incoming :=
  if_neg r.opposite_ne

@[simp] theorem stream_put : (t.put r q d).stream r = d := by
  rw [stream, pipes_put, pipes_put_opposite]

@[simp] theorem stream_put_opposite : (t.put r q d).stream r.opposite = d.flip := by
  rw [stream, Role.opposite_opposite, pipes_put, pipes_put_opposite]
  rfl

/-! ### Where the bytes are -/

/-- An end is where it can be: in its handshake, or with an engine of this kind that has taken all
that is not still coming. -/
def Holds (plan : Role → Plan) (P : Role → Attended → Prop) (t : Talk) (r : Role) : Prop :=
  match t.ends r with
  | .shaking x taken => (Channel.Stage.shaking x).Sends plan r ∧
      (Channel.Stage.shaking x).Expects plan r taken (t.coming plan r)
  | .engaged e l => P r (t.voice plan r e l) ∧ l.taken ++ t.coming plan r = speech plan r.opposite

/-- Both ends are where they can be, and both directions of the stream are open and can hold a
key. -/
structure Sound (plan : Role → Plan) (P : Role → Attended → Prop) (t : Talk) : Prop where
  opened : ∀ r, (t.pipes r).closed = false
  roomy : ∀ r, Exchange.keyLength ≤ (t.pipes r).capacity
  holds : ∀ r, t.Holds plan P r

/-- Engines of this kind stay so whatever the far end does; they drive their streams and do not end
them; and what has left them begins what they have to say. -/
structure Manner (plan : Role → Plan) (P : Role → Attended → Prop) : Prop where
  far : ∀ r x y, P r x → x.Far y → P r y
  driven : ∀ r x, P r x → x.engine.drive ≠ none
  out : ∀ r x, P r x → x.heard ++ x.stream.outgoing.held <+: speech plan r
  opened : ∀ r x, P r x → x.stream.outgoing.closed = false ∧ x.stream.incoming.closed = false

variable {x x' : Exchange} {taken next bs : Bytes} {e e' : Engine} {l : Log}

theorem length_taken_le (h : (Channel.Stage.shaking x).Expects plan r taken next) :
    taken.length ≤ Exchange.keyLength := by
  cases h with
  | sending htaken => rw [htaken]; exact Nat.zero_le _
  | receiving hshort => exact hshort
  | agreed htaken => rw [htaken, greeting, Crypto.X25519.length_publicKey]; exact Nat.le_refl _

theorem total_of_expects (h : (Channel.Stage.shaking x).Expects plan r taken next) :
    taken ++ next = greeting plan r.opposite ++ speech plan r.opposite := by
  cases h with
  | sending htaken h => rw [htaken, h]; rfl
  | receiving _ h => exact h
  | agreed htaken h => rw [htaken, h]

theorem Sound.shaking (h : Sound plan P t) (hr : t.ends r = .shaking x taken) :
    (Channel.Stage.shaking x).Sends plan r ∧
      (Channel.Stage.shaking x).Expects plan r taken (t.coming plan r) := by
  have hholds := h.holds r
  rw [Holds, hr] at hholds
  exact hholds

theorem holds_engaged (hr : t.ends r = .engaged e l) : t.Holds plan P r ↔
    P r (t.voice plan r e l) ∧ l.taken ++ t.coming plan r = speech plan r.opposite := by
  rw [Holds, hr]

theorem Sound.engaged (h : Sound plan P t) (hr : t.ends r = .engaged e l) :
    P r (t.voice plan r e l) ∧ l.taken ++ t.coming plan r = speech plan r.opposite :=
  (holds_engaged hr).mp (h.holds r)

theorem unsent_shaking (hr : t.ends r = .shaking x taken) :
    t.unsent plan r = Channel.Stage.unsent plan r (.shaking x) := by
  rw [unsent, hr]

/-- What has left an engine and what has not are all it has to say. -/
theorem Sound.speech_eq (hm : Manner plan P) (h : Sound plan P t) (hr : t.ends r = .engaged e l) :
    (t.ends r.opposite).heard ++ (t.pipes r).held.drop (t.ends r.opposite).wanting ++
      t.unsent plan r = speech plan r := by
  obtain ⟨rest, hrest⟩ := hm.out r _ (h.engaged hr).1
  have hunsent : t.unsent plan r = rest := by
    rw [unsent, hr, ← hrest]
    exact List.drop_left
  rw [hunsent]
  exact hrest

/-- What an end has taken and what it has still to take are all that the other end sends. -/
theorem Sound.total (h : Sound plan P t) (r : Role) : match t.ends r with
    | .shaking _ taken => taken ++ t.coming plan r =
        greeting plan r.opposite ++ speech plan r.opposite
    | .engaged _ l => l.taken ++ t.coming plan r = speech plan r.opposite := by
  cases hr : t.ends r with
  | shaking x taken => exact total_of_expects (h.shaking hr).2
  | engaged e l => exact (h.engaged hr).2

/-- What the other end has still to take of the key is in the pipe of an engine. -/
theorem Sound.wanting_le (hm : Manner plan P) (h : Sound plan P t) (hr : t.ends r = .engaged e l) :
    (t.ends r.opposite).wanting ≤ (t.pipes r).held.length := by
  cases hopp : t.ends r.opposite with
  | engaged => exact Nat.zero_le _
  | shaking x taken =>
    have hspeech := congrArg List.length (h.speech_eq hm hr)
    have htotal := congrArg List.length (total_of_expects (h.shaking hopp).2)
    rw [hopp] at hspeech
    simp only [coming, Role.opposite_opposite, End.heard, End.wanting, List.nil_append,
      List.length_append, List.length_drop, greeting, Crypto.X25519.length_publicKey]
      at hspeech htotal ⊢
    have hlength : Exchange.keyLength = 32 := rfl
    omega

/-! ### The other end -/

/-- An end that takes no more than it may leaves the other end with what it had still to send. -/
theorem unsent_put_opposite
    (htook : bs ++ d.incoming.held.drop q.wanting =
      (t.pipes r.opposite).held.drop (t.ends r).wanting)
    (hheard : q.heard = (t.ends r).heard ++ bs) :
    (t.put r q d).unsent plan r.opposite = t.unsent plan r.opposite := by
  simp only [unsent, ends_put_opposite, pipes_put_opposite, Role.opposite_opposite, ends_put]
  rw [hheard, List.append_assoc, htook]

theorem far_put_opposite (hopened : (t.pipes r).closed = false)
    (hout : d.outgoing = { t.pipes r with held := d.outgoing.held })
    (hinc : d.incoming = { t.pipes r.opposite with held := d.incoming.held })
    (htook : bs ++ d.incoming.held.drop q.wanting =
      (t.pipes r.opposite).held.drop (t.ends r).wanting)
    (hheard : q.heard = (t.ends r).heard ++ bs)
    (hwrote : d.outgoing.held ++ (t.put r q d).unsent plan r =
      (t.pipes r).held ++ t.unsent plan r) :
    (t.voice plan r.opposite e l).Far ((t.put r q d).voice plan r.opposite e l) := by
  have hfar : (t.voice plan r.opposite e l).Far { t.voice plan r.opposite e l with
      stream := ⟨d.incoming.past q.wanting, d.outgoing⟩
      heard := (t.voice plan r.opposite e l).heard ++ bs
      coming := (t.put r q d).unsent plan r } := by
    refine .intro ?_ ?_ ?_ ?_
    · show bs ++ d.incoming.held.drop q.wanting =
        (t.pipes r.opposite).held.drop (t.ends r.opposite.opposite).wanting
      rw [Role.opposite_opposite]
      exact htook
    · show d.incoming.closed = (t.pipes r.opposite).closed
      rw [hinc]
    · show d.outgoing.held ++ _ = (t.pipes r.opposite.opposite).held ++
        t.unsent plan r.opposite.opposite
      rw [Role.opposite_opposite]
      exact hwrote
    · show d.outgoing.closed = false
      rw [hout]
      exact hopened
  have hvoice : (t.put r q d).voice plan r.opposite e l = { t.voice plan r.opposite e l with
      stream := ⟨d.incoming.past q.wanting, d.outgoing⟩
      heard := (t.voice plan r.opposite e l).heard ++ bs
      coming := (t.put r q d).unsent plan r } := by
    simp only [voice, stream_put_opposite, Role.opposite_opposite, ends_put, hheard]
    rfl
  rw [hvoice]
  exact hfar

/-- **A step of one end leaves both where they can be.** -/
theorem Sound.put (h : Sound plan P t)
    (hfar : ∀ x y, P r.opposite x → x.Far y → P' r.opposite y)
    (hout : d.outgoing = { t.pipes r with held := d.outgoing.held })
    (hinc : d.incoming = { t.pipes r.opposite with held := d.incoming.held })
    (htook : bs ++ d.incoming.held.drop q.wanting =
      (t.pipes r.opposite).held.drop (t.ends r).wanting)
    (hheard : q.heard = (t.ends r).heard ++ bs)
    (hwrote : d.outgoing.held ++ (t.put r q d).unsent plan r =
      (t.pipes r).held ++ t.unsent plan r)
    (hr : (t.put r q d).Holds plan P' r) : Sound plan P' (t.put r q d) where
  opened := by
    refine forall_role r ?_ ?_
    · rw [pipes_put, hout]
      exact h.opened r
    · rw [pipes_put_opposite, hinc]
      exact h.opened r.opposite
  roomy := by
    refine forall_role r ?_ ?_
    · rw [pipes_put, hout]
      exact h.roomy r
    · rw [pipes_put_opposite, hinc]
      exact h.roomy r.opposite
  holds := by
    refine forall_role r hr ?_
    have hcoming : (t.put r q d).coming plan r.opposite = t.coming plan r.opposite := by
      rw [coming, coming, Role.opposite_opposite, pipes_put]
      exact hwrote
    rw [Holds, ends_put_opposite, hcoming]
    have hopp := h.holds r.opposite
    rw [Holds] at hopp
    cases hends : t.ends r.opposite with
    | shaking x taken =>
      rw [hends] at hopp
      exact hopp
    | engaged e l =>
      rw [hends] at hopp
      exact ⟨hfar _ _ hopp.1 (far_put_opposite (h.opened r) hout hinc htook hheard hwrote), hopp.2⟩

/-! ### Less is left to do -/

/-- A step of one end leaves less to do; what it writes it has no more to send, and the other end
has still to send what it had. -/
structure Goes (plan : Role → Plan) (r : Role) (t t' : Talk) : Prop where
  less : Less plan t' t
  wrote : (t'.pipes r).held ++ t'.unsent plan r = (t.pipes r).held ++ t.unsent plan r
  kept : t'.unsent plan r.opposite = t.unsent plan r.opposite

theorem weight_eq (plan : Role → Plan) (t : Talk) (r : Role) : t.weight plan =
    ((t.ends r).rank + (t.ends r.opposite).rank, t.unread plan r + t.unread plan r.opposite,
      t.toil r + t.toil r.opposite) := by
  cases r with
  | client => rfl
  | server =>
    simp only [weight, Role.opposite, Nat.add_comm]

/-- An end has come closer to its engine, or its engine has stopped taking frames. -/
theorem less_of_rank (h : q.rank < (t.ends r).rank) : Less plan (t.put r q d) t := by
  rw [Less, weight_eq plan _ r, weight_eq plan t r, ends_put, ends_put_opposite]
  exact .left _ _ (Nat.add_lt_add_right h _)

theorem rank_advance (h : x.advance r d = some (.ok (x', d'))) (taken' : Bytes) :
    (End.shaking x' taken').rank < (End.shaking x taken).rank := by
  cases Exchange.advanced_of_advance h with
  | written => simp [End.rank]
  | sends _ hrest => simp only [End.rank]; omega
  | @receives secret arrived bs _ hshort hsome =>
    have hpos := List.length_pos_iff.mpr hsome
    simp only [End.rank, List.length_append]
    omega
  | agrees => simp only [End.rank]; omega

/-! ### The steps -/

/-- **A handshake goes on.** -/
theorem Sound.shakes (hfair : Fair plan) (hm : Manner plan P) (h : Sound plan P t)
    (hr : t.ends r = .shaking x taken) {res : Except Error (Exchange × Duplex)}
    (hadv : x.advance r (t.stream r) = some res) :
    ∃ x' d' bs, res = .ok (x', d') ∧ bs ++ d'.incoming.held = (t.pipes r.opposite).held ∧
      Sound plan P (t.put r (.shaking x' (taken ++ bs)) d') ∧
      Goes plan r t (t.put r (.shaking x' (taken ++ bs)) d') := by
  obtain ⟨hsends, hexpects⟩ := h.shaking hr
  obtain ⟨x', d', bs, rfl, hbs, hkeeps⟩ := keeps_exchange hfair hadv hsends hexpects
    (h.opened r) (h.opened r.opposite)
  have hshort : (taken ++ bs).length ≤ Exchange.keyLength := length_taken_le hkeeps.expects
  have htook : [] ++ d'.incoming.held.drop (End.shaking x' (taken ++ bs)).wanting =
      (t.pipes r.opposite).held.drop (t.ends r).wanting := by
    have hheld : (t.pipes r.opposite).held = bs ++ d'.incoming.held := hbs.symm
    rw [List.length_append] at hshort
    have hbefore : bs.length ≤ Exchange.keyLength - taken.length := by omega
    rw [hr, hheld, End.wanting, End.wanting, List.drop_append, List.length_append,
      List.drop_eq_nil_of_le hbefore, Nat.sub_sub]
  have hheard : (End.shaking x' (taken ++ bs)).heard = (t.ends r).heard ++ [] := by rw [hr]; rfl
  have hwrote : d'.outgoing.held ++ (t.put r (.shaking x' (taken ++ bs)) d').unsent plan r =
      (t.pipes r).held ++ t.unsent plan r := by
    rw [unsent_shaking ends_put, unsent_shaking hr]
    exact hkeeps.unsent
  refine ⟨x', d', bs, rfl, hbs, h.put (hm.far r.opposite) hkeeps.outgoing hkeeps.incoming htook
    hheard hwrote ?_, less_of_rank ?_, by rw [pipes_put]; exact hwrote,
    unsent_put_opposite htook hheard⟩
  · rw [Holds, ends_put, coming, pipes_put_opposite, unsent_put_opposite htook hheard]
    exact ⟨hkeeps.sends, hkeeps.expects⟩
  · rw [hr]
    exact rank_advance hadv _

/-- What an end finds that has just agreed: nothing of its own is in the way, and all that the other
end has to say is still to be read. -/
theorem Sound.agreed (h : Sound plan P t) {k : SessionKey}
    (hr : t.ends r = .shaking (.agreed k) taken) :
    k = key plan ∧ taken = greeting plan r.opposite ∧ (t.ends r.opposite).heard = [] ∧
      (t.pipes r).held.drop (t.ends r.opposite).wanting = [] ∧
      t.coming plan r = speech plan r.opposite := by
  obtain ⟨-, hexpects⟩ := h.shaking hr
  have htotal := h.total r.opposite
  cases hexpects with
  | agreed htaken hcoming =>
    have hunsent : t.unsent plan r = speech plan r := unsent_shaking hr
    refine ⟨rfl, htaken, ?_⟩
    cases hopp : t.ends r.opposite with
    | shaking x' taken' =>
      rw [hopp] at htotal
      have hlength := congrArg List.length htotal
      simp only [coming, Role.opposite_opposite, hunsent, List.length_append, greeting,
        Crypto.X25519.length_publicKey] at hlength
      refine ⟨rfl, List.drop_eq_nil_of_le ?_, hcoming⟩
      rw [End.wanting, Exchange.keyLength]
      omega
    | engaged e' l' =>
      rw [hopp] at htotal
      simp only [coming, Role.opposite_opposite, hunsent] at htotal
      have hnil := List.append_left_eq_self.mp ((List.append_assoc ..).trans htotal)
      obtain ⟨htaken', hheld⟩ := List.append_eq_nil_iff.mp hnil
      exact ⟨htaken', by rw [hheld]; rfl, hcoming⟩

/-- **An end that has agreed starts its engine.** -/
theorem Sound.engages (hm : Manner plan P) (h : Sound plan P t) {k : SessionKey}
    (hr : t.ends r = .shaking (.agreed k) taken)
    (hsame : ∀ x, P r.opposite x → P' r.opposite x) (htaken : l.taken = [])
    (hnew : P' r (t.voice plan r e l)) :
    Sound plan P' (t.put r (.engaged e l) (t.stream r)) ∧
      Goes plan r t (t.put r (.engaged e l) (t.stream r)) := by
  obtain ⟨-, hgreeting, hquiet, hempty, hcoming⟩ := h.agreed hr
  have hlength : taken.length = Exchange.keyLength := by
    rw [hgreeting, greeting, Crypto.X25519.length_publicKey]
    rfl
  have htook : [] ++ (t.stream r).incoming.held.drop (End.engaged e l).wanting =
      (t.pipes r.opposite).held.drop (t.ends r).wanting := by
    rw [hr, End.wanting, End.wanting, hlength, Nat.sub_self]
    rfl
  have hheard : (End.engaged e l).heard = (t.ends r).heard ++ [] := by
    rw [hr]
    exact htaken
  have hopp : (t.put r (.engaged e l) (t.stream r)).unsent plan r.opposite =
      t.unsent plan r.opposite := unsent_put_opposite htook hheard
  have hwrote : (t.stream r).outgoing.held ++
      (t.put r (.engaged e l) (t.stream r)).unsent plan r =
      (t.pipes r).held ++ t.unsent plan r := by
    rw [unsent_shaking hr, unsent, ends_put]
    simp only [ends_put_opposite, pipes_put, stream, hquiet, hempty]
    rfl
  refine ⟨h.put (fun x y hx hy => hsame y (hm.far _ x y hx hy)) rfl rfl htook hheard hwrote ?_,
    less_of_rank ?_, by rw [pipes_put]; exact hwrote, hopp⟩
  · have hvoice : (t.put r (.engaged e l) (t.stream r)).voice plan r e l = t.voice plan r e l := by
      simp only [voice, stream_put, ends_put_opposite, hopp]
    rw [holds_engaged ends_put, hvoice, coming, pipes_put_opposite, hopp, htaken]
    exact ⟨hnew, hcoming⟩
  · rw [hr]
    show (!e.stopped).toNat < 3
    exact Nat.lt_of_le_of_lt (Bool.toNat_le _) (by decide)

/-- An engine takes the same step without what is left of the handshake. -/
theorem Sound.voice_step (hm : Manner plan P) (h : Sound plan P t) (hr : t.ends r = .engaged e l)
    (env : Engine.Env) (k : Engine.Task) :
    e.step env k (t.voice plan r e l).stream =
      Engine.Step.past (t.ends r.opposite).wanting (e.step env k (t.stream r)) :=
  step_past (h.wanting_le hm hr) e

/-- What becomes of an engine's end with a step. -/
def worked (plan : Role → Plan) (t : Talk) (r : Role) (e : Engine) (l : Log) (e' : Engine)
    (d : Duplex) (events : List Engine.Event) : Attended :=
  (t.voice plan r e l).near
    ((t.voice plan r e l).after e' (d.past (t.ends r.opposite).wanting) events)

variable {env : Engine.Env} {k : Engine.Task} {events : List Engine.Event} {y : Attended}

theorem outgoing_worked (h : Sound plan P t) (hm' : Manner plan P')
    (hs : Stepped env e (t.stream r) e' d events) (hnew : P' r (t.worked plan r e l e' d events)) :
    d.outgoing = { t.pipes r with held := d.outgoing.held } := by
  have hcapacity : d.outgoing.capacity = (t.pipes r).capacity :=
    (Prod.ext_iff.mp (capacities_stepped (s := ⟨e, t.stream r, l⟩) hs)).1
  have hclosed : d.outgoing.closed = (t.pipes r).closed :=
    (hm'.opened r _ hnew).1.trans (h.opened r).symm
  cases hd : d.outgoing
  rw [hd] at hcapacity hclosed
  subst hcapacity hclosed
  rfl

/-- What an engine writes is what it has no more to send. -/
theorem wrote_worked (hm : Manner plan P) (hm' : Manner plan P') (h : Sound plan P t)
    (hr : t.ends r = .engaged e l) (hs : Stepped env e (t.stream r) e' d events)
    (hnew : P' r (t.worked plan r e l e' d events)) (l' : Log) :
    d.outgoing.held ++ (t.put r (.engaged e' l') d).unsent plan r =
      (t.pipes r).held ++ t.unsent plan r := by
  obtain ⟨new, hheld⟩ : (t.pipes r).held <+: d.outgoing.held := held_stepped hs
  have hbefore := h.speech_eq hm hr
  obtain ⟨rest, hafter⟩ : (t.ends r.opposite).heard ++
      d.outgoing.held.drop (t.ends r.opposite).wanting <+: speech plan r := hm'.out r _ hnew
  have hunsent : (t.put r (.engaged e' l') d).unsent plan r = rest := by
    simp only [unsent, ends_put, ends_put_opposite, pipes_put]
    rw [← hafter]
    exact List.drop_left
  have hle := h.wanting_le hm hr
  rw [← hafter, List.append_assoc, List.append_assoc] at hbefore
  rw [hunsent, ← List.take_append_drop (t.ends r.opposite).wanting d.outgoing.held,
    List.append_assoc, ← List.append_cancel_left hbefore, ← hheld,
    List.take_append_of_le_length hle, ← List.append_assoc, List.take_append_drop]

/-- The far end does not add to what is left to read. -/
theorem unread_far {x : Attended} (h : x.Far y) (hopen : x.stream.incoming.closed = false)
    (hle : y.coming.length ≤ x.coming.length) : y.unread ≤ x.unread := by
  obtain ⟨-, -, hinc, hlistening⟩ := h
  have hlength := congrArg List.length hinc
  simp only [List.length_append] at hlength
  simp only [Attended.unread, hopen, hlistening] at hle ⊢
  omega

/-- What an engine does leaves the other end with no more to do. -/
theorem opposite_put_le (hm : Manner plan P) (h : Sound plan P t)
    (hfar : ∀ e l, (t.voice plan r.opposite e l).Far ((t.put r q d).voice plan r.opposite e l))
    (hheld : (t.pipes r).held <+: d.outgoing.held)
    (hwrote : d.outgoing.held ++ (t.put r q d).unsent plan r =
      (t.pipes r).held ++ t.unsent plan r) :
    (t.put r q d).unread plan r.opposite ≤ t.unread plan r.opposite ∧
      (t.put r q d).toil r.opposite = t.toil r.opposite := by
  simp only [unread, toil, ends_put_opposite, and_true]
  cases hopp : t.ends r.opposite with
  | shaking => exact Nat.le_refl _
  | engaged e l =>
    refine unread_far (hfar e l) (hm.opened _ _ (h.engaged hopp).1).2 ?_
    have hlength := congrArg List.length hwrote
    have hle := hheld.length_le
    simp only [List.length_append] at hlength
    simp only [voice, Role.opposite_opposite]
    omega

/-- An engine that is relieved, or that has stopped taking frames, leaves less to do. -/
theorem less_of_relieved (hr : t.ends r = .engaged e l)
    (hvoice : (t.put r (.engaged e' y.log) d).voice plan r e' y.log = y) (hy : y.engine = e')
    (hstopped : e.stopped = true → e'.stopped = true)
    (hopp : (t.put r (.engaged e' y.log) d).unread plan r.opposite ≤ t.unread plan r.opposite ∧
      (t.put r (.engaged e' y.log) d).toil r.opposite = t.toil r.opposite)
    (hless : y.Relieved (t.voice plan r e l) ∨ e.stopped = false ∧ e'.stopped = true) :
    Less plan (t.put r (.engaged e' y.log) d) t := by
  rcases hless with hrelieved | ⟨hbefore, hafter⟩
  · have hrank : (End.engaged e' y.log).rank ≤ (t.ends r).rank := by
      rw [hr]
      cases hs : e.stopped with
      | true => simp [End.rank, hs, hstopped]
      | false => simpa [End.rank, hs] using Bool.toNat_le (!e'.stopped)
    have hunread : (t.put r (.engaged e' y.log) d).unread plan r = y.unread := by
      rw [unread, ends_put]
      exact congrArg Attended.unread hvoice
    have hunread' : t.unread plan r = (t.voice plan r e l).unread := by rw [unread, hr]
    have htoil : (t.put r (.engaged e' y.log) d).toil r = y.engine.toil := by
      rw [Talk.toil, ends_put, hy]
    have htoil' : t.toil r = (t.voice plan r e l).engine.toil := by rw [Talk.toil, hr]; rfl
    rw [Less, weight_eq plan _ r, weight_eq plan t r, ends_put, ends_put_opposite, hunread,
      hunread', htoil, htoil', hopp.2]
    refine Prod.Lex.right' _ (Nat.add_le_add_right hrank _) ?_
    rcases hrelieved with hlt | ⟨hle, hlt⟩
    · exact .left _ _ (by omega)
    · exact Prod.Lex.right' _ (by omega) (by omega)
  · refine less_of_rank ?_
    rw [hr]
    simp [End.rank, hbefore, hafter]

/-- **An engine makes a step.** -/
theorem Sound.works (hm : Manner plan P) (hm' : Manner plan P') (h : Sound plan P t)
    (hr : t.ends r = .engaged e l) (hsame : ∀ x, P r.opposite x → P' r.opposite x)
    (hstep : e.step env k (t.stream r) = some (e', d, events))
    (hy : t.worked plan r e l e' d events = y) (hnew : P' r y)
    (hless : y.Relieved (t.voice plan r e l) ∨ e.stopped = false ∧ e'.stopped = true) :
    Sound plan P' (t.put r (.engaged e' y.log) d) ∧
      Goes plan r t (t.put r (.engaged e' y.log) d) := by
  have hs := stepped_of_step hstep
  rw [← hy] at hnew
  have hinc := incoming_driven hs (hm'.driven r _ hnew)
  obtain ⟨bs, hbs⟩ := incoming_stepped (s := ⟨e, t.stream r, l⟩) hs
  have hheld : bs ++ d.incoming.held = (t.pipes r.opposite).held := hbs
  have htaken : y.log.taken = l.taken ++ bs := by
    rw [← hy]
    exact (Site.taken_logged ..).trans (congrArg (l.taken ++ ·) (Site.gone_eq hbs))
  have htook : bs ++ d.incoming.held.drop (End.engaged e' y.log).wanting =
      (t.pipes r.opposite).held.drop (t.ends r).wanting := by
    rw [hr]
    exact hbs
  have hheard : (End.engaged e' y.log).heard = (t.ends r).heard ++ bs := by
    rw [hr]
    exact htaken
  have hopp : (t.put r (.engaged e' y.log) d).unsent plan r.opposite = t.unsent plan r.opposite :=
    unsent_put_opposite htook hheard
  have hout := outgoing_worked h hm' hs hnew
  have hwrote := wrote_worked hm hm' h hr hs hnew y.log
  have hvoice : (t.put r (.engaged e' y.log) d).voice plan r e' y.log = y := by
    simp only [voice, stream_put, ends_put_opposite, hopp]
    rw [← hy]
    rfl
  have hengine : y.engine = e' := by rw [← hy]; rfl
  have hle := opposite_put_le hm h
    (fun e l => far_put_opposite (h.opened r) hout hinc htook hheard hwrote) (held_stepped hs)
    hwrote
  refine ⟨h.put (fun x y hx hy => hsame y (hm.far _ x y hx hy)) hout hinc htook hheard hwrote ?_,
    less_of_relieved hr hvoice hengine (onward_stepped (s := ⟨e, t.stream r, l⟩) hs).stopped hle
      hless, by rw [pipes_put]; exact hwrote, hopp⟩
  rw [holds_engaged ends_put, hvoice, coming, pipes_put_opposite, hopp, htaken,
    ← (h.engaged hr).2, coming, ← hheld]
  refine ⟨hy ▸ hnew, ?_⟩
  simp only [List.append_assoc]

end Talk
end Parley
