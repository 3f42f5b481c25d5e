import Parley.Channel.Handshake
import Parley.Proofs.Channel.Agreement
import Parley.Proofs.Channel.Outcome

/-! What a handshake comes to.

The peer sends any bytes in any pieces and then may end its stream or leave it open; what becomes
of our own public key is up to it as well. `Verdict` says what the bytes alone come to: with 32 of
them there is a session key, unless the shared secret of these 32 is all zero, and with fewer the
handshake waits, or fails when the stream ends. In every run the bytes that have arrived are where
they belong (`Underway`), so that a handshake that has written its own key can only come to the
verdict, and once nothing is left to happen it has (`handshake_outcome`). The bytes behind the
first 32 stay in the pipe. -/
namespace Parley.Channel

namespace Exchange

/-! ### From the bytes alone -/

/-- The session key of a secret and the peer's public key. -/
def sessionKey (role : Role) (secret peer : Bytes) : SessionKey :=
  let shared := Crypto.X25519.multiply secret peer
  let own := Crypto.X25519.publicKey secret
  match role with
  | .client => .derive shared own peer
  | .server => .derive shared peer own

/-- The shared secret of a secret and the peer's public key is all zero. -/
def Degenerate (secret peer : Bytes) : Prop :=
  Crypto.X25519.multiply secret peer = List.replicate keyLength 0

instance (secret peer : Bytes) : Decidable (Degenerate secret peer) :=
  inferInstanceAs (Decidable (_ = _))

theorem contributory_eq_false (secret peer : Bytes) :
    Crypto.X25519.contributory (Crypto.X25519.multiply secret peer) = false ↔
      Degenerate secret peer := by
  have hlength : (Crypto.X25519.multiply secret peer).length = keyLength :=
    Crypto.X25519.length_multiply secret peer
  rw [Degenerate, List.eq_replicate_iff, Crypto.X25519.contributory, List.any_eq_false]
  simp only [hlength, bne_iff_ne, ne_eq, not_not, true_and]

theorem agree_eq (role : Role) (secret peer : Bytes) :
    agree role secret peer =
      if Degenerate secret peer then .error .nonContributory
      else .ok (sessionKey role secret peer) := by
  unfold agree
  by_cases hzero : Degenerate secret peer
  · simp only [(contributory_eq_false secret peer).mpr hzero, Bool.false_eq_true, if_false,
      if_pos hzero]
  · have hshared : Crypto.X25519.contributory (Crypto.X25519.multiply secret peer) = true :=
      (Bool.eq_false_or_eq_true _).resolve_right fun h =>
        hzero ((contributory_eq_false secret peer).mp h)
    simp only [hshared, if_true, if_neg hzero]
    rfl

/-- What a handshake comes to on the peer's bytes and perhaps the end of its stream: the session
key with the bytes that are left for what follows, a failure, or nothing yet. -/
inductive Verdict (role : Role) (secret bytes : Bytes) (ending : Bool) :
    Option (Except Error (SessionKey × Bytes)) → Prop where
  | secured (hlong : keyLength ≤ bytes.length)
      (hshared : ¬Degenerate secret (bytes.take keyLength)) :
      Verdict role secret bytes ending
        (some (.ok (sessionKey role secret (bytes.take keyLength), bytes.drop keyLength)))
  | nonContributory (hlong : keyLength ≤ bytes.length)
      (hzero : Degenerate secret (bytes.take keyLength)) :
      Verdict role secret bytes ending (some (.error (.crypto .nonContributory)))
  | cut (hshort : bytes.length < keyLength) (hending : ending = true) :
      Verdict role secret bytes ending (some (.error (.io .unexpectedEof)))
  | waits (hshort : bytes.length < keyLength) (hopen : ending = false) :
      Verdict role secret bytes ending none

/-- The one verdict there is. -/
def outcome (role : Role) (secret bytes : Bytes) (ending : Bool) :
    Option (Except Error (SessionKey × Bytes)) :=
  if keyLength ≤ bytes.length then
    if Degenerate secret (bytes.take keyLength) then some (.error (.crypto .nonContributory))
    else some (.ok (sessionKey role secret (bytes.take keyLength), bytes.drop keyLength))
  else if ending then some (.error (.io .unexpectedEof))
  else none

theorem verdict_iff {role : Role} {secret bytes : Bytes} {ending : Bool}
    {v : Option (Except Error (SessionKey × Bytes))} :
    Verdict role secret bytes ending v ↔ outcome role secret bytes ending = v := by
  constructor
  · rintro (⟨hlong, hshared⟩ | ⟨hlong, hzero⟩ | ⟨hshort, hending⟩ | ⟨hshort, hopen⟩)
    · rw [outcome, if_pos hlong, if_neg hshared]
    · rw [outcome, if_pos hlong, if_pos hzero]
    · rw [outcome, if_neg (Nat.not_le_of_lt hshort), if_pos hending]
    · rw [outcome, if_neg (Nat.not_le_of_lt hshort), if_neg (by rw [hopen]; decide)]
  · rintro rfl
    by_cases hlong : keyLength ≤ bytes.length
    · rw [outcome, if_pos hlong]
      by_cases hzero : Degenerate secret (bytes.take keyLength)
      · rw [if_pos hzero]
        exact .nonContributory hlong hzero
      · rw [if_neg hzero]
        exact .secured hlong hzero
    · rw [outcome, if_neg hlong]
      cases hending : ending with
      | true => exact .cut (Nat.lt_of_not_le hlong) rfl
      | false => exact .waits (Nat.lt_of_not_le hlong) rfl

theorem existsUnique_verdict (role : Role) (secret bytes : Bytes) (ending : Bool) :
    ∃! v, Verdict role secret bytes ending v :=
  ⟨_, verdict_iff.mpr rfl, fun _ hv => (verdict_iff.mp hv).symm⟩

/-! ### One step -/

/-- Our own public key has been handed over. -/
def Written : Exchange → Prop
  | .sending _ left => left = []
  | _ => True

/-- One step of a handshake that goes on. -/
inductive Advanced (role : Role) (d : Duplex) : Exchange → Exchange → Duplex → Prop where
  | written {secret} : Advanced role d (.sending secret []) (.receiving secret []) d
  | sends {secret left rest out} (hleft : left ≠ []) (hrest : rest.length < left.length) :
      Advanced role d (.sending secret left) (.sending secret rest) { d with outgoing := out }
  | receives {secret arrived bs inc} (hshort : arrived.length < keyLength) (hsome : bs ≠ [])
      (hpull : d.incoming.pull (keyLength - arrived.length) = some (bs, inc)) :
      Advanced role d (.receiving secret arrived) (.receiving secret (arrived ++ bs))
        { d with incoming := inc }
  | agrees {secret arrived key} (hlong : keyLength ≤ arrived.length)
      (hkey : agree role secret arrived = .ok key) :
      Advanced role d (.receiving secret arrived) (.agreed key) d

/-- How a handshake fails: the stream is gone before our own key is written, the shared secret is
all zero, or the peer's stream ends too early. -/
inductive Fails (role : Role) (d : Duplex) : Exchange → Error → Prop where
  | broken {secret left err} (hleft : left ≠ []) (hclosed : d.outgoing.closed = true) :
      Fails role d (.sending secret left) err
  | refused {secret arrived} (hlong : keyLength ≤ arrived.length)
      (hzero : Degenerate secret arrived) :
      Fails role d (.receiving secret arrived) (.crypto .nonContributory)
  | cut {secret arrived} (hshort : arrived.length < keyLength) (hheld : d.incoming.held = [])
      (hclosed : d.incoming.closed = true) :
      Fails role d (.receiving secret arrived) (.io .unexpectedEof)

variable {role : Role} {x x' : Exchange} {d d' : Duplex} {err : Error}

theorem advanced_of_advance (h : x.advance role d = some (.ok (x', d'))) :
    Advanced role d x x' d' := by
  cases x with
  | sending secret left =>
    simp only [advance] at h
    split at h
    · rename_i hleft
      subst hleft
      cases h
      exact .written
    · rename_i hleft
      obtain ⟨res, hpush, hres⟩ := Option.map_eq_some_iff.mp h
      cases res with
      | error e => cases hres
      | ok pushed =>
        cases hres
        obtain ⟨-, hroom, hrest, -⟩ := Pipe.push_ok hpush
        have hpos := List.length_pos_iff.mpr hleft
        exact .sends hleft (by rw [hrest, List.length_drop]; omega)
  | receiving secret arrived =>
    simp only [advance] at h
    split at h
    · rename_i hlong
      split at h
      · cases h
      · rename_i hkey
        cases h
        exact .agrees hlong hkey
    · rename_i hshort
      split at h
      · cases h
      · cases h
      · rename_i hne hpull
        cases h
        exact .receives (Nat.lt_of_not_le hshort) hne hpull
  | agreed key => cases h

theorem fails_of_advance (h : x.advance role d = some (.error err)) : Fails role d x err := by
  cases x with
  | sending secret left =>
    simp only [advance] at h
    split at h
    · cases h
    · rename_i hleft
      obtain ⟨res, hpush, hres⟩ := Option.map_eq_some_iff.mp h
      refine .broken hleft (Bool.not_eq_false _ ▸ fun hopen => ?_)
      obtain ⟨rest, p, rfl, -⟩ := Pipe.push_open hopen hpush
      cases hres
  | receiving secret arrived =>
    simp only [advance] at h
    split at h
    · rename_i hlong
      split at h
      · rename_i hagree
        cases h
        rw [agree_eq] at hagree
        split at hagree
        · rename_i hzero
          cases hagree
          exact .refused hlong hzero
        · cases hagree
      · cases h
    · rename_i hshort
      split at h
      · cases h
      · rename_i hpull
        cases h
        obtain ⟨hnil, -, hclosed⟩ := Pipe.pull_eq_some hpull
        have hheld : d.incoming.held = [] :=
          (List.take_eq_nil_iff.mp hnil.symm).resolve_left fun h =>
            hshort (Nat.sub_eq_zero_iff_le.mp h)
        exact .cut (Nat.lt_of_not_le hshort) hheld (hclosed hheld)
      · cases h
  | agreed key => cases h

/-- A handshake that can make no step waits: for room to write, or for bytes of an open stream. -/
theorem room_or_open_of_advance (hnot : ∀ key, x ≠ .agreed key) (h : x.advance role d = none) :
    (∃ secret left, x = .sending secret left ∧ d.outgoing.room = 0) ∨
      ∃ secret arrived, x = .receiving secret arrived ∧ arrived.length < keyLength ∧
        d.incoming.held = [] ∧ d.incoming.closed = false := by
  cases waits_of_advance hnot h with
  | sending _ hroom => exact .inl ⟨_, _, rfl, hroom⟩
  | @receiving secret arrived hshort hheld =>
    refine .inr ⟨_, _, rfl, hshort, hheld, Bool.eq_false_iff.mpr fun hclosed => ?_⟩
    simp [advance, Nat.not_le_of_lt hshort, Pipe.pull, hheld, hclosed] at h

end Exchange

/-! ### Runs -/

open Exchange (Verdict keyLength)

/-- A handshake under way, with the peer's bytes that are still to arrive. -/
structure Shaking where
  exchange : Exchange
  stream : Duplex
  coming : Bytes
  /-- Whether the peer's stream ends after them. -/
  ending : Bool

namespace Shaking

/-- The handshake goes on, some more bytes arrive, or the peer's stream ends after the last. -/
inductive Step (role : Role) (x : Shaking) : Shaking → Prop where
  | goes {e d} (h : x.exchange.advance role x.stream = some (.ok (e, d))) :
      Step role x { x with exchange := e, stream := d }
  | arrives {bs left coming p} (hsome : bs ≠ []) (hcoming : x.coming = bs ++ coming)
      (h : x.stream.incoming.push bs = some (.ok (left, p))) :
      Step role x { x with stream := { x.stream with incoming := p }, coming := left ++ coming }
  | ends (hcoming : x.coming = []) (hending : x.ending = true)
      (hopen : x.stream.incoming.closed = false) :
      Step role x { x with stream := { x.stream with incoming := x.stream.incoming.close } }

/-- The peer reads some of what is in the pipe to it, or closes that. -/
inductive Far (x : Shaking) : Shaking → Prop where
  | reads {bytes out} (h : bytes ++ out.held = x.stream.outgoing.held) :
      Far x { x with stream := { x.stream with outgoing := out } }

/-- All that may happen. -/
abbrev Leads (role : Role) : Shaking → Shaking → Prop :=
  Relation.ReflTransGen fun x y => Step role x y ∨ Far x y

/-- The peer's bytes behind those that the handshake has taken. -/
def left (x : Shaking) : Bytes := x.stream.incoming.held ++ x.coming

/-- What the handshake has come to, if it is over: the session key with the bytes that are left, or
a failure. -/
def result (role : Role) (x : Shaking) : Option (Except Error (SessionKey × Bytes)) :=
  match x.exchange with
  | .agreed key => some (.ok (key, x.left))
  | e =>
    match e.advance role x.stream with
    | some (.error err) => some (.error err)
    | _ => none

/-- What is still to be done for it. -/
def effort (x : Shaking) : Nat :=
  x.exchange.work + x.stream.incoming.held.length + 2 * x.coming.length +
    if x.stream.incoming.closed then 0 else 1

/-- Where the peer's bytes are. -/
inductive Holds (role : Role) (secret bytes : Bytes) (x : Shaking) : Prop where
  | sending {rest} (hx : x.exchange = .sending secret rest) (h : x.left = bytes)
  | receiving {arrived} (hx : x.exchange = .receiving secret arrived)
      (hfew : arrived.length ≤ keyLength) (h : arrived ++ x.left = bytes)
  | agreed (hx : x.exchange = .agreed (Exchange.sessionKey role secret (bytes.take keyLength)))
      (hlong : keyLength ≤ bytes.length)
      (hshared : ¬Exchange.Degenerate secret (bytes.take keyLength))
      (h : x.left = bytes.drop keyLength)

/-- What holds throughout: a stream that has ended has ended after the last byte. -/
structure Underway (role : Role) (secret bytes : Bytes) (ending : Bool) (x : Shaking) : Prop where
  holds : Holds role secret bytes x
  closed : x.stream.incoming.closed = true → x.coming = [] ∧ ending = true
  room : 0 < x.stream.incoming.capacity
  ends : x.ending = ending

variable {role : Role} {secret bytes : Bytes} {ending : Bool} {x y : Shaking}

/-- Where no bytes are taken, they stay where they are. -/
theorem Holds.same (h : Holds role secret bytes x) (hexchange : y.exchange = x.exchange)
    (hleft : y.left = x.left) : Holds role secret bytes y := by
  cases h with
  | sending hx h => exact .sending (hexchange.trans hx) (hleft.trans h)
  | receiving hx hfew h => exact .receiving (hexchange.trans hx) hfew (hleft ▸ h)
  | agreed hx hlong hshared h => exact .agreed (hexchange.trans hx) hlong hshared (hleft.trans h)

/-- Bytes that are as many as a key are the first of all, and the others are left. -/
theorem split_of_arrived {arrived left : Bytes} (hfew : arrived.length ≤ keyLength)
    (hlong : keyLength ≤ arrived.length) (h : arrived ++ left = bytes) :
    keyLength ≤ bytes.length ∧ arrived = bytes.take keyLength ∧ left = bytes.drop keyLength := by
  have hlength : arrived.length = keyLength := Nat.le_antisymm hfew hlong
  rw [← h, ← hlength]
  exact ⟨by rw [List.length_append]; exact Nat.le_add_right _ _, List.take_left.symm,
    List.drop_left.symm⟩

/-- The handshake takes the first 32 bytes and no more. -/
theorem Holds.goes (h : Holds role secret bytes x) {e : Exchange} {d : Duplex}
    (hadv : x.exchange.advance role x.stream = some (.ok (e, d))) :
    Holds role secret bytes { x with exchange := e, stream := d } := by
  obtain ⟨exchange, stream, coming, ending⟩ := x
  cases Exchange.advanced_of_advance hadv with
  | written =>
    cases h with
    | sending hx h =>
      cases hx
      exact .receiving rfl (Nat.zero_le _) h
    | receiving hx
    | agreed hx => cases hx
  | sends =>
    cases h with
    | sending hx h =>
      cases hx
      exact .sending rfl h
    | receiving hx
    | agreed hx => cases hx
  | @receives _ arrived bs inc hshort _ hpull =>
    cases h with
    | receiving hx _ h =>
      cases hx
      refine .receiving rfl ?_ ?_
      · rw [(Pipe.pull_eq_some hpull).1, List.length_append, List.length_take]
        omega
      · rw [left, ← Pipe.pull_conserves hpull, List.append_assoc] at h
        rw [List.append_assoc]
        exact h
    | sending hx
    | agreed hx => cases hx
  | @agrees _ arrived key hlong hkey =>
    cases h with
    | receiving hx hfew h =>
      cases hx
      obtain ⟨hlong', rfl, hdrop⟩ := split_of_arrived hfew hlong h
      rw [Exchange.agree_eq] at hkey
      split at hkey
      · cases hkey
      · rename_i hshared
        cases hkey
        exact .agreed rfl hlong' hshared hdrop
    | sending hx
    | agreed hx => cases hx

theorem incoming_advance {e e' : Exchange} {d d' : Duplex}
    (h : e.advance role d = some (.ok (e', d'))) :
    d'.incoming.closed = d.incoming.closed ∧ d'.incoming.capacity = d.incoming.capacity := by
  cases Exchange.advanced_of_advance h with
  | written
  | sends
  | agrees => exact ⟨rfl, rfl⟩
  | receives _ _ hpull =>
    rw [(Pipe.pull_eq_some hpull).2.1]
    exact ⟨rfl, rfl⟩

theorem Underway.step (h : x.Underway role secret bytes ending) (hstep : Step role x y) :
    y.Underway role secret bytes ending := by
  cases hstep with
  | goes hadv =>
    obtain ⟨hclosed, hcapacity⟩ := incoming_advance hadv
    exact ⟨h.holds.goes hadv, fun hc => h.closed (hclosed ▸ hc), hcapacity ▸ h.room, h.ends⟩
  | @arrives bs rest coming p _ hcoming hpush =>
    obtain ⟨hopen, -, -, hp⟩ := Pipe.push_ok hpush
    have hconserves := Pipe.push_conserves hpush
    refine ⟨h.holds.same rfl ?_, fun hclosed => ?_, ?_, h.ends⟩
    · simp only [left, hcoming, ← List.append_assoc, hconserves]
    · rw [show p.closed = false by rw [hp]; exact hopen] at hclosed
      cases hclosed
    · rw [hp]
      exact h.room
  | ends hcoming hending =>
    exact ⟨h.holds.same rfl rfl, fun _ => ⟨hcoming, h.ends ▸ hending⟩, h.room, h.ends⟩

theorem Underway.far (h : x.Underway role secret bytes ending) (hfar : Far x y) :
    y.Underway role secret bytes ending := by
  cases hfar
  exact ⟨h.holds.same rfl rfl, h.closed, h.room, h.ends⟩

theorem underway_of_leads (h : x.Underway role secret bytes ending) (hleads : Leads role x y) :
    y.Underway role secret bytes ending := by
  induction hleads with
  | refl => exact h
  | tail _ hstep ih => exact hstep.elim ih.step ih.far

/-! ### What it comes to -/

theorem result_eq_some {v : Except Error (SessionKey × Bytes)} (h : x.result role = some v) :
    (∃ key, x.exchange = .agreed key ∧ v = .ok (key, x.left)) ∨
      ∃ err, x.exchange.advance role x.stream = some (.error err) ∧ v = .error err := by
  unfold result at h
  split at h
  · rename_i key hagreed
    exact .inl ⟨key, hagreed, (Option.some.inj h).symm⟩
  · split at h
    · rename_i err hadv
      exact .inr ⟨err, hadv, (Option.some.inj h).symm⟩
    · cases h

theorem result_of_error {err : Error} (h : x.exchange.advance role x.stream = some (.error err)) :
    x.result role = some (.error err) := by
  unfold result
  split
  · rename_i hagreed
    rw [hagreed] at h
    cases h
  · rw [h]

/-- A handshake that has written its own key comes to the verdict on the peer's bytes. -/
theorem Underway.verdict (h : x.Underway role secret bytes ending) (hwritten : x.exchange.Written)
    {v : Except Error (SessionKey × Bytes)} (hresult : x.result role = some v) :
    Verdict role secret bytes ending (some v) := by
  obtain ⟨exchange, stream, coming, ending'⟩ := x
  rcases result_eq_some hresult with ⟨key, hagreed, rfl⟩ | ⟨err, hadv, rfl⟩
  · cases h.holds with
    | agreed hx hlong hshared hleft =>
      cases hx
      cases hagreed
      rw [hleft]
      exact .secured hlong hshared
    | sending hx
    | receiving hx => cases hx.symm.trans hagreed
  · cases Exchange.fails_of_advance hadv with
    | broken hleft => exact absurd hwritten hleft
    | refused hlong hzero =>
      cases h.holds with
      | receiving hx hfew hbytes =>
        cases hx
        obtain ⟨hlong', rfl, -⟩ := split_of_arrived hfew hlong hbytes
        exact .nonContributory hlong' hzero
      | sending hx
      | agreed hx => cases hx
    | cut hshort hheld hclosed =>
      cases h.holds with
      | receiving hx _ hbytes =>
        cases hx
        obtain ⟨hcoming, hending⟩ := h.closed hclosed
        have hnone : Shaking.left ⟨.receiving secret _, stream, coming, ending'⟩ = [] :=
          List.append_eq_nil_iff.mpr ⟨hheld, hcoming⟩
        rw [hnone, List.append_nil] at hbytes
        exact .cut (hbytes ▸ hshort) hending
      | sending hx
      | agreed hx => cases hx

/-- Nothing is left to happen, but for the peer's reading. -/
def Stuck (role : Role) (x : Shaking) : Prop := ∀ y, ¬Step role x y

/-- Where no more bytes can arrive and there is room, none are to come, and the stream stays
open. -/
theorem Stuck.open_ended (h : x.Stuck role) (hheld : x.stream.incoming.held = [])
    (hopen : x.stream.incoming.closed = false) (hroom : 0 < x.stream.incoming.capacity) :
    x.left = [] ∧ x.ending = false := by
  have hcoming : x.coming = [] := by
    by_contra hne
    have hfree : x.stream.incoming.room ≠ 0 := by
      rw [Pipe.room, hheld]
      exact Nat.ne_of_gt hroom
    cases hpush : x.stream.incoming.push x.coming with
    | none => exact hfree (Pipe.room_of_push hpush)
    | some res =>
      obtain ⟨rest, p, rfl, -⟩ := Pipe.push_open hopen hpush
      exact h _ (.arrives hne (List.append_nil _).symm hpush)
  refine ⟨List.append_eq_nil_iff.mpr ⟨hheld, hcoming⟩, Bool.eq_false_iff.mpr fun hending => ?_⟩
  exact h _ (.ends hcoming hending hopen)

/-- A handshake that is stuck has come to the verdict, also if that is to wait. -/
theorem Underway.verdict_of_stuck (h : x.Underway role secret bytes ending)
    (hwritten : x.exchange.Written) (hstuck : x.Stuck role) :
    Verdict role secret bytes ending (x.result role) := by
  cases hresult : x.result role with
  | some v => exact h.verdict hwritten hresult
  | none =>
    have hnot : ∀ key, x.exchange ≠ .agreed key := fun key hagreed => by
      simp only [result, hagreed] at hresult
      cases hresult
    have hwaits : x.exchange.advance role x.stream = none := by
      cases hadv : x.exchange.advance role x.stream with
      | none => rfl
      | some res =>
        cases res with
        | ok z => exact absurd (.goes hadv) (hstuck _)
        | error err => exact nomatch (result_of_error hadv).symm.trans hresult
    rcases Exchange.room_or_open_of_advance hnot hwaits with
      ⟨_, rest, hx, -⟩ | ⟨_, arrived, hx, hshort, hheld, hopen⟩
    · -- A key that is written is followed by reading.
      rw [hx] at hwritten hwaits
      obtain rfl : rest = [] := hwritten
      cases hwaits
    · obtain ⟨hleft, hend⟩ := hstuck.open_ended hheld hopen h.room
      cases h.holds with
      | receiving hx' _ hbytes =>
        cases hx.symm.trans hx'
        rw [hleft, List.append_nil] at hbytes
        exact .waits (hbytes ▸ hshort) (h.ends ▸ hend)
      | sending hx'
      | agreed hx' => cases hx.symm.trans hx'

/-- A handshake that is stuck before its own key is written cannot write it. -/
theorem unwritten_of_stuck (hstuck : x.Stuck role) (hwritten : ¬x.exchange.Written) :
    x.stream.outgoing.closed = true ∨ x.stream.outgoing.room = 0 := by
  have hnot : ∀ key, x.exchange ≠ .agreed key := fun key hagreed =>
    hwritten (by rw [hagreed]; trivial)
  cases hadv : x.exchange.advance role x.stream with
  | none =>
    rcases Exchange.room_or_open_of_advance hnot hadv with
      ⟨_, _, -, hroom⟩ | ⟨_, _, hx, -⟩
    · exact .inr hroom
    · exact absurd (by rw [hx]; trivial) hwritten
  | some res =>
    cases res with
    | ok z => exact absurd (.goes hadv) (hstuck _)
    | error err =>
      have hfails := Exchange.fails_of_advance hadv
      generalize x.exchange = e at hfails hwritten
      cases hfails with
      | broken _ hclosed => exact .inl hclosed
      | refused
      | cut => exact absurd trivial hwritten

theorem effort_of_goes {e : Exchange} {d : Duplex}
    (hadv : x.exchange.advance role x.stream = some (.ok (e, d))) :
    effort { x with exchange := e, stream := d } < x.effort := by
  obtain ⟨exchange, stream, coming, ending⟩ := x
  have hadvanced : Exchange.Advanced role stream exchange e d := Exchange.advanced_of_advance hadv
  have hclosed : d.incoming.closed = stream.incoming.closed := (incoming_advance hadv).1
  cases hadvanced with
  | written => simp only [effort, Exchange.work, List.length_nil]; omega
  | sends _ hrest => simp only [effort, Exchange.work]; omega
  | agrees => simp only [effort, Exchange.work]; omega
  | receives _ hsome hpull =>
    have hheld := congrArg List.length (Pipe.pull_conserves hpull)
    have hpos := List.length_pos_iff.mpr hsome
    rw [List.length_append] at hheld
    simp only at hclosed
    simp only [effort, Exchange.work, hclosed]
    omega

/-- **Every step brings the end closer.** -/
theorem effort_of_step (hstep : Step role x y) : y.effort < x.effort := by
  cases hstep with
  | goes hadv => exact effort_of_goes hadv
  | arrives hsome hcoming hpush =>
    obtain ⟨-, hroom, rfl, rfl⟩ := Pipe.push_ok hpush
    have hpos := List.length_pos_iff.mpr hsome
    simp only [effort, hcoming, List.length_append, List.length_drop, List.length_take]
    omega
  | ends _ _ hopen =>
    simp only [effort, Pipe.close, hopen, if_true, Bool.false_eq_true, if_false]
    omega

/-! ### The headline -/

/-- What there is to say of a handshake with this secret, when these are the peer's bytes and its
stream ends after them or does not. -/
structure Outcome (role : Role) (secret bytes : Bytes) (ending : Bool) (start : Shaking) :
    Prop where
  /-- There is one verdict on the bytes. -/
  one : ∃! v, Verdict role secret bytes ending v
  /-- A handshake that has written its own key comes to nothing else. -/
  returned : ∀ x, Leads role start x → x.exchange.Written → ∀ v, x.result role = some v →
    Verdict role secret bytes ending (some v)
  /-- It has come to the verdict when nothing is left to happen, also if that is to wait. -/
  settled : ∀ x, Leads role start x → x.exchange.Written → x.Stuck role →
    Verdict role secret bytes ending (x.result role)
  /-- It is only kept from writing its own key where the stream takes nothing. -/
  unwritten : ∀ x, Leads role start x → ¬x.exchange.Written → x.Stuck role →
    x.stream.outgoing.closed = true ∨ x.stream.outgoing.room = 0
  /-- There are only so many steps, whatever the peer reads. -/
  lighter : ∀ x y, Leads role start x →
    (Step role x y → y.effort < x.effort) ∧ (Far x y → y.effort = x.effort)
  /-- The reader of the secured stream starts behind the first 32 bytes. -/
  reader : ∀ x key max, Leads role start x → x.exchange = .agreed key →
    Intake.bytes { opener := .create key role max, pipe := x.stream.incoming, coming := x.coming,
                   ending := x.ending } = bytes.drop keyLength

/-- **What a handshake comes to depends on its secret, its role and the peer's bytes**, and not on
how these arrive: 32 bytes make a session key, which is the same whatever follows them, unless
their shared secret is all zero; with fewer the handshake waits, and fails when the stream ends. -/
theorem handshake_outcome (role : Role) (secret : Bytes) (d : Duplex) (coming : Bytes)
    (ending : Bool) (hclosed : d.incoming.closed = true → coming = [] ∧ ending = true)
    (hroom : 0 < d.incoming.capacity) :
    Outcome role secret (d.incoming.held ++ coming) ending
      { exchange := .start secret, stream := d, coming, ending } := by
  have hstart : Underway role secret (d.incoming.held ++ coming) ending
      { exchange := .start secret, stream := d, coming, ending } :=
    ⟨.sending rfl rfl, hclosed, hroom, rfl⟩
  refine ⟨Exchange.existsUnique_verdict .., fun x hleads hwritten v => ?_,
    fun x hleads hwritten hstuck => ?_, fun x _ hwritten hstuck => ?_, fun x y _ => ⟨?_, ?_⟩,
    fun x key max hleads hagreed => ?_⟩
  · exact (underway_of_leads hstart hleads).verdict hwritten
  · exact (underway_of_leads hstart hleads).verdict_of_stuck hwritten hstuck
  · exact unwritten_of_stuck hstuck hwritten
  · exact effort_of_step
  · rintro ⟨⟩
    rfl
  · cases (underway_of_leads hstart hleads).holds with
    | agreed _ _ _ hleft => exact hleft
    | sending hx
    | receiving hx => cases hx.symm.trans hagreed

/-- A handshake on pipes that hold one public key. -/
def tight (secret coming : Bytes) : Shaking where
  exchange := .start secret
  stream := .ofCapacity keyLength
  coming := coming
  ending := false

theorem push_key {bs : Bytes} (h : bs.length = keyLength) :
    Pipe.push { capacity := keyLength } bs =
      some (.ok ([], { capacity := keyLength, held := bs })) := by
  have hroom : (Pipe.mk keyLength [] false).room = keyLength := rfl
  rw [Pipe.push, if_neg (by decide), if_neg (by rw [hroom]; decide), hroom, ← h, List.drop_length,
    List.take_length, List.nil_append]

theorem pull_key {bs : Bytes} (h : bs.length = keyLength) (hne : bs ≠ []) :
    Pipe.pull { capacity := keyLength, held := bs } keyLength =
      some (bs, { capacity := keyLength }) := by
  rw [Pipe.pull, if_neg hne, ← h, List.take_length, List.drop_length]

theorem advance_receiving {arrived bs : Bytes} {d : Duplex} {inc : Pipe}
    (hshort : arrived.length < keyLength) (hsome : bs ≠ [])
    (hpull : d.incoming.pull (keyLength - arrived.length) = some (bs, inc)) :
    (Exchange.receiving secret arrived).advance role d =
      some (.ok (.receiving secret (arrived ++ bs), { d with incoming := inc })) := by
  rw [Exchange.advance, if_neg (Nat.not_le_of_lt hshort), hpull]
  cases bs with
  | nil => exact absurd rfl hsome
  | cons => rfl

/-- It writes its own key, and takes the peer's. -/
theorem takes_key (role : Role) (secret : Bytes) {peer : Bytes} (more : Bytes)
    (hpeer : peer.length = keyLength) :
    ∃ x, Leads role (tight secret (peer ++ more)) x ∧ x.exchange = .receiving secret peer ∧
      x.left = more := by
  obtain ⟨own, hown⟩ : ∃ own, Crypto.X25519.publicKey secret = own := ⟨_, rfl⟩
  have hlength : own.length = keyLength := hown ▸ Crypto.X25519.length_publicKey secret
  have hsome : own ≠ [] := List.ne_nil_of_length_pos (by rw [hlength]; decide)
  have hne : peer ≠ [] := List.ne_nil_of_length_pos (by rw [hpeer]; decide)
  let d : Duplex := ⟨{ capacity := keyLength, held := own }, { capacity := keyLength }⟩
  let reading : Shaking := ⟨.receiving secret [], d, peer ++ more, false⟩
  let arrived : Shaking :=
    ⟨.receiving secret [], { d with incoming := { capacity := keyLength, held := peer } }, more,
      false⟩
  have hwrites : Step role (tight secret (peer ++ more))
      ⟨.sending secret [], d, peer ++ more, false⟩ := by
    refine .goes ?_
    simp only [tight, Exchange.start, hown, Exchange.advance]
    rw [if_neg hsome, Duplex.ofCapacity, push_key hlength]
    rfl
  have hread : Step role ⟨.sending secret [], d, peer ++ more, false⟩ reading := .goes rfl
  have harrives : Step role reading arrived := .arrives (x := reading) hne rfl (push_key hpeer)
  have htakes : Step role arrived ⟨.receiving secret peer, d, more, false⟩ :=
    .goes (x := arrived) (advance_receiving (by decide) hne (pull_key hpeer hne))
  exact ⟨_, .tail (.tail (.tail (.single (.inl hwrites)) (.inl hread)) (.inl harrives))
    (.inl htakes), rfl, rfl⟩

theorem advance_whole (role : Role) (secret : Bytes) {peer : Bytes} (h : peer.length = keyLength)
    (d : Duplex) :
    (Exchange.receiving secret peer).advance role d = some
      (if Exchange.Degenerate secret peer then .error (.crypto .nonContributory)
        else .ok (.agreed (Exchange.sessionKey role secret peer), d)) := by
  rw [Exchange.advance, if_pos (Nat.le_of_eq h.symm), Exchange.agree_eq]
  by_cases hzero : Exchange.Degenerate secret peer
  · rw [if_pos hzero, if_pos hzero]
  · rw [if_neg hzero, if_neg hzero]

/-- With room for its own key, and the peer's key at hand, a handshake is over in four steps. -/
theorem advances_to_key {role : Role} {secret peer : Bytes} {key : SessionKey} (more : Bytes)
    (hpeer : peer.length = keyLength) (hagree : Exchange.agree role secret peer = .ok key)
    {capacity : Nat} (capacity' : Nat) (hroom : keyLength ≤ capacity) :
    (Exchange.start secret).advance role
        ⟨{ capacity }, { capacity := capacity', held := peer ++ more }⟩ =
      some (.ok (.sending secret [], ⟨{ capacity, held := Crypto.X25519.publicKey secret },
        { capacity := capacity', held := peer ++ more }⟩)) ∧
    (Exchange.receiving secret []).advance role
        ⟨{ capacity, held := Crypto.X25519.publicKey secret },
          { capacity := capacity', held := peer ++ more }⟩ =
      some (.ok (.receiving secret peer, ⟨{ capacity, held := Crypto.X25519.publicKey secret },
        { capacity := capacity', held := more }⟩)) ∧
    ∀ d, (Exchange.receiving secret peer).advance role d = some (.ok (.agreed key, d)) := by
  obtain ⟨own, hown⟩ : ∃ own, Crypto.X25519.publicKey secret = own := ⟨_, rfl⟩
  have hlength : own.length = keyLength := hown ▸ Crypto.X25519.length_publicKey secret
  have hsome : own ≠ [] := List.ne_nil_of_length_pos (by rw [hlength]; decide)
  have hne : peer ≠ [] := List.ne_nil_of_length_pos (by rw [hpeer]; decide)
  refine ⟨?_, advance_receiving (by decide) hne ?_, fun d => ?_⟩
  · rw [Exchange.start, hown, Exchange.advance, if_neg hsome,
      Pipe.push_of_fits rfl hsome (by rw [hlength]; exact hroom)]
    rfl
  · show Pipe.pull { capacity := capacity', held := peer ++ more } keyLength = _
    rw [Pipe.pull, if_neg (fun hnil => hne (List.append_eq_nil_iff.mp hnil).1), ← hpeer,
      List.take_left, List.drop_left]
  · rw [Exchange.advance, if_pos (Nat.le_of_eq hpeer.symm), hagree]

/-- Some secret and some key agree. -/
theorem exists_agreed (role : Role) :
    ∃ key, Exchange.agree role [1] (Bytes.ofNatLE keyLength 9) = .ok key := by
  have hshared : ¬Exchange.Degenerate [1] (Bytes.ofNatLE keyLength 9) := by
    rw [← Exchange.contributory_eq_false]
    decide +kernel
  exact ⟨_, (Exchange.agree_eq role _ _).trans (if_neg hshared)⟩

/-- A byte behind the peer's key is left, and an all-zero key is refused. -/
theorem key_with_a_byte_behind :
    (∃ x, Leads .client (tight [1] (Crypto.X25519.publicKey [2] ++ [9])) x ∧ x.left = [9] ∧
      x.exchange = .agreed (Exchange.sessionKey .client [1] (Crypto.X25519.publicKey [2]))) ∧
    ∃ x, Leads .client (tight [1] (List.replicate keyLength 0 ++ [9])) x ∧
      x.result .client = some (.error (.crypto .nonContributory)) ∧
      Verdict .client [1] (List.replicate keyLength 0 ++ [9]) false
        (some (.error (.crypto .nonContributory))) := by
  have hshared : ¬Exchange.Degenerate [1] (Crypto.X25519.publicKey [2]) := by
    rw [← Exchange.contributory_eq_false]
    decide +kernel
  have hzero : Exchange.Degenerate [1] (List.replicate keyLength 0) := by
    rw [← Exchange.contributory_eq_false]
    decide +kernel
  constructor
  · have hlength := Crypto.X25519.length_publicKey [2]
    obtain ⟨x, hleads, hx, hleft⟩ := takes_key .client [1] [9] hlength
    have hagrees := advance_whole .client [1] hlength x.stream
    rw [if_neg hshared, ← hx] at hagrees
    exact ⟨_, hleads.tail (.inl (.goes hagrees)), hleft, rfl⟩
  · have hlength : (List.replicate keyLength (0 : UInt8)).length = keyLength :=
      List.length_replicate
    obtain ⟨x, hleads, hx, hleft⟩ := takes_key .client [1] [9] hlength
    have hfails := advance_whole .client [1] hlength x.stream
    rw [if_pos hzero, ← hx] at hfails
    refine ⟨x, hleads, result_of_error hfails, ?_⟩
    exact (handshake_outcome .client [1] (.ofCapacity keyLength)
      (List.replicate keyLength 0 ++ [9]) false nofun (by decide)).returned
        x hleads (by rw [hx]; trivial) _ (result_of_error hfails)

end Shaking

/-- A handshake with a deadline goes on when it can. -/
theorem Handshake.step_of_going {x : Handshake} {exchange : Exchange} {role : Role} {now : Nat}
    {d d' : Duplex} (h : x.exchange.advance role d = some (.ok (exchange, d'))) :
    x.step role now d = some (.going { x with exchange } d') := by
  unfold step
  split
  · rename_i hagreed
    rw [hagreed] at h
    cases h
  · rw [h]

end Parley.Channel
