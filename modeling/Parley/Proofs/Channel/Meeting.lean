import Mathlib.Logic.Relation
import Parley.Channel.Handshake
import Parley.Proofs.Channel.RoundTrip

/-! Two ends that shake hands and talk at once.

Each end of a stream makes its handshake and, as soon as that is done, writes its frames and
flushes them, reading whatever comes in the meantime (`Side.Step`). The two go in any order, and
a step may find any part of what is in a pipe and any part of the room there (`Glimpse`), so that
bytes cross in any pieces (`Meeting.Step`).

What an end has still to hand over is the rest of its public key and then the wire of its frames
(`Side.unsent`); what it still expects is the same of the other end, less what it has taken
(`Expects`). Every step keeps the two in line (`sound_of_leads`): the key takes exactly its 32
bytes, and what follows goes to the reader of the secured stream. -/
namespace Parley.Channel

/-! ### One end -/

/-- What an end brings: its secret, the largest plaintexts that it takes and sends, and the frames
that it writes. -/
structure Plan where
  secret : Bytes
  maxRead : Nat
  maxWrite : Nat
  frames : List Frame

/-- The two halves of a secured stream in use. -/
structure Secured where
  sealer : Sealer
  /-- What is left of the call under way. -/
  job : Option Sealer.Job := none
  /-- The frames still to write, and whether the flush after them was begun. -/
  todo : List Frame
  flushed : Bool := false
  opener : Opener
  collected : Bytes := []
  received : List Frame := []

/-- A secured stream on which nothing has happened. -/
def Secured.start (role : Role) (plan : Plan) (key : SessionKey) : Secured where
  sealer := .create key role plan.maxWrite
  todo := plan.frames
  opener := .create key role plan.maxRead

/-- Where an end is. -/
inductive Stage where
  | shaking (x : Exchange)
  | secured (s : Secured)
  /-- Something failed, or the other end was seen to have left. -/
  | gone (e : Option Error)

/-- What a step of a read call comes to. -/
def Secured.reads (s : Secured) (o : Opener) : Opener.Reading → Stage
  | .partly c => .secured { s with opener := o, collected := c }
  | .frame f => .secured { s with opener := o, collected := [], received := s.received ++ [f] }
  | .ended => .gone none
  | .failed e => .gone (some e)

/-- One end, with the bytes that its handshake has taken from the stream. -/
structure Side where
  stage : Stage
  taken : Bytes := []

/-- Nothing has happened at an end. -/
def Side.start (plan : Plan) : Side := { stage := .shaking (.start plan.secret) }

/-- One step of an end, on what it finds of its stream. -/
inductive Side.Step (role : Role) (plan : Plan) (q : Side) (d : Duplex) : Side → Duplex → Prop where
  | exchanges {x x' : Exchange} {d' : Duplex} {bs : Bytes} (hq : q.stage = .shaking x)
      (h : x.advance role d = some (.ok (x', d')))
      (hbs : bs ++ d'.incoming.held = d.incoming.held) :
      Step role plan q d { stage := .shaking x', taken := q.taken ++ bs } d'
  | fails {x : Exchange} {e : Error} (hq : q.stage = .shaking x)
      (h : x.advance role d = some (.error e)) :
      Step role plan q d { q with stage := .gone (some e) } d
  | secures {key : SessionKey} (hq : q.stage = .shaking (.agreed key)) :
      Step role plan q d { q with stage := .secured (.start role plan key) } d
  -- Writing
  | begins {s : Secured} {f : Frame} {fs : List Frame} {job : Sealer.Job} {sealer : Sealer}
      (hq : q.stage = .secured s) (hjob : s.job = none) (htodo : s.todo = f :: fs)
      (h : s.sealer.write f = .ok (job, sealer)) :
      Step role plan q d
        { q with stage := .secured { s with sealer, job := some job, todo := fs } } d
  | refused {s : Secured} {f : Frame} {fs : List Frame} {e : Error} (hq : q.stage = .secured s)
      (hjob : s.job = none) (htodo : s.todo = f :: fs) (h : s.sealer.write f = .error e) :
      Step role plan q d { q with stage := .gone (some e) } d
  | flushes {s : Secured} (hq : q.stage = .secured s) (hjob : s.job = none) (htodo : s.todo = [])
      (hflushed : s.flushed = false) :
      Step role plan q d
        { q with stage := .secured { s with job := some .flushing, flushed := true } } d
  | writes {s : Secured} {job : Sealer.Job} {job' : Option Sealer.Job} {sealer : Sealer}
      {out : Pipe}
      (hq : q.stage = .secured s) (hjob : s.job = some job)
      (h : s.sealer.advance job d.outgoing = some (.ok (job', sealer, out))) :
      Step role plan q d { q with stage := .secured { s with sealer, job := job' } }
        { d with outgoing := out }
  | breaks {s : Secured} {job : Sealer.Job} {e : IoError} (hq : q.stage = .secured s)
      (hjob : s.job = some job) (h : s.sealer.advance job d.outgoing = some (.error e)) :
      Step role plan q d { q with stage := .gone (some (.io e)) } d
  -- Reading
  | reads {s : Secured} {reading : Opener.Reading} {o : Opener} {inc : Pipe}
      (hq : q.stage = .secured s)
      (h : s.opener.advance s.collected d.incoming = some (reading, o, inc)) :
      Step role plan q d { q with stage := s.reads o reading } { d with incoming := inc }

/-! ### Both ends -/

/-- A step may find only some of the room in the pipe that it writes, and some of what is in the
pipe that it reads; but where there is any, it finds some. -/
structure Glimpse (d seen : Duplex) (rest : Bytes) : Prop where
  outgoing : seen.outgoing = { d.outgoing with capacity := seen.outgoing.capacity }
  room : seen.outgoing.room = 0 → d.outgoing.room = 0
  incoming : seen.incoming = { d.incoming with held := seen.incoming.held }
  held : seen.incoming.held ++ rest = d.incoming.held
  there : seen.incoming.held = [] → d.incoming.held = []

/-- The stream after a step on what it has found. -/
def Duplex.resume (d seen : Duplex) (rest : Bytes) : Duplex where
  outgoing := { seen.outgoing with capacity := d.outgoing.capacity }
  incoming := { seen.incoming with held := seen.incoming.held ++ rest }

/-- Two ends, and the pipes between them by the end that writes. -/
structure Meeting where
  sides : Role → Side
  pipes : Role → Pipe

namespace Meeting

/-- The stream as one end has it. -/
def stream (m : Meeting) (r : Role) : Duplex := ⟨m.pipes r, m.pipes r.opposite⟩

/-- The same, with one end and its stream in this state. -/
def put (m : Meeting) (r : Role) (q : Side) (d : Duplex) : Meeting where
  sides r' := if r' = r then q else m.sides r'
  pipes r' := if r' = r then d.outgoing else d.incoming

/-- Either end makes a step, on what it finds. -/
inductive Step (plan : Role → Plan) (m : Meeting) : Meeting → Prop where
  | one {r : Role} {seen seen' : Duplex} {rest : Bytes} {q : Side}
      (hseen : Glimpse (m.stream r) seen rest)
      (h : Side.Step r (plan r) (m.sides r) seen q seen') :
      Step plan m (m.put r q ((m.stream r).resume seen' rest))

abbrev Leads (plan : Role → Plan) : Meeting → Meeting → Prop := Relation.ReflTransGen (Step plan)

/-- Nothing has happened at either end of a stream whose directions hold so many bytes. -/
def fresh (plan : Role → Plan) (capacity : Role → Nat) : Meeting where
  sides r := .start (plan r)
  pipes r := { capacity := capacity r }

/-- The public key of an end. -/
def greeting (plan : Role → Plan) (r : Role) : Bytes := Crypto.X25519.publicKey (plan r).secret

/-- The key that both ends are to agree on. -/
def key (plan : Role → Plan) : SessionKey :=
  .derive (Crypto.X25519.multiply (plan .client).secret (greeting plan .server))
    (greeting plan .client) (greeting plan .server)

/-- The exchange of the two secrets commutes and is contributory, and each end's frames may be sent
there, may be taken at the other end, and are no more than there are nonces. -/
structure Fair (plan : Role → Plan) : Prop where
  commutes : Crypto.X25519.multiply (plan .client).secret (greeting plan .server) =
    Crypto.X25519.multiply (plan .server).secret (greeting plan .client)
  contributory : Crypto.X25519.contributory
    (Crypto.X25519.multiply (plan .client).secret (greeting plan .server)) = true
  fits : ∀ r, ∀ f ∈ (plan r).frames, f.Fits (plan r).maxWrite
  admits : ∀ r, ∀ f ∈ (plan r).frames, Admits (plan r.opposite).maxRead f
  count : ∀ r, (plan r).frames.length ≤ Nonce.last

variable {plan : Role → Plan} {m : Meeting} {r : Role}

/-- Either end derives the same key from its own secret and the other's public key. -/
theorem Fair.agree (h : Fair plan) (r : Role) :
    Exchange.agree r (plan r).secret (greeting plan r.opposite) = .ok (key plan) := by
  have hcontributory := h.contributory
  cases r with
  | client => simp only [Exchange.agree, Role.opposite, h.contributory, if_true]; rfl
  | server =>
    rw [h.commutes] at hcontributory
    simp only [Exchange.agree, Role.opposite, hcontributory, if_true, key, h.commutes]
    rfl

end Meeting

/-! ### What is still to come -/

section
open Meeting

variable (plan : Role → Plan) (r : Role)

/-- What an end sends after its public key. -/
def Meeting.speech : Bytes := wire (key plan) r.outbound 0 (plan r).frames

/-- What an end has still to hand over. -/
def Stage.unsent : Stage → Bytes
  | .shaking (.sending _ left) => left ++ speech plan r
  | .shaking _ => speech plan r
  | .secured s => s.sealer.outlet.held ++ Sealer.leftOf s.job ++
      wire (key plan) r.outbound s.sealer.nonces.counter s.todo
  | .gone _ => []

/-- The writing half is where it can be. -/
structure Secured.Sends (s : Secured) : Prop where
  sealing : s.sealer.key = key plan
  direction : s.sealer.nonces.direction = r.outbound
  counter : s.sealer.nonces.counter + s.todo.length = (plan r).frames.length
  maxPlaintext : s.sealer.maxPlaintext = (plan r).maxWrite
  todo : s.todo <:+ (plan r).frames
  unsent : Stage.unsent plan r (.secured s) <:+ speech plan r
  job : s.job ≠ some .closing
  flushed : s.flushed = true → s.todo = [] ∧
    (s.job = some .flushing ∨ s.job = none ∧ s.sealer.outlet.held = [])

/-- An end that sends is where it can be. -/
inductive Stage.Sends : Stage → Prop where
  | sending {left : Bytes} (hleft : left <:+ greeting plan r) :
      Sends (.shaking (.sending (plan r).secret left))
  | receiving {arrived : Bytes} : Sends (.shaking (.receiving (plan r).secret arrived))
  | agreed {k : SessionKey} : Sends (.shaking (.agreed k))
  | secured {s : Secured} (h : s.Sends plan r) : Sends (.secured s)

/-- The reading half has received the first frames, and these bytes are the rest. -/
structure Secured.Expects (next : Bytes) (s : Secured) : Prop where
  opening : s.opener.key = key plan
  nonces : s.opener.nonces = ⟨r.inbound, s.received.length⟩
  maxPlaintext : s.opener.maxPlaintext = (plan r).maxRead
  ahead : ∃ gs, s.received ++ gs = (plan r.opposite).frames ∧
    s.opener.Ahead s.collected { capacity := 0 } next gs

/-- An end has taken this much in its handshake, and these bytes are the rest of what the other
end sends. -/
inductive Stage.Expects (taken next : Bytes) : Stage → Prop where
  | sending {secret left : Bytes} (htaken : taken = [])
      (h : next = greeting plan r.opposite ++ speech plan r.opposite) :
      Expects taken next (.shaking (.sending secret left))
  | receiving {secret : Bytes} (hshort : taken.length ≤ Exchange.keyLength)
      (h : taken ++ next = greeting plan r.opposite ++ speech plan r.opposite) :
      Expects taken next (.shaking (.receiving secret taken))
  | agreed (htaken : taken = greeting plan r.opposite) (h : next = speech plan r.opposite) :
      Expects taken next (.shaking (.agreed (key plan)))
  | secured {s : Secured} (htaken : taken = greeting plan r.opposite) (h : s.Expects plan r next) :
      Expects taken next (.secured s)

end

/-! ### What a step keeps -/

/-- A reader does not care where the rest of its bytes is, as long as the stream is open. -/
theorem Opener.Ahead.elsewhere {o : Opener} {c coming coming' : Bytes} {p p' : Pipe}
    {fs : List Frame} (h : o.Ahead c p coming fs) (hopen : p'.closed = false)
    (hsame : p'.held ++ coming' = p.held ++ coming) : o.Ahead c p' coming' fs := by
  refine ⟨?_, h.short, fun hclosed => ?_, h.frames, h.nonces⟩
  · rw [List.append_assoc, hsame, ← List.append_assoc]
    exact h.bytes
  · rw [hopen] at hclosed
    cases hclosed

section
open Meeting

variable {plan : Role → Plan} {r : Role} {q q' : Side} {d d' : Duplex} {more : Bytes}

/-- What is still to come is kept by a step of an end, and it does not fail: it hands over the next
bytes of what it has to send, and takes the next of what it expects. -/
structure Side.Keeps (plan : Role → Plan) (r : Role) (more : Bytes) (q : Side) (d : Duplex)
    (q' : Side) (d' : Duplex) : Prop where
  sends : q'.stage.Sends plan r
  expects : q'.stage.Expects plan r q'.taken (d'.incoming.held ++ more)
  unsent : d'.outgoing.held ++ q'.stage.unsent plan r = d.outgoing.held ++ q.stage.unsent plan r
  outgoing : d'.outgoing = { d.outgoing with held := d'.outgoing.held }
  incoming : d'.incoming = { d.incoming with held := d'.incoming.held }

/-- A handshake hands over the next bytes of its key. -/
theorem keeps_sending {left : Bytes} {res : Except Error (Exchange × Duplex)}
    (h : (Exchange.sending (plan r).secret left).advance r d = some res)
    (hleft : left <:+ greeting plan r)
    (hnext : d.incoming.held ++ more = greeting plan r.opposite ++ speech plan r.opposite)
    (hout : d.outgoing.closed = false) :
    ∃ x' d', res = .ok (x', d') ∧ d'.incoming = d.incoming ∧
      Side.Keeps plan r more ⟨.shaking (.sending (plan r).secret left), []⟩ d
        ⟨.shaking x', []⟩ d' := by
  simp only [Exchange.advance] at h
  split at h
  · rename_i hnil
    cases h
    refine ⟨_, _, rfl, rfl, .receiving, .receiving (Nat.zero_le _) hnext, ?_, rfl, rfl⟩
    rw [hnil]
    rfl
  · obtain ⟨res', hpush, rfl⟩ := Option.map_eq_some_iff.mp h
    obtain ⟨rest, p', rfl, -⟩ := Pipe.push_open hout hpush
    obtain ⟨-, -, rfl, rfl⟩ := Pipe.push_ok hpush
    refine ⟨_, _, rfl, rfl, .sending ((List.drop_suffix _ _).trans hleft),
      .sending rfl hnext, ?_, rfl, rfl⟩
    simp only [Stage.unsent, List.append_assoc]
    rw [← List.append_assoc (List.take _ _), List.take_append_drop]

/-- A handshake takes the next bytes of the other end's key, or has all of it and agrees. -/
theorem keeps_receiving (hfair : Fair plan) {taken : Bytes}
    {res : Except Error (Exchange × Duplex)}
    (h : (Exchange.receiving (plan r).secret taken).advance r d = some res)
    (hshort : taken.length ≤ Exchange.keyLength)
    (hnext : taken ++ (d.incoming.held ++ more) =
      greeting plan r.opposite ++ speech plan r.opposite)
    (hinc : d.incoming.closed = false) :
    ∃ x' d' bs, res = .ok (x', d') ∧ bs ++ d'.incoming.held = d.incoming.held ∧
      Side.Keeps plan r more ⟨.shaking (.receiving (plan r).secret taken), taken⟩ d
        ⟨.shaking x', taken ++ bs⟩ d' := by
  simp only [Exchange.advance] at h
  split at h
  · rename_i hlong
    -- All of the key has arrived, and nothing after it was taken.
    have hlength : taken.length = (greeting plan r.opposite).length := by
      rw [greeting, Crypto.X25519.length_publicKey]
      exact Nat.le_antisymm hshort hlong
    obtain ⟨rfl, hrest⟩ := List.append_inj hnext hlength
    rw [hfair.agree r] at h
    cases h
    refine ⟨_, _, [], rfl, rfl, .agreed, ?_, rfl, rfl, rfl⟩
    rw [List.append_nil]
    exact .agreed rfl hrest
  · rename_i hless
    cases hpull : d.incoming.pull (Exchange.keyLength - taken.length) with
    | none => rw [hpull] at h; cases h
    | some found =>
      obtain ⟨bs, inc⟩ := found
      obtain ⟨hbs, rfl, hclosed⟩ := Pipe.pull_eq_some hpull
      rw [hpull] at h
      cases bs with
      | nil =>
        refine absurd (hclosed ?_) (by rw [hinc]; decide)
        rcases List.take_eq_nil_iff.mp hbs.symm with hzero | hheld
        · omega
        · exact hheld
      | cons b bs =>
        cases h
        have hconserves : b :: bs ++
            d.incoming.held.drop (Exchange.keyLength - taken.length) = d.incoming.held :=
          Pipe.pull_conserves hpull
        refine ⟨_, _, b :: bs, rfl, hconserves, .receiving, .receiving ?_ ?_, rfl, rfl, rfl⟩
        · have hlength := congrArg List.length hbs
          rw [List.length_take] at hlength
          rw [List.length_append]
          omega
        · rw [← hnext, List.append_assoc, ← List.append_assoc (b :: bs), hconserves]

/-- A handshake goes on. -/
theorem keeps_exchange (hfair : Fair plan) {x : Exchange} {res : Except Error (Exchange × Duplex)}
    (h : x.advance r d = some res) (hsends : (Stage.shaking x).Sends plan r) {taken : Bytes}
    (hexpects : (Stage.shaking x).Expects plan r taken (d.incoming.held ++ more))
    (hout : d.outgoing.closed = false) (hinc : d.incoming.closed = false) :
    ∃ x' d' bs, res = .ok (x', d') ∧ bs ++ d'.incoming.held = d.incoming.held ∧
      Side.Keeps plan r more ⟨.shaking x, taken⟩ d ⟨.shaking x', taken ++ bs⟩ d' := by
  cases hsends with
  | sending hleft =>
    cases hexpects with
    | sending htaken hnext =>
      obtain ⟨x', d', hres, hsame, hkeeps⟩ := keeps_sending h hleft hnext hout
      rw [htaken]
      exact ⟨x', d', [], hres, congrArg Pipe.held hsame, hkeeps⟩
  | receiving =>
    cases hexpects with
    | receiving hshort hnext => exact keeps_receiving hfair h hshort hnext hinc
  | agreed => cases h

/-- A secured stream is set up with the key that was agreed on. -/
theorem keeps_secures {taken : Bytes} {k : SessionKey}
    (hfits : ∀ f ∈ (plan r.opposite).frames, f.Spellable ∧ Admits (plan r).maxRead f)
    (hcount : (plan r.opposite).frames.length ≤ Nonce.last)
    (hexpects : (Stage.shaking (.agreed k)).Expects plan r taken (d.incoming.held ++ more)) :
    Side.Keeps plan r more ⟨.shaking (.agreed k), taken⟩ d
      ⟨.secured (.start r (plan r) k), taken⟩ d := by
  cases hexpects with
  | agreed htaken hnext =>
    refine ⟨.secured ?_, .secured htaken ?_, rfl, rfl, rfl⟩
    · refine ⟨rfl, rfl, Nat.zero_add _, rfl, List.suffix_rfl, List.suffix_rfl, ?_, ?_⟩
      · rintro ⟨⟩
      · rintro ⟨⟩
    · refine ⟨rfl, rfl, rfl, (plan r.opposite).frames, rfl, ?_, Opener.short_nil, ?_, hfits, ?_⟩
      · rw [hnext, speech, Role.outbound_opposite]
        rfl
      · rintro ⟨⟩
      · exact fun _ => Nat.le_trans (Nat.le_of_eq (Nat.zero_add _)) hcount

/-- The writing half goes on, and the reading half stays where it is. -/
theorem keeps_writing {s s' : Secured} {taken : Bytes} {out : Pipe} (hsends : s'.Sends plan r)
    (hexpects : (Stage.secured s).Expects plan r taken (d.incoming.held ++ more))
    (hopener : s'.opener = s.opener) (hcollected : s'.collected = s.collected)
    (hreceived : s'.received = s.received)
    (hunsent : out.held ++ (Stage.secured s').unsent plan r =
      d.outgoing.held ++ (Stage.secured s).unsent plan r)
    (hout : out = { d.outgoing with held := out.held }) :
    Side.Keeps plan r more ⟨.secured s, taken⟩ d ⟨.secured s', taken⟩
      { d with outgoing := out } := by
  cases hexpects with
  | secured htaken h =>
    refine ⟨.secured hsends, .secured htaken ?_, hunsent, hout, rfl⟩
    refine ⟨hopener ▸ h.opening, ?_, hopener ▸ h.maxPlaintext, ?_⟩
    · rw [hopener, hreceived]
      exact h.nonces
    · rw [hopener, hreceived, hcollected]
      exact h.ahead

/-- The next frame is begun. -/
theorem Secured.Sends.begins {s : Secured} (h : s.Sends plan r) {f : Frame} {fs : List Frame}
    {job : Sealer.Job} {sealer : Sealer} (hjob : s.job = none) (htodo : s.todo = f :: fs)
    (hwrite : s.sealer.write f = .ok (job, sealer)) :
    Secured.Sends plan r { s with sealer, job := some job, todo := fs } ∧
      (Stage.secured { s with sealer, job := some job, todo := fs }).unsent plan r =
        (Stage.secured s).unsent plan r := by
  have hleft := Sealer.left_of_write hwrite
  obtain ⟨-, -, hplacing, rfl⟩ := Sealer.write_eq_ok_iff.mp hwrite
  have hunsent : (Stage.secured { s with
      sealer := { s.sealer with nonces.counter := s.sealer.nonces.counter + 1 }
      job := some job, todo := fs }).unsent plan r = (Stage.secured s).unsent plan r := by
    simp only [Stage.unsent, hjob, htodo, Sealer.leftOf, hleft, h.sealing, h.direction, wire,
      List.append_nil, List.append_assoc]
  have hcounter := h.counter
  have hrest := h.todo
  rw [htodo] at hcounter hrest
  refine ⟨⟨h.sealing, h.direction, ?_, h.maxPlaintext, (List.suffix_cons f fs).trans hrest, ?_, ?_,
    fun hflushed => ?_⟩, hunsent⟩
  · rw [List.length_cons] at hcounter
    show s.sealer.nonces.counter + 1 + fs.length = _
    omega
  · rw [hunsent]
    exact h.unsent
  · rw [hplacing]
    rintro ⟨⟩
  · have hnil := (h.flushed hflushed).1
    rw [htodo] at hnil
    cases hnil

/-- Bytes are handed over. -/
theorem Secured.Sends.writes {s : Secured} (h : s.Sends plan r) {job : Sealer.Job}
    {job' : Option Sealer.Job} {sealer : Sealer} {p out : Pipe} (hjob : s.job = some job)
    (hopen : p.closed = false)
    (hadv : s.sealer.advance job p = some (.ok (job', sealer, out))) :
    Secured.Sends plan r { s with sealer, job := job' } ∧
      out.held ++ (Stage.secured { s with sealer, job := job' }).unsent plan r =
        p.held ++ (Stage.secured s).unsent plan r ∧ out = { p with held := out.held } := by
  have hmoved := Sealer.advance_advanced hadv
  obtain ⟨_, _, _, hres, hgoes⟩ := Sealer.goes_advance hopen hadv
  cases hres
  have hplain : job ≠ .closing := fun hclosing => h.job (hjob.trans (congrArg some hclosing))
  have hnonces : sealer.nonces = s.sealer.nonces := by rw [hmoved.sealer]
  have hunsent : out.held ++ (Stage.secured { s with sealer, job := job' }).unsent plan r =
      p.held ++ (Stage.secured s).unsent plan r := by
    have hbytes := congrArg (· ++ wire (key plan) r.outbound s.sealer.nonces.counter s.todo)
      hmoved.bytes
    simp only [Stage.unsent, hjob, hnonces, List.append_assoc] at hbytes ⊢
    exact hbytes
  refine ⟨⟨?_, ?_, ?_, ?_, h.todo, ?_, hgoes.going hplain, fun hflushed => ?_⟩, hunsent, ?_⟩
  · rw [← h.sealing, hmoved.sealer]
  · rw [hnonces]
    exact h.direction
  · rw [hnonces]
    exact h.counter
  · rw [← h.maxPlaintext, hmoved.sealer]
  · -- What is in the pipe only grows, so what is left is a part of what was left.
    obtain ⟨bs, hbs⟩ := hgoes.held
    rw [← hbs, List.append_assoc] at hunsent
    exact .trans ⟨bs, List.append_cancel_left hunsent⟩ h.unsent
  · obtain ⟨htodo, hflushing | ⟨hnone, -⟩⟩ := h.flushed hflushed
    · rw [hjob] at hflushing
      cases hflushing
      refine ⟨htodo, ?_⟩
      cases job' with
      | none => exact .inr ⟨rfl, (hmoved.emptied rfl).2 (by rintro ⟨⟩)⟩
      | some job' =>
        cases Sealer.stepped_of_advance hadv with
        | drains => exact .inl rfl
    · rw [hjob] at hnone
      cases hnone
  · have hcapacity := hmoved.capacity
    have hclosed := (hgoes.opened hplain).trans hopen.symm
    obtain ⟨capacity, held, closed⟩ := out
    obtain rfl : capacity = p.capacity := hcapacity
    obtain rfl : closed = p.closed := hclosed
    rfl

/-- The reading half goes on: it takes the next bytes, and the next frame when it is complete. -/
theorem keeps_reading {s : Secured} {taken : Bytes} {reading : Opener.Reading} {o : Opener}
    {inc : Pipe} (hsends : s.Sends plan r)
    (hexpects : (Stage.secured s).Expects plan r taken (d.incoming.held ++ more))
    (hopen : d.incoming.closed = false)
    (hadv : s.opener.advance s.collected d.incoming = some (reading, o, inc)) :
    Side.Keeps plan r more ⟨.secured s, taken⟩ d ⟨s.reads o reading, taken⟩
      { d with incoming := inc } := by
  cases hexpects with
  | secured htaken h =>
    obtain ⟨gs, hall, hahead⟩ := h.ahead
    have hbefore : s.opener.Ahead s.collected d.incoming more gs := hahead.elsewhere hopen rfl
    have hpipe := Opener.advance_pipe hadv
    have hafter : ∀ {c' gs'}, o.Ahead c' inc more gs' →
        o.Ahead c' { capacity := 0 } (inc.held ++ more) gs' := fun h => h.elsewhere rfl rfl
    cases reading with
    | partly c' =>
      obtain ⟨-, -, ho, -⟩ := Opener.advance_partly hbefore.short hadv
      refine ⟨.secured { hsends with }, .secured htaken ⟨?_, ?_, ?_, gs, hall, ?_⟩, rfl, rfl, hpipe⟩
      · exact (congrArg Opener.key ho).trans h.opening
      · exact (congrArg Opener.nonces ho).trans h.nonces
      · exact (congrArg Opener.maxPlaintext ho).trans h.maxPlaintext
      · exact hafter (hbefore.advance_partly hadv)
    | frame f =>
      obtain ⟨gs', rfl, hrest⟩ := hbefore.advance_frame hadv
      obtain ⟨-, ho, -⟩ := Opener.advance_frame hbefore.short hadv
      refine ⟨.secured { hsends with }, .secured htaken ⟨?_, ?_, ?_, gs', ?_, hafter hrest⟩,
        rfl, rfl, hpipe⟩
      · exact (congrArg Opener.key ho).trans h.opening
      · refine (congrArg Opener.nonces ho).trans ?_
        show (⟨s.opener.nonces.direction, s.opener.nonces.counter + 1⟩ : Nonces) = _
        rw [h.nonces, List.length_append]
        rfl
      · exact (congrArg Opener.maxPlaintext ho).trans h.maxPlaintext
      · rw [← hall, List.append_assoc]
        rfl
    | ended =>
      obtain ⟨-, -, -, hclosed⟩ := Opener.advance_ended hadv
      rw [hopen] at hclosed
      cases hclosed
    | failed e => exact absurd hadv hbefore.not_failed

/-- **Every step of an end keeps what is still to come**, and none fails. -/
theorem Side.Step.keeps (hfair : Fair plan) (h : Side.Step r (plan r) q d q' d')
    (hsends : q.stage.Sends plan r)
    (hexpects : q.stage.Expects plan r q.taken (d.incoming.held ++ more))
    (hout : d.outgoing.closed = false) (hinc : d.incoming.closed = false) :
    Side.Keeps plan r more q d q' d' := by
  obtain ⟨stage, taken⟩ := q
  cases h with
  | exchanges hq h hbs =>
    obtain rfl : stage = _ := hq
    obtain ⟨_, _, _, hres, hbs', hkeeps⟩ := keeps_exchange hfair h hsends hexpects hout hinc
    cases hres
    rwa [List.append_cancel_right (hbs'.trans hbs.symm)] at hkeeps
  | fails hq h =>
    obtain rfl : stage = _ := hq
    obtain ⟨_, _, _, hres, -⟩ := keeps_exchange hfair h hsends hexpects hout hinc
    cases hres
  | secures hq =>
    obtain rfl : stage = _ := hq
    refine keeps_secures (fun f hf => ⟨(hfair.fits _ f hf).spellable, ?_⟩) (hfair.count _) hexpects
    have hadmits := hfair.admits _ f hf
    rwa [Role.opposite_opposite] at hadmits
  | begins hq hjob htodo h =>
    obtain rfl : stage = _ := hq
    cases hsends with
    | secured hs =>
      obtain ⟨hs', hunsent⟩ := hs.begins hjob htodo h
      exact keeps_writing hs' hexpects rfl rfl rfl (congrArg _ hunsent) rfl
  | @refused s f fs e hq hjob htodo h =>
    obtain rfl : stage = _ := hq
    cases hsends with
    | secured hs =>
      have hcounter := hs.counter
      have hrest := hs.todo
      have hcount := hfair.count r
      rw [htodo] at hcounter hrest
      rw [List.length_cons] at hcounter
      have hfits := hfair.fits r f (hrest.subset List.mem_cons_self)
      rw [← hs.maxPlaintext] at hfits
      have hwrite := Sealer.write_eq_ok_iff.mpr
        ⟨hfits, (by omega : s.sealer.nonces.counter < Nonce.last), rfl, rfl⟩
      rw [h] at hwrite
      cases hwrite
  | flushes hq hjob htodo =>
    obtain rfl : stage = _ := hq
    cases hsends with
    | secured hs =>
      have hunsent := hs.unsent
      rw [Stage.unsent, hjob] at hunsent
      refine keeps_writing { hs with unsent := hunsent, job := by rintro ⟨⟩, flushed := ?_ }
        hexpects rfl rfl rfl ?_ rfl
      · exact fun _ => ⟨htodo, .inl rfl⟩
      · simp only [Stage.unsent, hjob]
        rfl
  | writes hq hjob h =>
    obtain rfl : stage = _ := hq
    cases hsends with
    | secured hs =>
      obtain ⟨hs', hunsent, hpipe⟩ := hs.writes hjob hout h
      exact keeps_writing hs' hexpects rfl rfl rfl hunsent hpipe
  | breaks hq hjob h =>
    obtain ⟨_, _, _, hres, -⟩ := Sealer.goes_advance hout h
    cases hres
  | reads hq h =>
    obtain rfl : stage = _ := hq
    cases hsends with
    | secured hs => exact keeps_reading hs hexpects hinc h

/-! ### Every step of either end -/

namespace Meeting

/-- What one end still has to take: what is in its pipe, and what the other end has to hand over. -/
def coming (plan : Role → Plan) (m : Meeting) (r : Role) : Bytes :=
  (m.pipes r.opposite).held ++ (m.sides r.opposite).stage.unsent plan r.opposite

/-- Both ends are where they can be, and what each expects is what the other has to send. -/
structure Sound (plan : Role → Plan) (capacity : Role → Nat) (m : Meeting) : Prop where
  sends : ∀ r, (m.sides r).stage.Sends plan r
  expects : ∀ r, (m.sides r).stage.Expects plan r (m.sides r).taken (m.coming plan r)
  opened : ∀ r, (m.pipes r).closed = false
  capacity : ∀ r, (m.pipes r).capacity = capacity r

variable {capacity : Role → Nat} {m m' : Meeting}

@[simp] theorem sides_put : (m.put r q d).sides r = q := if_pos rfl

@[simp] theorem sides_put_opposite : (m.put r q d).sides r.opposite = m.sides r.opposite :=
  if_neg r.opposite_ne

@[simp] theorem pipes_put : (m.put r q d).pipes r = d.outgoing := if_pos rfl

@[simp] theorem pipes_put_opposite : (m.put r q d).pipes r.opposite = d.incoming :=
  if_neg r.opposite_ne

/-- What holds of one end and of the other holds of both. -/
theorem forall_role {p : Role → Prop} (r : Role) (h : p r) (h' : p r.opposite) : ∀ r', p r' := by
  intro r'
  rcases Role.eq_or_eq_opposite r r' with rfl | rfl
  · exact h
  · rwa [Role.opposite_opposite] at h'

theorem sound_fresh (plan : Role → Plan) (capacity : Role → Nat) :
    (fresh plan capacity).Sound plan capacity where
  sends _ := .sending List.suffix_rfl
  expects _ := .sending rfl rfl
  opened _ := rfl
  capacity _ := rfl

/-- Whatever an end finds of its stream, it is open, and what it finds there comes first of what it
expects. -/
theorem Sound.glimpse (hm : m.Sound plan capacity) {seen : Duplex} {rest : Bytes}
    (hseen : Glimpse (m.stream r) seen rest) :
    seen.outgoing.closed = false ∧ seen.incoming.closed = false ∧
      (m.sides r).stage.Expects plan r (m.sides r).taken (seen.incoming.held ++
        (rest ++ (m.sides r.opposite).stage.unsent plan r.opposite)) := by
  refine ⟨?_, ?_, ?_⟩
  · rw [hseen.outgoing]
    exact hm.opened r
  · rw [hseen.incoming]
    exact hm.opened r.opposite
  · have hheld : seen.incoming.held ++ rest = (m.pipes r.opposite).held := hseen.held
    rw [← List.append_assoc, hheld]
    exact hm.expects r

theorem sound_step (hfair : Fair plan) (hm : m.Sound plan capacity) (h : Step plan m m') :
    m'.Sound plan capacity := by
  obtain @⟨r, seen, seen', rest, q, hseen, h⟩ := h
  obtain ⟨hout, hinc, hexpects⟩ := hm.glimpse hseen
  have hkeeps := h.keeps hfair (hm.sends r) hexpects hout hinc
  have hcoming : seen'.outgoing.held ++ q.stage.unsent plan r = m.coming plan r.opposite := by
    rw [hkeeps.unsent, hseen.outgoing, coming, Role.opposite_opposite]
    rfl
  refine ⟨forall_role r ?_ ?_, forall_role r ?_ ?_, forall_role r ?_ ?_, forall_role r ?_ ?_⟩
  · rw [sides_put]
    exact hkeeps.sends
  · rw [sides_put_opposite]
    exact hm.sends r.opposite
  · rw [sides_put, coming, pipes_put_opposite, sides_put_opposite]
    show q.stage.Expects plan r q.taken (seen'.incoming.held ++ rest ++ _)
    rw [List.append_assoc]
    exact hkeeps.expects
  · rw [sides_put_opposite, coming, Role.opposite_opposite, pipes_put, sides_put]
    show Stage.Expects plan r.opposite _ (seen'.outgoing.held ++ _) _
    rw [hcoming]
    exact hm.expects r.opposite
  · rw [pipes_put]
    exact (congrArg Pipe.closed hkeeps.outgoing).trans hout
  · rw [pipes_put_opposite]
    exact (congrArg Pipe.closed hkeeps.incoming).trans hinc
  · rw [pipes_put]
    exact hm.capacity r
  · rw [pipes_put_opposite]
    refine (congrArg Pipe.capacity hkeeps.incoming).trans ?_
    rw [hseen.incoming]
    exact hm.capacity r.opposite

/-- **Both ends stay in line**, whatever they do. -/
theorem sound_of_leads (hfair : Fair plan) (h : Leads plan (fresh plan capacity) m) :
    m.Sound plan capacity := by
  induction h with
  | refl => exact sound_fresh plan capacity
  | tail _ hstep ih => exact sound_step hfair ih hstep

end Meeting

end
end Parley.Channel
