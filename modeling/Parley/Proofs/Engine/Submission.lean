import Parley.Engine.Pool
import Parley.Proofs.Engine.History

/-! Submitting a call.

A `Submission` is a call that hands an engine a frame to send: a message nobody waits for, a
message, or a request. It is refused exactly if its payload is too long or no more frames are
taken (`refused_iff`).

`Engine.post`, `write` and `request` take a submission as a whole. Carried out one thing after the
other it checks the payload, takes a carrier from the pool, and only then looks whether frames are
still taken, before a number is given, an entry made and the frame queued: that is `Desk.submit`,
in which what was done before a failure stays done. Both come to the same (`after_refused`,
`after_accepted`), so a submission that is refused on the way has left nothing behind. -/
namespace Parley.Engine

/-- A call that hands over a frame. -/
inductive Submission where
  | post (payload : Bytes)
  | write (id : CallId) (payload : Bytes)
  | request (id : CallId) (payload : Bytes) (capacity due : Nat)

namespace Submission

def payload : Submission → Bytes
  | .post payload | .write _ payload | .request _ payload _ _ => payload

/-- The name of the call, if somebody waits for it. -/
def caller : Submission → Option CallId
  | .post _ => none
  | .write id _ | .request id _ _ _ => some id

/-- What the call does to an engine. -/
def submit (e : Engine) : Submission → Except Error Engine
  | .post payload => e.post payload
  | .write id payload => e.write id payload
  | .request id payload capacity due => e.request id payload capacity due

end Submission

variable {e : Engine} {a : Submission} {err : Error}

theorem submit_eq_error (h : a.submit e = .error err) : e.refusal a.payload.length = some err := by
  cases a <;>
    simp only [Submission.submit, Submission.payload, post, write, request] at h ⊢ <;>
    split at h <;> cases h <;> assumption

theorem submit_of_refusal (h : e.refusal a.payload.length = some err) :
    a.submit e = .error err := by
  cases a <;> simp only [Submission.payload] at h <;>
    simp only [Submission.submit, post, write, request, h]

/-- A submission is refused because its payload is too long, or else because no more frames are
taken. -/
theorem refused_iff : a.submit e = .error err ↔
    (e.settings.maxWrite - Frame.seqLength < a.payload.length ∧
      err = .framing (.payloadTooLarge a.payload.length (e.settings.maxWrite - Frame.seqLength))) ∨
    (a.payload.length ≤ e.settings.maxWrite - Frame.seqLength ∧ e.stopped = true ∧
      err = .shutdown) := by
  have hrefusal : a.submit e = .error err ↔ e.refusal a.payload.length = some err :=
    ⟨submit_eq_error, submit_of_refusal⟩
  rw [hrefusal]
  unfold refusal Frame.checkPayload
  by_cases hlong : e.settings.maxWrite - Frame.seqLength < a.payload.length
  · rw [if_pos hlong]
    constructor
    · rintro ⟨⟩
      exact .inl ⟨hlong, rfl⟩
    · rintro (⟨-, rfl⟩ | ⟨hfits, -⟩)
      · rfl
      · exact absurd hlong (Nat.not_lt.mpr hfits)
  · rw [if_neg hlong]
    cases hstopped : e.stopped with
    | false => simp [hlong]
    | true =>
      constructor
      · rintro ⟨⟩
        exact .inr ⟨Nat.le_of_not_lt hlong, rfl, rfl⟩
      · rintro (⟨hover, -⟩ | ⟨-, -, rfl⟩)
        · exact absurd hover hlong
        · rfl

/-! ### One thing after the other -/

/-- An engine, and the pool that its carriers come from. -/
structure Desk where
  engine : Engine
  pool : Pool

/-- What is done at a desk. What was done before a failure stays done. -/
abbrev Desk.Act := ExceptT Error (StateM Desk)

namespace Desk

def check (length : Nat) : Act Unit := do
  match Frame.checkPayload length (← get).engine.settings.maxWrite with
  | .error cause => throw (.framing cause)
  | .ok _ => pure ()

/-- Takes a carrier and loads it. -/
def carry (f : Frame) (waiter : Option CallId) : Act Carrier :=
  modifyGet fun s => ((s.pool.carry f waiter).1, { s with pool := (s.pool.carry f waiter).2 })

/-- Keeps the carrier, or gives it back if no more frames are taken. -/
def keep (c : Carrier) : Act Unit := do
  if (← get).engine.stopped then
    modify fun s => { s with pool := s.pool.release c }
    throw .shutdown
  else pure ()

/-- Gives the next number that no request waits under. -/
def number : Act UInt32 :=
  modifyGet fun s =>
    let (seq, sequence) := s.engine.sequence.nextFree (s.engine.table.map (·.seq))
    (seq, { s with engine := { s.engine with sequence } })

def enter (a : Awaited) : Act Unit :=
  modify fun s => { s with engine := { s.engine with table := s.engine.table ++ [a] } }

def push (c : Carrier) : Act Unit :=
  modify fun s => { s with engine := s.engine.enqueue c.outgoing }

/-- Somebody waits. -/
def await (c : Call) : Act Unit :=
  modify fun s => { s with engine := { s.engine with calls := s.engine.calls ++ [c] } }

/-- A carrier with the payload, if it may be sent and frames are taken. -/
def load (payload : Bytes) (waiter : Option CallId) : Act Carrier := do
  check payload.length
  let c ← carry ⟨Frame.noResponse, payload⟩ waiter
  keep c
  pure c

def submit : Submission → Act Unit
  | .post payload => do
    push (← load payload none)
  | .write id payload => do
    push (← load payload (some id))
    await { id, wait := .written }
  | .request id payload capacity due => do
    let c ← load payload none
    let seq ← number
    enter { seq, call := id, capacity }
    push { c with seq }
    await { id, wait := .response seq due }

/-- What was done, and the desk after it. -/
def after {α : Type} (s : Desk) (x : Act α) : Except Error α × Desk := x.run.run s

variable {s s' : Desk} {α β : Type} {x : Act α} {k : α → Act β} {c : Carrier}

/-- What is done next starts from what was left. -/
theorem after_bind_ok {v : α} (h : s.after x = (.ok v, s')) :
    s.after (x >>= k) = s'.after (k v) := by
  show (match x.run.run s with | (r, s') => (ExceptT.bindCont k r : StateM Desk _) s') = _
  rw [show x.run.run s = _ from h]
  rfl

/-- After a failure nothing is done. -/
theorem after_bind_error (h : s.after x = (.error err, s')) :
    s.after (x >>= k) = (.error err, s') := by
  show (match x.run.run s with | (r, s') => (ExceptT.bindCont k r : StateM Desk _) s') = _
  rw [show x.run.run s = _ from h]
  rfl

theorem after_check_ok {length : Nat}
    (h : Frame.checkPayload length s.engine.settings.maxWrite = .ok ()) :
    s.after (check length) = (.ok (), s) := by
  show s.after (match Frame.checkPayload length s.engine.settings.maxWrite with
    | .error cause => throw (.framing cause)
    | .ok _ => pure ()) = _
  rw [h]
  rfl

theorem after_check_error {length : Nat} {cause : FramingError}
    (h : Frame.checkPayload length s.engine.settings.maxWrite = .error cause) :
    s.after (check length) = (.error (.framing cause), s) := by
  show s.after (match Frame.checkPayload length s.engine.settings.maxWrite with
    | .error cause => throw (.framing cause)
    | .ok _ => pure ()) = _
  rw [h]
  rfl

theorem after_keep (s : Desk) (c : Carrier) : s.after (keep c) =
    if s.engine.stopped then (.error .shutdown, { s with pool := s.pool.release c })
    else (.ok (), s) := by
  show s.after (if s.engine.stopped then _ else _) = _
  split <;> rfl

/-- A payload that is refused leaves the engine as it was. At most a carrier has been taken from
the pool and given back. -/
theorem after_load_error {payload : Bytes} {waiter : Option CallId}
    (h : s.engine.refusal payload.length = some err) :
    ∃ s', s.after (load payload waiter) = (.error err, s') ∧ s'.engine = s.engine ∧
      (s'.pool = s.pool ∨ s'.pool = (s.pool.carry ⟨Frame.noResponse, payload⟩ waiter).2.release
        (s.pool.carry ⟨Frame.noResponse, payload⟩ waiter).1) := by
  unfold refusal at h
  split at h
  · rename_i cause hcheck
    cases h
    exact ⟨s, after_bind_error (after_check_error hcheck), rfl, .inl rfl⟩
  · rename_i hcheck
    split at h
    · rename_i hstopped
      cases h
      have hkeep := (after_keep
        { s with pool := (s.pool.carry ⟨Frame.noResponse, payload⟩ waiter).2 }
        (s.pool.carry ⟨Frame.noResponse, payload⟩ waiter).1).trans (if_pos hstopped)
      refine ⟨⟨s.engine, (s.pool.carry ⟨Frame.noResponse, payload⟩ waiter).2.release
        (s.pool.carry ⟨Frame.noResponse, payload⟩ waiter).1⟩, ?_, rfl, .inr rfl⟩
      rw [load, after_bind_ok (after_check_ok hcheck)]
      exact (after_bind_ok rfl).trans (after_bind_error hkeep)
    · cases h

theorem after_load_ok {payload : Bytes} {waiter : Option CallId}
    (h : s.engine.refusal payload.length = none) :
    s.after (load payload waiter) = (.ok (s.pool.carry ⟨Frame.noResponse, payload⟩ waiter).1,
      { s with pool := (s.pool.carry ⟨Frame.noResponse, payload⟩ waiter).2 }) := by
  obtain ⟨hcheck, hopen⟩ := refusal_eq_none h
  have hkeep := (after_keep
    { s with pool := (s.pool.carry ⟨Frame.noResponse, payload⟩ waiter).2 }
    (s.pool.carry ⟨Frame.noResponse, payload⟩ waiter).1).trans
      (if_neg (Bool.eq_false_iff.mp hopen))
  exact (after_bind_ok (after_check_ok hcheck)).trans
    ((after_bind_ok rfl).trans (after_bind_ok hkeep))

/-- A submission that is refused on the way has left nothing behind. -/
theorem after_refused (h : a.submit s.engine = .error err) :
    ∃ s', s.after (submit a) = (.error err, s') ∧ s'.engine = s.engine := by
  have hrefusal := submit_eq_error h
  cases a <;>
    (obtain ⟨s', hload, hengine, -⟩ := after_load_error hrefusal
     exact ⟨s', after_bind_error hload, hengine⟩)

/-- One that is accepted has done what the call does, if carriers carry what they are loaded
with. -/
theorem after_accepted {e' : Engine} (h : a.submit s.engine = .ok e')
    (hcarry : ∀ f waiter, (s.pool.carry f waiter).1.outgoing = { frame := f, waiter }) :
    ∃ s', s.after (submit a) = (.ok (), s') ∧ s'.engine = e' := by
  have htaken : s.engine.refusal a.payload.length = none := by
    cases hrefusal : s.engine.refusal a.payload.length with
    | none => rfl
    | some err => rw [submit_of_refusal hrefusal] at h; cases h
  cases a with
  | post payload =>
    obtain ⟨-, rfl⟩ := post_eq_ok h
    refine ⟨_, (after_bind_ok (after_load_ok htaken)).trans rfl, ?_⟩
    exact congrArg s.engine.enqueue (hcarry _ _)
  | write id payload =>
    obtain ⟨-, rfl⟩ := write_eq_ok h
    refine ⟨_, (after_bind_ok (after_load_ok htaken)).trans rfl, ?_⟩
    dsimp only
    rw [hcarry]
    rfl
  | request id payload capacity due =>
    obtain ⟨-, rfl⟩ := request_eq_ok h
    refine ⟨_, (after_bind_ok (after_load_ok htaken)).trans rfl, ?_⟩
    -- The number is put on the carrier after it is loaded.
    obtain ⟨hframe, hwaiter⟩ := Outgoing.mk.inj (hcarry ⟨Frame.noResponse, payload⟩ none)
    dsimp only [Carrier.outgoing, Submission.payload]
    rw [(Frame.mk.inj hframe).2, hwaiter]
    rfl

end Desk

end Parley.Engine
