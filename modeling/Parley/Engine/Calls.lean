import Parley.Engine.Basic

/-! Calls into an engine.

A call checks its payload first and then whether frames are still taken; a call that is
refused leaves the engine as it was. An accepted frame goes to the end of the queue. A
request is entered in the table in the same step in which its frame is queued, under the
next sequence number that no other request waits under.

A caller that stops waiting, by returning or by being dropped, takes its own entry out of
the table and no other. -/
namespace Parley.Engine

/-- Queues a frame; the write loop is still to be notified. -/
def enqueue (e : Engine) (o : Outgoing) : Engine :=
  { e with queue := e.queue ++ [o], owed := e.owed + 1 }

/-- Why a frame with a payload of this length is refused, if it is. -/
def refusal (e : Engine) (length : Nat) : Option Error :=
  match Frame.checkPayload length e.settings.maxWrite with
  | .error cause => some (.framing cause)
  | .ok _ => if e.stopped then some .shutdown else none

/-- Queues a message nobody waits for. -/
def post (e : Engine) (payload : Bytes) : Except Error Engine :=
  match e.refusal payload.length with
  | some err => .error err
  | none => .ok (e.enqueue { frame := ⟨Frame.noResponse, payload⟩ })

/-- Queues a message; the call waits until it is handed to the stream. -/
def write (e : Engine) (id : CallId) (payload : Bytes) : Except Error Engine :=
  match e.refusal payload.length with
  | some err => .error err
  | none =>
    let e := e.enqueue { frame := ⟨Frame.noResponse, payload⟩, waiter := some id }
    .ok { e with calls := e.calls ++ [{ id, wait := .written }] }

/-- Queues a request; the call waits for the response until the deadline. -/
def request (e : Engine) (id : CallId) (payload : Bytes) (capacity due : Nat) :
    Except Error Engine :=
  match e.refusal payload.length with
  | some err => .error err
  | none =>
    let (seq, sequence) := e.sequence.nextFree (e.table.map (·.seq))
    let e := e.enqueue { frame := ⟨seq, payload⟩ }
    .ok { e with
      sequence
      table := e.table ++ [{ seq, call := id, capacity }]
      calls := e.calls ++ [{ id, wait := .response seq due }] }

/-! ### Answers -/

/-- Leaves an answer for a call, if it still waits and has none. -/
def answer (e : Engine) (id : CallId) (o : Outcome) : Engine :=
  { e with calls := e.calls.map fun c =>
      if c.id = id ∧ c.answer.isNone then { c with answer := some o } else c }

/-- Tells the call that waits for a frame, if any, whether it was handed to the stream. -/
def complete (e : Engine) (o : Outgoing) (written : Bool) : Engine :=
  match o.waiter with
  | none => e
  | some id => e.answer id (if written then .done else .failed .closed)

def completeAll (e : Engine) (os : List Outgoing) (written : Bool) : Engine :=
  os.foldl (fun e o => e.complete o written) e

/-! ### Returning and giving up -/

def isWaiting (e : Engine) (id : CallId) : Bool := e.calls.any (·.id == id)

/-- Takes the entry under a sequence number out of the table if its caller is gone. -/
def releaseEntry (e : Engine) (seq : UInt32) : Engine :=
  { e with table := e.table.filter fun a => a.seq != seq || e.isWaiting a.call }

/-- The call is over: it waits no more, and its entry is released. -/
def leave (e : Engine) (c : Call) : Engine :=
  let e := { e with calls := e.calls.filter (·.id != c.id) }
  match c.wait with
  | .written => e
  | .response seq _ => e.releaseEntry seq

/-- A caller is dropped. -/
def giveUp (e : Engine) (id : CallId) : Engine :=
  match e.calls.find? (·.id == id) with
  | none => e
  | some c => e.leave c

/-- One step of a waiting call: it returns with its answer, or at its deadline without
one. An answer that is there at the deadline wins. -/
def stepCall (now : Nat) (id : CallId) (e : Engine) (d : Channel.Duplex) : Step :=
  match e.calls.find? (·.id == id) with
  | none => none
  | some c =>
    match c.answer, c.wait with
    | some o, _ => some (e.leave c, d, [.returned id o])
    | none, .written => none
    | none, .response _ due =>
      if due ≤ now then
        some (e.leave c, d, [.requestTimedOut, .returned id (.failed (.timeout .request))])
      else none

end Parley.Engine
