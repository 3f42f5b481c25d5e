import Parley.Deadline
import Parley.Engine.Calls

/-! Driving a stream: the end of it, and the two loops.

The write loop takes the whole queue as a batch, hands its frames to the stream one by
one, each under a deadline, and flushes once at the end. The first failure is final: the
rest of the batch is refused and nothing more is written.

The read loop dispatches each frame before it reads the next: a message goes to the
application; a response to the request that waits for it; any other frame to the
application as a request, whose reply is queued under the same sequence number.

What ends the drive first decides its result. On cancellation, and at the end of the
read loop, no more frames are taken and the write loop empties the queue; unless writing
failed, the stream is then flushed and closed under a deadline. Work that can go on
always goes before a deadline that has passed. -/
namespace Parley.Engine
open Channel

/-! ### Beginning and ending -/

/-- The engine with its drive where it is now. -/
def driving (e : Engine) (r : Drive) : Engine := { e with drive := some r }

/-- When a wait for a frame that starts now is over. -/
def readDue (e : Engine) (now : Nat) : Option Nat := dueAfter e.settings.readTimeout now

/-- When a write that starts now is over. -/
def writeDue (e : Engine) (now : Nat) : Nat := now + e.settings.writeTimeout

/-- Attaches a stream. An engine drives one stream in its life. -/
def start (e : Engine) (now : Nat) (sealer : Sealer) (opener : Opener) : Except Error Engine :=
  match e.phase with
  | .idle =>
    let e := e.driving { sealer, opener, reading := .reading [] (e.readDue now) }
    .ok { e with phase := .running }
  | _ => .error .closed

/-- Refuses new frames; the write loop is still to be notified. -/
def stop (e : Engine) : Engine := { e with stopped := true, owed := e.owed + 1 }

/-- The drive is over: everything that waits is refused, and the stream is given up. This
is reported after what brought it about. -/
def finish (e : Engine) (d : Duplex) (result : Except Error Unit) (causes : List Event) : Step :=
  let refused := e.completeAll e.queue false
  let refused := e.table.foldl (fun e a => e.answer a.call (.failed .closed)) refused
  some ({ refused with phase := .closed, stopped := true, queue := [], table := [], drive := none },
    d.hangUp, causes ++ [.ended result])

/-- The frames of the batch in the write loop's hands. -/
def WriteLoop.batch : WriteLoop → List Outgoing
  | .next batch _ => batch
  | .writing _ _ current rest _ => current :: rest
  | _ => []

/-- The drive is dropped: the stream is given up and the calls whose frames were in the
write loop's hands are refused; all else stays as it is, with nobody to serve it. -/
def abandon (e : Engine) (d : Duplex) : Engine × Duplex :=
  match e.drive with
  | none => (e, d)
  | some r => ({ (e.completeAll r.writing.batch false) with drive := none }, d.hangUp)

/-- Closes the stream under a deadline, then finishes. -/
def close (e : Engine) (now : Nat) (r : Drive) (result : Except Error Unit) : Engine :=
  e.stop.driving { r with writing := .ended, control := .closing result (e.writeDue now) }

/-- The write loop has ended. -/
def writeLoopEnds (e : Engine) (now : Nat) (r : Drive) (d : Duplex) (res : Except Error Unit) :
    Step :=
  let result := match r.control with
    | .serving => res
    | .draining result => result
    | .closing result _ => result
  match res with
  | .ok _ => some (e.close now r result, d, [])
  | .error err => e.stop.finish d result [.writeFailed err]

/-- The read loop has ended. While the queue is being emptied this changes nothing else. -/
def readLoopEnds (e : Engine) (r : Drive) (res : Except Error Unit) : Engine :=
  let r := { r with reading := .ended }
  match r.control with
  | .serving => e.stop.driving { r with control := .draining res }
  | _ => e.driving r

/-! ### The supervisor -/

/-- Takes up a cancellation: no more frames, and the queue is emptied. -/
def stepCancel (env : Env) (e : Engine) (d : Duplex) : Step :=
  match e.drive with
  | some r =>
    match r.control with
    | .serving =>
      if env.cancelled then
        some (e.stop.driving { r with control := .draining (.ok ()) }, d, [])
      else none
    | _ => none
  | none => none

/-- Closes the stream, step by step. How closing goes does not change the result. -/
def stepClose (env : Env) (e : Engine) (d : Duplex) : Step :=
  match e.drive with
  | some r =>
    match r.control with
    | .closing result due =>
      match r.sealer.advance .closing d.outgoing with
      | some (.error err) => e.finish d result [.closeFailed (.io err)]
      | some (.ok (none, _, outgoing)) => e.finish { d with outgoing } result []
      | some (.ok (some _, sealer, outgoing)) =>
        some (e.driving { r with sealer }, { d with outgoing }, [])
      | none =>
        (expired (some due) .write env.now).bind fun err => e.finish d result [.closeFailed err]
    | _ => none
  | none => none

/-! ### The write loop -/

/-- Delivers one notification: it is stored until the write loop takes it. -/
def stepNotify (e : Engine) (d : Duplex) : Step :=
  if e.owed = 0 then none else some ({ e with owed := e.owed - 1, notified := true }, d, [])

/-- Takes the whole queue as a batch, or ends, or waits to be notified. -/
def takeBatch (env : Env) (e : Engine) (r : Drive) (d : Duplex) : Step :=
  if e.queue ≠ [] then
    let batch := e.queue
    some ({ e with queue := [] }.driving { r with writing := .next batch batch.length }, d, [])
  else if e.stopped then e.writeLoopEnds env.now r d (.ok ())
  else some (e.driving { r with writing := .waiting }, d, [])

/-- Writing failed: this frame and the rest of the batch are refused. -/
def writeFails (env : Env) (e : Engine) (r : Drive) (d : Duplex) (batch : List Outgoing)
    (err : Error) : Step :=
  (e.completeAll batch false).writeLoopEnds env.now r d (.error err)

/-- Starts on a batch's next frame, or on flushing after the last. -/
def startFrame (env : Env) (e : Engine) (r : Drive) (d : Duplex) (count : Nat) :
    List Outgoing → Step
  | [] => some (e.driving { r with writing := .flushing (e.writeDue env.now) count }, d, [])
  | o :: rest =>
    match r.sealer.write o.frame with
    | .error err => e.writeFails env r d (o :: rest) err
    | .ok (job, sealer) =>
      let writing := .writing job (e.writeDue env.now) o rest count
      some (e.driving { r with sealer, writing }, d, [])

def stepWrite (env : Env) (e : Engine) (d : Duplex) : Step :=
  match e.drive with
  | none => none
  | some r =>
    match r.writing with
    | .looking => e.takeBatch env r d
    | .waiting =>
      if e.notified then
        some ({ e with notified := false }.driving { r with writing := .looking }, d, [])
      else none
    | .next batch count => e.startFrame env r d count batch
    | .writing job due current rest count =>
      match r.sealer.advance job d.outgoing with
      | some (.error err) => e.writeFails env r d (current :: rest) (.io err)
      | some (.ok (some job, sealer, outgoing)) =>
        let writing := .writing job due current rest count
        some (e.driving { r with sealer, writing }, { d with outgoing }, [])
      | some (.ok (none, sealer, outgoing)) =>
        let e := e.complete current true
        let r := { r with sealer, writing := .next rest count }
        some (e.driving r, { d with outgoing }, [.written current])
      | none =>
        (expired (some due) .write env.now).bind (e.writeFails env r d (current :: rest))
    | .flushing due count =>
      match r.sealer.advance .flushing d.outgoing with
      | some (.error err) => e.writeLoopEnds env.now r d (.error (.io err))
      | some (.ok (some _, sealer, outgoing)) =>
        some (e.driving { r with sealer }, { d with outgoing }, [])
      | some (.ok (none, sealer, outgoing)) =>
        let e := e.driving { r with sealer, writing := .looking }
        some (e, { d with outgoing }, [.sent count])
      | none =>
        (expired (some due) .write env.now).bind fun err =>
          e.writeLoopEnds env.now r d (.error err)
    | .ended => none

/-! ### The read loop -/

/-- Goes on to the next frame. -/
def readOn (env : Env) (e : Engine) (r : Drive) : Engine :=
  e.driving { r with reading := .reading [] (e.readDue env.now) }

/-- Gives a response to the request that waits for it. One that the caller cannot take
fails the request and ends the read loop. -/
def resolve (env : Env) (e : Engine) (r : Drive) (a : Awaited) (payload : Bytes) : Engine :=
  let e := { e with table := e.table.filter (·.seq != a.seq) }
  if payload.length > a.capacity then
    let err := Error.framing (.responseTooLarge a.seq payload.length a.capacity)
    (e.answer a.call (.failed err)).readLoopEnds r (.error err)
  else (e.answer a.call (.response payload)).readOn env r

/-- Sends a frame that was read to where it belongs. -/
def dispatch (env : Env) (e : Engine) (r : Drive) (f : Frame) : Engine :=
  let handle := e.driving { r with reading := .handling f }
  if f.isMessage then handle
  else
    match e.table.find? (·.seq == f.seq) with
    | some a => e.resolve env r a f.payload
    | none => handle

/-- Queues the reply to a request. A reply that is too long, or comes when no more frames
are taken, is dropped. -/
def reply (e : Engine) (seq : UInt32) (payload : Bytes) : Engine :=
  match e.refusal payload.length with
  | some _ => e
  | none => e.enqueue { frame := ⟨seq, payload⟩ }

/-- The application returns from a callback. -/
def handled (env : Env) (e : Engine) (r : Drive) (f : Frame) : Engine :=
  let e := e.readOn env r
  if f.isMessage then e
  else
    match env.reply f.payload with
    | none => e
    | some payload => e.reply f.seq payload

/-- The read loop is no longer served once the stream is being closed. -/
def Control.reads : Control → Bool
  | .closing .. => false
  | _ => true

def stepRead (env : Env) (e : Engine) (d : Duplex) : Step :=
  match e.drive with
  | none => none
  | some r =>
    if !r.control.reads then none
    else
      match r.reading with
      | .ended => none
      | .handling f =>
        if env.attentive then some (e.handled env r f, d, [.delivered f]) else none
      | .reading collected due =>
        match r.opener.advance collected d.incoming with
        | none =>
          (expired due .read env.now).map fun err => (e.readLoopEnds r (.error err), d, [])
        | some (reading, opener, incoming) =>
          let r := { r with opener }
          let d := { d with incoming }
          match reading with
          | .partly collected =>
            some (e.driving { r with reading := .reading collected due }, d, [])
          | .ended => some (e.readLoopEnds r (.ok ()), d, [])
          | .failed err => some (e.readLoopEnds r (.error err), d, [])
          | .frame f => some (e.dispatch env r f, d, [.received f])

end Parley.Engine
