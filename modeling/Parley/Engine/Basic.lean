import Parley.Channel.Opener
import Parley.Channel.Sealer
import Parley.Engine.Settings
import Parley.Metrics
import Parley.Sequence

/-! The connection engine: its state and what it reports.

An engine serialises outbound frames into one queue, matches responses with the
requests that wait for them, and hands every other frame to the application. It drives
one stream: a write loop that empties the queue batch by batch, a read loop that
dispatches frames one at a time, and a supervisor that ends both.

Every step of an engine is atomic and takes effect between two waits. Callers add to
the queue and then owe the write loop a notification, in two steps; a notification that
finds nobody waiting is stored, once. -/
namespace Parley

/-- Names a call, so that its outcome can be told apart from others'. -/
abbrev CallId := Nat

namespace Engine

/-- What a call comes to. -/
inductive Outcome where
  | done
  | response (payload : Bytes)
  | failed (e : Error)
  deriving Repr, DecidableEq

inductive Phase where
  /-- Takes frames, not yet attached to a stream. -/
  | idle
  | running
  /-- The stream is gone for good. -/
  | closed
  deriving Repr, DecidableEq

/-- A frame in the queue, and the call that waits for it to be handed to the stream. -/
structure Outgoing where
  frame : Frame
  waiter : Option CallId := none
  deriving Repr, DecidableEq

/-- A request that waits for its response, and how much its caller can take. -/
structure Awaited where
  seq : UInt32
  call : CallId
  capacity : Nat
  deriving Repr, DecidableEq

/-- What a caller is waiting for. -/
inductive Wait where
  /-- Its frame to be handed to the stream. -/
  | written
  /-- The response to its request, until a deadline. -/
  | response (seq : UInt32) (due : Nat)
  deriving Repr, DecidableEq

/-- A call that has not returned, and the answer it will find when it looks. -/
structure Call where
  id : CallId
  wait : Wait
  answer : Option Outcome := none
  deriving Repr, DecidableEq

/-! ### The loops over a stream -/

/-- Where the write loop is. -/
inductive WriteLoop where
  /-- About to look at the queue. -/
  | looking
  /-- Waiting to be notified. -/
  | waiting
  /-- About to start on a batch's next frame; `count` is the size of the batch. -/
  | next (batch : List Outgoing) (count : Nat)
  /-- Handing over a frame, under a deadline. -/
  | writing (job : Channel.Sealer.Job) (due : Nat) (current : Outgoing) (rest : List Outgoing)
      (count : Nat)
  /-- Flushing after a batch, under a deadline. -/
  | flushing (due : Nat) (count : Nat)
  | ended
  deriving Repr, DecidableEq

/-- Where the read loop is. -/
inductive ReadLoop where
  /-- Reading a frame, perhaps under a deadline. -/
  | reading (collected : Bytes) (due : Option Nat)
  /-- The application has a frame. -/
  | handling (f : Frame)
  | ended
  deriving Repr, DecidableEq

/-- Where the supervisor of the two loops is. -/
inductive Control where
  /-- Waiting for cancellation or the end of either loop. -/
  | serving
  /-- Waiting for the write loop to end; this is the result so far. -/
  | draining (result : Except Error Unit)
  /-- Closing the stream, under a deadline. -/
  | closing (result : Except Error Unit) (due : Nat)

/-- A stream being driven. -/
structure Drive where
  sealer : Channel.Sealer
  opener : Channel.Opener
  writing : WriteLoop := .looking
  reading : ReadLoop
  control : Control := .serving

end Engine

structure Engine where
  settings : Engine.Settings
  phase : Engine.Phase := .idle
  /-- Whether new frames are refused. -/
  stopped : Bool := false
  /-- Frames that wait for the write loop, oldest first. -/
  queue : List Engine.Outgoing := []
  /-- Requests that wait for their responses. -/
  table : List Engine.Awaited := []
  sequence : Sequence := {}
  /-- Notifications between their two steps. -/
  owed : Nat := 0
  /-- Whether a notification is stored. -/
  notified : Bool := false
  calls : List Engine.Call := []
  drive : Option Engine.Drive := none

namespace Engine

/-- What an engine reports of a step. -/
inductive Event where
  /-- The application was handed a frame. -/
  | delivered (f : Frame)
  /-- A frame was read. -/
  | received (f : Frame)
  /-- A frame was handed to the stream. -/
  | written (o : Outgoing)
  /-- So many frames were written and flushed. -/
  | sent (count : Nat)
  /-- Writing or flushing failed, or took too long. -/
  | writeFailed (e : Error)
  /-- Closing the stream failed, or took too long. -/
  | closeFailed (e : Error)
  | requestTimedOut
  /-- A call returned. -/
  | returned (call : CallId) (o : Outcome)
  /-- The stream is no longer driven. -/
  | ended (result : Except Error Unit)

/-- Takes a step's event into the counters. -/
def Event.count (m : Metrics) : Event → Metrics
  | .received _ => { m with received := m.received + 1 }
  | .sent n => { m with sent := m.sent + n }
  | .requestTimedOut => { m with requestTimeouts := m.requestTimeouts + 1 }
  | _ => m

/-- What a step depends on besides the engine and its stream. -/
structure Env where
  now : Nat
  /-- Whether the engine is told to stop. -/
  cancelled : Bool
  /-- Whether the application returns from a callback. -/
  attentive : Bool
  /-- The application's reply to a request. -/
  reply : Bytes → Option Bytes

/-- What a step leads to: waiting, or a new engine and stream and what happened. -/
abbrev Step := Option (Engine × Channel.Duplex × List Event)

/-- The requests that wait for a response. -/
def pending (e : Engine) : Nat := e.table.length

end Engine
end Parley
