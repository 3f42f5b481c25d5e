import Parley.Channel.Key
import Parley.Channel.Nonce
import Parley.Channel.Pipe
import Parley.Crypto.Aead
import Parley.Frame

/-! The writing half of a secured stream.

A frame is sealed as a 4-byte length and the ciphertext, the length being the
associated data, and handed over as these two pieces. Pieces collect in a buffer in
front of the pipe: a piece that does not fit makes the whole buffer be written first,
and a piece at least as large as the buffer bypasses it. What the pipe takes of a
buffer that is being written keeps its place there until the last byte is out, so no
piece slips in before. `flush` empties the buffer into the pipe; `close` does so and
then closes the pipe.

A call is a `Job`, and `advance` is one step of it: each step moves bytes once, or
waits for room. -/
namespace Parley.Channel

/-- The buffer in front of a pipe. -/
structure Outlet where
  capacity : Nat
  /-- The bytes that are still to go out. -/
  held : Bytes := []
  /-- How many have gone out and keep their place until the others have, too. -/
  written : Nat := 0
  cleared : held = [] → written = 0 := by intro _; rfl
  deriving Repr, DecidableEq

namespace Outlet

/-- How much of the buffer is taken up. -/
def size (o : Outlet) : Nat := o.written + o.held.length

def put (o : Outlet) (piece : Bytes) : Outlet :=
  { o with
    held := o.held ++ piece
    cleared := fun h => o.cleared (List.append_eq_nil_iff.mp h).1 }

/-- The buffer when all but the last bytes are out. With the last byte it is empty again. -/
def keep (o : Outlet) (rest : Bytes) : Outlet where
  capacity := o.capacity
  held := rest
  written := if rest = [] then 0 else o.written + (o.held.length - rest.length)
  cleared h := if_pos h

/-- Moves what fits from the buffer into the pipe. -/
def drain (o : Outlet) (p : Pipe) : Option (Except IoError (Outlet × Pipe)) :=
  (p.push o.held).map fun r => r.map fun (rest, p) => (o.keep rest, p)

/-- The bytes that have gone out give up their place. -/
def compact (o : Outlet) : Outlet := { o with written := 0, cleared := fun _ => rfl }

end Outlet

/-- The state of a writing half: key, nonces, largest plaintext, and the buffer. -/
structure Sealer where
  key : SessionKey
  nonces : Nonces
  maxPlaintext : Nat
  outlet : Outlet

namespace Sealer

/-- A buffer holds one largest frame. -/
def create (key : SessionKey) (role : Role) (maxPlaintext : Nat) (counter : Nat := 0) : Sealer where
  key
  nonces := ⟨role.outbound, counter⟩
  maxPlaintext
  outlet := { capacity := maxPlaintext + Frame.prefixLength + Frame.tagLength }

/-- The ciphertext of a frame under a nonce, and the length that precedes it. -/
def pieces (key : SessionKey) (nonce : Bytes) (f : Frame) : Bytes × Bytes :=
  let plaintext := f.encode
  let header := Bytes.ofNatBE Frame.prefixLength (plaintext.length + Frame.tagLength)
  (header, Crypto.Aead.encrypt key.bytes nonce header plaintext)

/-- What is left of a call. -/
inductive Job where
  | placing (pieces : List Bytes)
  | flushing
  | closing
  deriving Repr, DecidableEq

/-- Starts writing a frame: checks that its payload may be sent and that its length can be
spelled, spends a nonce and seals it. A rejected frame spends nothing. -/
def write (s : Sealer) (f : Frame) : Except Error (Job × Sealer) :=
  match Frame.checkPayload f.payload.length s.maxPlaintext with
  | .error e => .error (.framing e)
  | .ok _ =>
    if f.encode.length + Frame.tagLength ≥ UInt32.size then
      .error (.framing (.payloadTooLarge f.payload.length s.maxPlaintext))
    else
      match s.nonces.next with
      | .error e => .error (.crypto e)
      | .ok (nonce, nonces) =>
        let (header, body) := pieces s.key nonce f
        .ok (.placing [header, body], { s with nonces })

/-- Empties the buffer into the pipe by one transfer, then goes on with `job`. -/
def drainFor (job : Job) (s : Sealer) (p : Pipe) :
    Option (Except IoError (Option Job × Sealer × Pipe)) :=
  (s.outlet.drain p).map fun r => r.map fun (outlet, p) => (some job, { s with outlet }, p)

/-- One step of a call: `none` for the job when it is done; waits while the pipe is full. -/
def advance (job : Job) (s : Sealer) (p : Pipe) :
    Option (Except IoError (Option Job × Sealer × Pipe)) :=
  match job with
  | .placing [] => some (.ok (none, s, p))
  | .placing (piece :: rest) =>
    if s.outlet.held ≠ [] ∧ s.outlet.size + piece.length > s.outlet.capacity then
      s.drainFor job p
    else if piece.length ≥ s.outlet.capacity then
      (p.push piece).map fun r => r.map fun (left, p) =>
        (some (.placing (if left = [] then rest else left :: rest)), s, p)
    else
      some (.ok (some (.placing rest), { s with outlet := s.outlet.put piece }, p))
  | .flushing =>
    if s.outlet.held = [] then some (.ok (none, s, p)) else s.drainFor job p
  | .closing =>
    if s.outlet.held = [] then some (.ok (none, s, p.close)) else s.drainFor job p

/-- After a step that failed only what has not gone out is left in the buffer. -/
def failed (s : Sealer) : Sealer := { s with outlet := s.outlet.compact }

/-! ### Sealed lengths -/

theorem length_pieces (key : SessionKey) (nonce : Bytes) (f : Frame) :
    (pieces key nonce f).1.length = Frame.prefixLength ∧
      (pieces key nonce f).2.length = Frame.seqLength + f.payload.length + Frame.tagLength := by
  simp [pieces, Crypto.Aead.tagLength, Frame.tagLength]

end Sealer
end Parley.Channel
