import Parley.Channel.Key
import Parley.Channel.Nonce
import Parley.Channel.Pipe
import Parley.Crypto.Aead
import Parley.Frame

/-! The reading half of a secured stream.

Bytes are read ahead from the pipe into a buffer that holds one largest frame. A frame
is collected from it: first the four bytes of the length, which is checked before
anything else is taken, then the ciphertext, which is opened under the next nonce with
the length as associated data. A stream that ends between frames ends cleanly; one that
ends inside a frame does not.

`advance` is one step of a read call, given what of the frame is collected so far. -/
namespace Parley.Channel

/-- The state of a reading half: key, nonces, largest plaintext, and what is read ahead. -/
structure Opener where
  key : SessionKey
  nonces : Nonces
  maxPlaintext : Nat
  ahead : Bytes := []

namespace Opener

def create (key : SessionKey) (role : Role) (maxPlaintext : Nat) (counter : Nat := 0) : Opener where
  key
  nonces := ⟨role.inbound, counter⟩
  maxPlaintext

/-- How many bytes are read ahead at most: one largest frame. -/
def capacity (o : Opener) : Nat := o.maxPlaintext + Frame.prefixLength + Frame.tagLength

/-- Where a read call stands after a step. -/
inductive Reading where
  /-- More is needed; these bytes of the frame are collected. -/
  | partly (collected : Bytes)
  /-- The stream ended between two frames. -/
  | ended
  | frame (f : Frame)
  | failed (e : Error)
  deriving Repr, DecidableEq

/-- The length that the first four bytes declare. -/
def declared (collected : Bytes) : Nat := Bytes.toNatBE (collected.take Frame.prefixLength)

/-- How many bytes the frame has, as far as it is known. -/
def needed (collected : Bytes) : Nat :=
  if collected.length < Frame.prefixLength then Frame.prefixLength
  else Frame.prefixLength + declared collected

/-- Opens a ciphertext under the next nonce. The nonce is spent even if the tag is wrong. -/
def decrypt (o : Opener) (header body : Bytes) : Except Error Frame × Opener :=
  match o.nonces.next with
  | .error e => (.error (.crypto e), o)
  | .ok (nonce, nonces) =>
    let o := { o with nonces }
    match Crypto.Aead.decrypt? o.key.bytes nonce header body with
    | none => (.error (.crypto .authentication), o)
    | some plaintext =>
      match Frame.decode plaintext with
      | .error e => (.error (.framing e), o)
      | .ok f => (.ok f, o)

/-- Looks at what is collected: a length to check, a frame to open, or neither yet. -/
def inspect (o : Opener) (collected : Bytes) : Reading × Opener :=
  if collected.length < Frame.prefixLength then (.partly collected, o)
  else
    match Frame.checkCiphertext (declared collected) o.maxPlaintext with
    | .error e => (.failed (.framing e), o)
    | .ok _ =>
      if collected.length < needed collected then (.partly collected, o)
      else
        match o.decrypt (collected.take Frame.prefixLength) (collected.drop Frame.prefixLength) with
        | (.ok f, o) => (.frame f, o)
        | (.error e, o) => (.failed e, o)

/-- One step of a read call; waits while nothing has arrived. -/
def advance (collected : Bytes) (o : Opener) (p : Pipe) : Option (Reading × Opener × Pipe) :=
  if o.ahead = [] then
    match p.pull o.capacity with
    | none => none
    | some ([], p) =>
      some (if collected = [] then .ended else .failed (.io .unexpectedEof), o, p)
    | some (bs, p) => some (.partly collected, { o with ahead := bs }, p)
  else
    let n := needed collected - collected.length
    let (reading, o) :=
      { o with ahead := o.ahead.drop n }.inspect (collected ++ o.ahead.take n)
    some (reading, o, p)

end Opener
end Parley.Channel
