import Parley.Bytes

/-! Text as bytes.

`decodeLossy` reads any bytes as text: each longest piece that starts like a character but
does not finish as one, and each byte that starts none, becomes one replacement character.
`decode?` refuses instead. -/
namespace Parley.Utf8

def encode (s : String) : Bytes := s.toList.flatMap String.utf8EncodeChar

def replacement : Char := '\uFFFD'

def between (b : UInt8) (low high : Nat) : Bool := low ≤ b.toNat && b.toNat ≤ high

def isContinuation (b : UInt8) : Bool := between b 0x80 0xBF

/-- The low six bits of a continuation byte. -/
def bits (b : UInt8) : Nat := b.toNat % 64

/-- Whether a second byte can follow the first byte of a three-byte character. -/
def secondOfThree (b0 b1 : UInt8) : Bool :=
  if b0 = 0xE0 then between b1 0xA0 0xBF
  else if b0 = 0xED then between b1 0x80 0x9F
  else isContinuation b1

/-- Whether a second byte can follow the first byte of a four-byte character. -/
def secondOfFour (b0 b1 : UInt8) : Bool :=
  if b0 = 0xF0 then between b1 0x90 0xBF
  else if b0 = 0xF4 then between b1 0x80 0x8F
  else isContinuation b1

/-- Reads one character, or one piece that is none; the number is the bytes it takes. -/
def read (b0 : UInt8) (rest : Bytes) : Option Char × Nat :=
  if b0.toNat < 0x80 then (some (Char.ofNat b0.toNat), 1)
  else if between b0 0xC2 0xDF then
    match rest with
    | b1 :: _ =>
      if isContinuation b1 then (some (Char.ofNat (b0.toNat % 32 * 64 + bits b1)), 2)
      else (none, 1)
    | [] => (none, 1)
  else if between b0 0xE0 0xEF then
    match rest with
    | b1 :: rest =>
      if secondOfThree b0 b1 then
        match rest with
        | b2 :: _ =>
          if isContinuation b2 then
            (some (Char.ofNat ((b0.toNat % 16 * 64 + bits b1) * 64 + bits b2)), 3)
          else (none, 2)
        | [] => (none, 2)
      else (none, 1)
    | [] => (none, 1)
  else if between b0 0xF0 0xF4 then
    match rest with
    | b1 :: rest =>
      if secondOfFour b0 b1 then
        match rest with
        | b2 :: rest =>
          if isContinuation b2 then
            match rest with
            | b3 :: _ =>
              if isContinuation b3 then
                (some (Char.ofNat
                  (((b0.toNat % 8 * 64 + bits b1) * 64 + bits b2) * 64 + bits b3)), 4)
              else (none, 3)
            | [] => (none, 3)
          else (none, 2)
        | [] => (none, 2)
      else (none, 1)
    | [] => (none, 1)
  else (none, 1)

/-- The characters of a byte string, and `none` for each piece that is none. -/
def pieces : Bytes → List (Option Char)
  | [] => []
  | b :: rest =>
    let (c, n) := read b rest
    c :: pieces (rest.drop (n - 1))
termination_by bs => bs.length
decreasing_by
  simp only [List.length_drop, List.length_cons]
  omega

def decodeLossy (bs : Bytes) : String :=
  String.ofList ((pieces bs).map (·.getD replacement))

/-- The text that the bytes spell, if they spell one. -/
def decode? (bs : Bytes) : Option String :=
  ((pieces bs).mapM id).map String.ofList

end Parley.Utf8
