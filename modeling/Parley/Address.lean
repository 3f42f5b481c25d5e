/-! Network addresses as text.

Two forms are recognised. A socket address (`isSocketAddress`) is an IP address, a colon
and a number of 16 bits: `127.0.0.1:80`, or `[::1]:80` with the IPv6 address in brackets.
The address of a host (`isHostPort`) is any nonempty name before the last colon, and such a
number after it.

Each reader takes the characters from where it stands and gives those that are left. -/
namespace Parley.Address

/-! ### Numerals -/

def digit? (c : Char) : Option Nat :=
  if '0' ≤ c ∧ c ≤ '9' then some (c.toNat - '0'.toNat)
  else if 'a' ≤ c ∧ c ≤ 'f' then some (c.toNat - 'a'.toNat + 10)
  else if 'A' ≤ c ∧ c ≤ 'F' then some (c.toNat - 'A'.toNat + 10)
  else none

def isDigit (radix : Nat) (c : Char) : Bool := (digit? c).any (· < radix)

/-- The number that digits spell, the first digit being the most significant. -/
def value (radix : Nat) (digits : List Char) : Nat :=
  digits.foldl (fun n c => n * radix + (digit? c).getD 0) 0

/-- The leading digits, if there are any, and what follows them. -/
def numeral? (radix : Nat) (cs : List Char) : Option (List Char × List Char) :=
  match cs.takeWhile (isDigit radix) with
  | [] => none
  | digits => some (digits, cs.dropWhile (isDigit radix))

def skip? (c : Char) : List Char → Option (List Char)
  | [] => none
  | d :: rest => if d = c then some rest else none

/-! ### IPv4 -/

/-- One byte of an IPv4 address: up to three digits, none of them a leading zero. -/
def octet? (cs : List Char) : Option (List Char) :=
  (numeral? 10 cs).bind fun (digits, rest) =>
    if digits.length ≤ 3 ∧ value 10 digits ≤ 255 ∧ (digits.head? = some '0' → digits.length = 1)
    then some rest else none

def ipv4? (cs : List Char) : Option (List Char) := do
  let cs ← octet? cs
  let cs ← octet? (← skip? '.' cs)
  let cs ← octet? (← skip? '.' cs)
  octet? (← skip? '.' cs)

/-! ### IPv6 -/

/-- Two bytes of an IPv6 address: up to four hexadecimal digits. -/
def group? (cs : List Char) : Option (List Char) :=
  (numeral? 16 cs).bind fun (digits, rest) => if digits.length ≤ 4 then some rest else none

/-- How a run of groups ended: how many more were wanted, whether its end was an IPv4
address, and what is left. -/
structure Groups where
  wanted : Nat
  endsIpv4 : Bool
  rest : List Char

/-- Reads up to `n` groups with colons between them, and before the first if `colon`. An
IPv4 address stands for two groups and ends the run. -/
def groups : Nat → Bool → List Char → Groups
  | 0, _, cs => ⟨0, false, cs⟩
  | n + 1, colon, cs =>
    let item := if colon then skip? ':' cs else some cs
    match if n = 0 then none else item.bind ipv4? with
    | some rest => ⟨n - 1, true, rest⟩
    | none =>
      match item.bind group? with
      | some rest => groups n true rest
      | none => ⟨n + 1, false, cs⟩

/-- Eight groups, or fewer with one `::` that stands for the rest. -/
def ipv6? (cs : List Char) : Option (List Char) :=
  let front := groups 8 false cs
  if front.wanted = 0 then some front.rest
  else if front.endsIpv4 then none
  else do
    let cs ← skip? ':' front.rest
    let cs ← skip? ':' cs
    return (groups (front.wanted - 1) false cs).rest

/-- The number of a network interface, after a percent sign. -/
def scope? (cs : List Char) : Option (List Char) := do
  let (digits, rest) ← numeral? 10 (← skip? '%' cs)
  if value 10 digits < UInt32.size then some rest else none

/-! ### Whole addresses -/

/-- A colon and a number of 16 bits. -/
def portSuffix? (cs : List Char) : Option (List Char) := do
  let (digits, rest) ← numeral? 10 (← skip? ':' cs)
  if value 10 digits < UInt16.size then some rest else none

def bracketed? (cs : List Char) : Option (List Char) := do
  let cs ← ipv6? (← skip? '[' cs)
  skip? ']' ((scope? cs).getD cs)

/-- An IP address and its number, with nothing before or after. -/
def isSocketAddress (s : String) : Bool :=
  (ipv4? s.toList >>= portSuffix?) == some [] || (bracketed? s.toList >>= portSuffix?) == some []

/-- A number of 16 bits: digits alone, or after a plus sign. -/
def isPortText (cs : List Char) : Bool :=
  let digits := if cs.head? = some '+' then cs.drop 1 else cs
  digits ≠ [] && digits.all (isDigit 10) && value 10 digits < UInt16.size

/-- A nonempty host, the last colon, and a number of 16 bits. -/
def isHostPort (s : String) : Bool :=
  let reversed := s.toList.reverse
  match reversed.dropWhile (· ≠ ':') with
  | [] => false
  | _ :: host => host ≠ [] && isPortText (reversed.takeWhile (· ≠ ':')).reverse

end Parley.Address
