import Parley.Toml.Text

/-! Dates and times: a date, a time, or a date and a time with or without an offset.

The days of a month are those of the Gregorian calendar, and a minute may have a leap
second. -/
namespace Parley.Toml.Reader

/-- A number of so many digits within bounds. -/
def numberWithin (width low high : Nat) : Reader Nat := do
  let n := ofDigits 10 (← exactly Char.isDigit width)
  guard (low ≤ n ∧ n ≤ high)
  return n

def isLeapYear (year : Nat) : Bool := year % 4 == 0 && (year % 100 != 0 || year % 400 == 0)

def daysInMonth (year month : Nat) : Nat :=
  if month = 2 then if isLeapYear year then 29 else 28
  else if month = 4 ∨ month = 6 ∨ month = 9 ∨ month = 11 then 30
  else 31

def date : Reader Unit := do
  let year ← numberWithin 4 0 9999
  char '-'
  let month ← numberWithin 2 1 12
  char '-'
  discard (numberWithin 2 1 (daysInMonth year month))

def hourAndMinute : Reader Unit := do
  discard (numberWithin 2 0 23)
  char ':'
  discard (numberWithin 2 0 59)

def time : Reader Unit := do
  hourAndMinute
  char ':'
  discard (numberWithin 2 0 60)
  discard (optional? (char '.' *> span1 Char.isDigit))

def offset : Reader Unit :=
  discard (oneOf fun c => c == 'Z' || c == 'z')
    <|> discard (oneOf fun c => c == '+' || c == '-') *> hourAndMinute

/-- What may follow a date: a delimiter, a time, and perhaps an offset. -/
def timeOfDay : Reader Unit := do
  discard (oneOf fun c => c == 'T' || c == 't' || c == ' ')
  time
  discard (optional? offset)

def moment : Reader Unit := (date *> discard (optional? timeOfDay)) <|> time

end Parley.Toml.Reader
