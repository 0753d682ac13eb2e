import Bindery.Text.Decimal

/-!
# `Toml.Moment` — dates and times

A date, a time of day, or both, and then perhaps the distance from universal time. Days beyond the end of their month
are refused; a minute may have a sixty-first second.
-/

namespace Bindery
namespace Toml

/-- The number that exactly `count` digits stand for, behind digits that stand for `value`. -/
def fixedDigits : (count value : Nat) → List Char → Option (Nat × List Char)
  | 0, value, cs => some (value, cs)
  | _ + 1, _, [] => none
  | count + 1, value, c :: cs =>
    if Text.isDigit c then fixedDigits count (10 * value + Text.digitValue c) cs else none

/-- Two digits that stand for a number in a range. -/
def twoDigits (least most : Nat) (cs : List Char) : Option (Nat × List Char) := do
  let (n, rest) ← fixedDigits 2 0 cs
  if least ≤ n ∧ n ≤ most then some (n, rest) else none

/-- What follows the expected character. -/
def expect (c : Char) : List Char → Option (List Char)
  | first :: rest => if first = c then some rest else none
  | [] => none

/-- Whether a year has a twenty-ninth of February. -/
def isLeapYear (year : Nat) : Bool := year % 4 == 0 && (year % 100 != 0 || year % 400 == 0)

/-- How many days a month has. -/
def daysInMonth (year month : Nat) : Nat :=
  if month = 2 then if isLeapYear year then 29 else 28
  else if [4, 6, 9, 11].contains month then 30
  else 31

/-- What follows a date. -/
def afterDate (cs : List Char) : Option (List Char) := do
  let (year, rest) ← fixedDigits 4 0 cs
  let (month, rest) ← twoDigits 1 12 (← expect '-' rest)
  let (_, rest) ← twoDigits 1 (daysInMonth year month) (← expect '-' rest)
  return rest

/-- What follows the fraction of a second, if there is one. -/
def afterFraction : List Char → List Char
  | '.' :: c :: rest => if Text.isDigit c then rest.dropWhile Text.isDigit else '.' :: c :: rest
  | cs => cs

/-- What follows a time of day. -/
def afterTime (cs : List Char) : Option (List Char) := do
  let (_, rest) ← twoDigits 0 23 cs
  let (_, rest) ← twoDigits 0 59 (← expect ':' rest)
  let (_, rest) ← twoDigits 0 60 (← expect ':' rest)
  return afterFraction rest

/-- What follows the distance from universal time, if it is given. -/
def afterOffset (cs : List Char) : List Char :=
  match cs with
  | c :: rest =>
    if c = 'Z' ∨ c = 'z' then rest
    else if c = '+' ∨ c = '-' then
      (do
        let (_, rest) ← twoDigits 0 23 rest
        let (_, rest) ← twoDigits 0 59 (← expect ':' rest)
        return rest).getD cs
    else cs
  | [] => []

/-- What follows the time behind a date, if there is one. -/
def afterDateTime (cs : List Char) : List Char :=
  match cs with
  | c :: rest =>
    if c = 'T' ∨ c = 't' ∨ c = ' ' then ((afterTime rest).map afterOffset).getD cs else cs
  | [] => []

/-- A moment, as it is written. -/
def readMoment (cs : List Char) : Option (List Char × List Char) := do
  let rest ← ((afterDate cs).map afterDateTime).or (afterTime cs)
  return (cs.take (cs.length - rest.length), rest)

end Toml
end Bindery
