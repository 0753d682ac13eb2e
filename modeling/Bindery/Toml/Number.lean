import Bindery.Text.Decimal
import Bindery.Text.Hexadecimal

/-!
# `Toml.Number` — integers and floats

## Contents
- `digitRun`: digits, with single underscores between them.
- `readInteger`: signed 64-bit integers in four bases.
- `readFloat`: floats, kept as written.
-/

namespace Bindery
namespace Toml

/-- The digits that go on a run; an underscore may stand between two of them. -/
def moreDigits (isDigit : Char → Bool) : List Char → List Char × List Char
  | [] => ([], [])
  | ['_'] => ([], ['_'])
  | '_' :: c :: rest =>
    if isDigit c then
      let (digits, rest) := moreDigits isDigit rest
      (c :: digits, rest)
    else ([], '_' :: c :: rest)
  | c :: rest =>
    if isDigit c then
      let (digits, rest) := moreDigits isDigit rest
      (c :: digits, rest)
    else ([], c :: rest)

/-- A run of digits, with the underscores left out. -/
def digitRun (isDigit : Char → Bool) : List Char → Option (List Char × List Char)
  | c :: rest =>
    if isDigit c then
      let (digits, rest) := moreDigits isDigit rest
      some (c :: digits, rest)
    else none
  | [] => none

/-- The digits of a decimal number; behind a leading zero there are none. -/
def decimalDigits : List Char → Option (List Char × List Char)
  | '0' :: rest => some (['0'], rest)
  | cs => digitRun Text.isDigit cs

/-- Whether there is a minus sign, and what follows the sign. -/
def readSign : List Char → Bool × List Char
  | '-' :: rest => (true, rest)
  | '+' :: rest => (false, rest)
  | cs => (false, cs)

/-- The number that digits stand for in a base. -/
def digitsValue (base : Nat) (digits : List Char) : Nat :=
  digits.foldl (fun n c => base * n + (Text.hexValue? c).getD 0) 0

/-- Whether an integer fits into 64 bits with a sign. -/
def fits (n : Int) : Bool := -9223372036854775808 ≤ n && n ≤ 9223372036854775807

/-- The integer with the digits of a run in a base. -/
def basedInteger (base : Nat) (isDigit : Char → Bool) (cs : List Char) : Option (Int × List Char) := do
  let (digits, rest) ← digitRun isDigit cs
  let value : Int := digitsValue base digits
  if fits value then some (value, rest) else none

/-- An integer. Only a decimal one takes a sign. -/
def readInteger : List Char → Option (Int × List Char)
  | '0' :: 'x' :: rest => basedInteger 16 (fun c => (Text.hexValue? c).isSome) rest
  | '0' :: 'o' :: rest => basedInteger 8 (fun c => '0' ≤ c && c ≤ '7') rest
  | '0' :: 'b' :: rest => basedInteger 2 (fun c => c == '0' || c == '1') rest
  | cs => do
    let (isNegative, cs) := readSign cs
    let (digits, rest) ← decimalDigits cs
    let size : Int := digitsValue 10 digits
    let value := if isNegative then -size else size
    if fits value then some (value, rest) else none

/-! ## Floats -/

/-- The digits behind a decimal point. -/
def readDecimals : List Char → Option (List Char × List Char)
  | '.' :: rest => digitRun Text.isDigit rest
  | _ => none

/-- The exponent of a float. -/
def readExponent : List Char → Option (Int × List Char)
  | c :: rest =>
    if c = 'e' ∨ c = 'E' then do
      let (isNegative, rest) := readSign rest
      let (digits, rest) ← digitRun Text.isDigit rest
      let size : Int := digitsValue 10 digits
      return (if isNegative then -size else size, rest)
    else none
  | [] => none

/-- Half way from the largest double to the next power of two: from here on numbers are rounded to infinity. -/
def doubleLimit : Nat := Nat.pow 2 1024 - Nat.pow 2 970

/-- Whether `digits`, read as an integer and shifted by a power of ten, is rounded to infinity. The count of digits
decides for all but a few exponents. -/
def isInfinite (digits : List Char) (exponent : Int) : Bool :=
  let significant := digits.dropWhile (· == '0')
  let places := significant.length + exponent
  if significant.isEmpty || places < 308 then false
  else if places > 310 then true
  else if exponent < 0 then
    doubleLimit * Nat.pow 10 exponent.natAbs ≤ digitsValue 10 significant
  else doubleLimit ≤ digitsValue 10 significant * Nat.pow 10 exponent.natAbs

/-- A float in digits: what follows it. It has decimals or an exponent, and without a minus sign it is finite. -/
def readDigitFloat (cs : List Char) : Option (List Char) := do
  let (isNegative, cs) := readSign cs
  let (digits, rest) ← decimalDigits cs
  let (decimals, exponent, rest) ←
    match readExponent rest with
    | some (exponent, rest) => some ([], exponent, rest)
    | none => do
      let (decimals, rest) ← readDecimals rest
      match readExponent rest with
      | some (exponent, rest) => some (decimals, exponent, rest)
      | none => some (decimals, 0, rest)
  if !isNegative && isInfinite (digits ++ decimals) (exponent - decimals.length) then none
  else some rest

/-- Infinity or not a number, with or without a sign: what follows it. -/
def readNamedFloat (cs : List Char) : Option (List Char) :=
  match (readSign cs).2 with
  | 'i' :: 'n' :: 'f' :: rest => some rest
  | 'n' :: 'a' :: 'n' :: rest => some rest
  | _ => none

/-- A float, as it is written. -/
def readFloat (cs : List Char) : Option (List Char × List Char) := do
  let rest ← (readDigitFloat cs).or (readNamedFloat cs)
  return (cs.take (cs.length - rest.length), rest)

end Toml
end Bindery
