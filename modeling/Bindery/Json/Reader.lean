import Bindery.Json.Basic
import Bindery.Text.Decimal
import Bindery.Text.Hexadecimal

/-!
# `Json.Reader` — reading JSON texts

Each reader takes characters and returns what it read with the characters that follow. A part of a value is shorter than
the value, so a bound of the text's length on the steps never cuts a reading short. What does is a text whose arrays and
objects are nested too deep.

## Contents
- `readString`, `readNumber`.
- `nestingLimit`, `readValue`, `Json.read?`.
-/

namespace Bindery
namespace Json

/-- Whether `c` may stand between the parts of a JSON text. -/
def isSpace (c : Char) : Bool := c == ' ' || c == '\n' || c == '\r' || c == '\t'

/-- The characters from the first one that is not space. -/
def skipSpace (cs : List Char) : List Char := cs.dropWhile isSpace

/-- The code unit that four hexadecimal digits stand for. -/
def hexUnit? (a b c d : Char) : Option Nat := do
  let a ← Text.hexValue? a
  let b ← Text.hexValue? b
  let c ← Text.hexValue? c
  let d ← Text.hexValue? d
  return ((a * 16 + b) * 16 + c) * 16 + d

/-- Whether a code unit is the first half of a pair. -/
def isHighHalf (unit : Nat) : Bool := 0xD800 ≤ unit && unit ≤ 0xDBFF

/-- Whether a code unit is the second half of a pair. -/
def isLowHalf (unit : Nat) : Bool := 0xDC00 ≤ unit && unit ≤ 0xDFFF

/-- The character that a short escape stands for. -/
def shortEscape? (c : Char) : Option Char :=
  if c = '"' then some '"'
  else if c = '\\' then some '\\'
  else if c = '/' then some '/'
  else if c = 'b' then some '\x08'
  else if c = 'f' then some '\x0c'
  else if c = 'n' then some '\n'
  else if c = 'r' then some '\r'
  else if c = 't' then some '\t'
  else none

/-- Put a character in front of a text that was read. -/
def consRead (c : Char) (read : List Char × List Char) : List Char × List Char :=
  (c :: read.1, read.2)

/-- A text up to its closing quote. -/
def readString : List Char → Option (List Char × List Char)
  | [] => none
  | '"' :: rest => some ([], rest)
  | '\\' :: 'u' :: a :: b :: c :: d :: '\\' :: 'u' :: e :: f :: g :: h :: rest => do
    let unit ← hexUnit? a b c d
    if isHighHalf unit then
      let second ← hexUnit? e f g h
      if isLowHalf second then
        let code := 0x10000 + (unit - 0xD800) * 0x400 + (second - 0xDC00)
        return consRead (Char.ofNat code) (← readString rest)
      else none
    else if isLowHalf unit then none
    else return consRead (Char.ofNat unit) (← readString ('\\' :: 'u' :: e :: f :: g :: h :: rest))
  | '\\' :: 'u' :: a :: b :: c :: d :: rest => do
    let unit ← hexUnit? a b c d
    if isHighHalf unit || isLowHalf unit then none
    else return consRead (Char.ofNat unit) (← readString rest)
  | '\\' :: c :: rest => do
    let c ← shortEscape? c
    return consRead c (← readString rest)
  | c :: rest => if c = '\\' ∨ c.toNat < 32 then none else (readString rest).map (consRead c)

/-- A run of digits and what follows it. -/
def readDigits (cs : List Char) : List Char × List Char := cs.span Text.isDigit

/-- The fraction of a number, with its point. -/
def readFraction : List Char → Option (List Char × List Char)
  | '.' :: rest =>
    match readDigits rest with
    | ([], _) => none
    | (digits, rest) => some ('.' :: digits, rest)
  | rest => some ([], rest)

/-- The exponent of a number, with its mark and sign. -/
def readExponent : List Char → Option (List Char × List Char)
  | c :: rest =>
    if c = 'e' ∨ c = 'E' then
      let (sign, rest) :=
        match rest with
        | '+' :: rest => (['+'], rest)
        | '-' :: rest => (['-'], rest)
        | rest => ([], rest)
      match readDigits rest with
      | ([], _) => none
      | (digits, rest) => some (c :: sign ++ digits, rest)
    else some ([], c :: rest)
  | [] => some ([], [])

/-- A number without its sign. No digit may stand behind a leading zero. -/
def readUnsigned (cs : List Char) : Option (List Char × List Char × List Char) := do
  let (digits, rest) := readDigits cs
  if digits.isEmpty || (digits.head? == some '0' && digits.length != 1) then none
  else
    let (decimals, rest) ← readFraction rest
    let (exponent, rest) ← readExponent rest
    return (digits, decimals ++ exponent, rest)

/-- A number. -/
def readNumber : List Char → Option (Json × List Char)
  | '-' :: cs => do
    let (digits, tail, rest) ← readUnsigned cs
    if tail.isEmpty && digits != ['0'] then return (.integer (-(Text.readDecimal digits : Int)), rest)
    else return (.fraction (String.ofList ('-' :: digits ++ tail)), rest)
  | cs => do
    let (digits, tail, rest) ← readUnsigned cs
    if tail.isEmpty then return (.integer (Text.readDecimal digits), rest)
    else return (.fraction (String.ofList (digits ++ tail)), rest)

/-- How deep arrays and objects are too deep to be read. -/
def nestingLimit : Nat := 128

mutual

/-- A value in at most `bound` steps, with arrays and objects in it at most `levels` deep. -/
def readValue (bound levels : Nat) (cs : List Char) : Option (Json × List Char) :=
  match bound with
  | 0 => none
  | bound + 1 =>
    match skipSpace cs with
    | 'n' :: 'u' :: 'l' :: 'l' :: rest => some (.null, rest)
    | 't' :: 'r' :: 'u' :: 'e' :: rest => some (.boolean true, rest)
    | 'f' :: 'a' :: 'l' :: 's' :: 'e' :: rest => some (.boolean false, rest)
    | '"' :: rest => (readString rest).map fun (text, rest) => (.string (String.ofList text), rest)
    | '[' :: rest =>
      match levels, skipSpace rest with
      | 0, _ => none
      | _ + 1, ']' :: rest => some (.array [], rest)
      | levels + 1, rest => do
        let (first, rest) ← readValue bound levels rest
        let (others, rest) ← readItems bound levels rest
        return (.array (first :: others), rest)
    | '\x7b' :: rest =>
      match levels, skipSpace rest with
      | 0, _ => none
      | _ + 1, '\x7d' :: rest => some (.object [], rest)
      | levels + 1, rest => do
        let (first, rest) ← readMember bound levels rest
        let (others, rest) ← readMembers bound levels rest
        return (.object (first :: others), rest)
    | rest => readNumber rest

/-- The items of an array after the first, and its closing bracket. -/
def readItems (bound levels : Nat) (cs : List Char) : Option (List Json × List Char) :=
  match bound with
  | 0 => none
  | bound + 1 =>
    match skipSpace cs with
    | ']' :: rest => some ([], rest)
    | ',' :: rest => do
      let (item, rest) ← readValue bound levels rest
      let (others, rest) ← readItems bound levels rest
      return (item :: others, rest)
    | _ => none

/-- One member of an object. -/
def readMember (bound levels : Nat) (cs : List Char) : Option ((String × Json) × List Char) :=
  match bound with
  | 0 => none
  | bound + 1 =>
    match skipSpace cs with
    | '"' :: rest => do
      let (name, rest) ← readString rest
      match skipSpace rest with
      | ':' :: rest =>
        let (value, rest) ← readValue bound levels rest
        return ((String.ofList name, value), rest)
      | _ => none
    | _ => none

/-- The members of an object after the first, and its closing brace. -/
def readMembers (bound levels : Nat) (cs : List Char) : Option (List (String × Json) × List Char) :=
  match bound with
  | 0 => none
  | bound + 1 =>
    match skipSpace cs with
    | '\x7d' :: rest => some ([], rest)
    | ',' :: rest => do
      let (member, rest) ← readMember bound levels rest
      let (others, rest) ← readMembers bound levels rest
      return (member :: others, rest)
    | _ => none

end

/-- The value a JSON text stands for. -/
def read? (text : String) : Option Json :=
  match readValue (2 * text.length + 2) (nestingLimit - 1) text.toList with
  | some (value, rest) => if (skipSpace rest).isEmpty then some value else none
  | none => none

end Json
end Bindery
