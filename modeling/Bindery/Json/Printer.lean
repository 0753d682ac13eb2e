import Bindery.Json.Basic
import Bindery.Text.Decimal

/-!
# `Json.Printer` — JSON laid out for reading

One item or member a line, two blanks deeper than what holds it; what is empty stays on one line.

## Contents
- `quoted`: a text between quotes.
- `Json.layout`, `Json.pretty`.
-/

namespace Bindery
namespace Json

/-- The hexadecimal digit for a number below sixteen. -/
def hexDigit (n : Nat) : Char := if n < 10 then Char.ofNat (48 + n) else Char.ofNat (87 + n)

/-- How a character is written between quotes. Controls without a short escape go by their code. -/
def escaped (c : Char) : List Char :=
  if c = '"' then ['\\', '"']
  else if c = '\\' then ['\\', '\\']
  else if c = '\x08' then ['\\', 'b']
  else if c = '\x0c' then ['\\', 'f']
  else if c = '\n' then ['\\', 'n']
  else if c = '\r' then ['\\', 'r']
  else if c = '\t' then ['\\', 't']
  else if c.toNat < 32 then ['\\', 'u', '0', '0', hexDigit (c.toNat / 16), hexDigit (c.toNat % 16)]
  else [c]

/-- A text between quotes. -/
def quoted (text : String) : List Char := '"' :: text.toList.flatMap escaped ++ ['"']

/-- The start of a line at the given depth. -/
def newLine (depth : Nat) : List Char := '\n' :: List.replicate (2 * depth) ' '

/-- A whole number in decimal notation. -/
def integerChars : Int → List Char
  | .ofNat n => Text.decimal n
  | .negSucc n => '-' :: Text.decimal (n + 1)

mutual

/-- The characters of a value that stands at the given depth. -/
def layout (depth : Nat) : Json → List Char
  | .null => ['n', 'u', 'l', 'l']
  | .boolean true => ['t', 'r', 'u', 'e']
  | .boolean false => ['f', 'a', 'l', 's', 'e']
  | .integer value => integerChars value
  | .fraction spelling => spelling.toList
  | .string value => quoted value
  | .array [] => ['[', ']']
  | .array (first :: others) =>
    '[' :: newLine (depth + 1) ++ layout (depth + 1) first ++ layoutItems (depth + 1) others
      ++ newLine depth ++ [']']
  | .object [] => ['\x7b', '\x7d']
  | .object ((name, first) :: others) =>
    '\x7b' :: newLine (depth + 1) ++ quoted name ++ [':', ' '] ++ layout (depth + 1) first
      ++ layoutMembers (depth + 1) others ++ newLine depth ++ ['\x7d']

/-- The items of an array after the first. -/
def layoutItems (depth : Nat) : List Json → List Char
  | [] => []
  | item :: others => ',' :: newLine depth ++ layout depth item ++ layoutItems depth others

/-- The members of an object after the first. -/
def layoutMembers (depth : Nat) : List (String × Json) → List Char
  | [] => []
  | (name, value) :: others =>
    ',' :: newLine depth ++ quoted name ++ [':', ' '] ++ layout depth value
      ++ layoutMembers depth others

end

/-- A value laid out for reading. -/
def pretty (value : Json) : String := String.ofList (layout 0 value)

end Json
end Bindery
