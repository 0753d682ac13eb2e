import Bindery.Text.Hexadecimal

/-!
# `Toml.Text` — texts in quotes

Between double quotes a backslash starts an escape; between single quotes every character stands for itself. Three
quotes open a text over several lines: a line end directly after them does not count, and up to two quotes more may
stand before the three that close it.

## Contents
- `escape`: the character after a backslash.
- `basicText`, `literalText`, `basicLines`, `literalLines`: from the opening quotes on.
- `readText`: a text in any quotes.
-/

namespace Bindery
namespace Toml

/-- Whether `c` may stand in a text or a comment: no control character but the tab. -/
def isPlain (c : Char) : Bool := c == '\t' || (' ' ≤ c && c ≠ '\x7f')

/-- Whether `c` is a blank within a line. -/
def isSpace (c : Char) : Bool := c == ' ' || c == '\t'

/-- A text that was read, with a character in front. -/
def consText (c : Char) (read : List Char × List Char) : List Char × List Char :=
  (c :: read.1, read.2)

/-- The number that `count` hexadecimal digits stand for, behind digits that stand for `value`. -/
def hexDigits : (count value : Nat) → List Char → Option (Nat × List Char)
  | 0, value, cs => some (value, cs)
  | _ + 1, _, [] => none
  | count + 1, value, c :: cs =>
    match Text.hexValue? c with
    | some digit => hexDigits count (16 * value + digit) cs
    | none => none

/-- The character with the code that `count` hexadecimal digits stand for. -/
def hexChar (count : Nat) (cs : List Char) : Option (Char × List Char) :=
  match hexDigits count 0 cs with
  | some (code, rest) => if code.isValidChar then some (Char.ofNat code, rest) else none
  | none => none

/-- The character that a single character behind a backslash stands for. -/
def shortEscape? (c : Char) : Option Char :=
  if c = 'b' then some '\x08'
  else if c = 't' then some '\t'
  else if c = 'n' then some '\n'
  else if c = 'f' then some '\x0c'
  else if c = 'r' then some '\r'
  else if c = '"' ∨ c = '\\' then some c
  else none

/-- The character that the text behind a backslash stands for. -/
def escape : List Char → Option (Char × List Char)
  | [] => none
  | c :: rest =>
    if c = 'u' then hexChar 4 rest
    else if c = 'U' then hexChar 8 rest
    else (shortEscape? c).map fun meant => (meant, rest)

theorem hexDigits_length {count value : Nat} {cs : List Char} {read : Nat × List Char}
    (h : hexDigits count value cs = some read) : read.2.length ≤ cs.length := by
  fun_induction hexDigits count value cs with
  | case1 value cs => simp_all only [Option.some.injEq]; exact h ▸ Nat.le_refl _
  | case2 => simp at h
  | case3 count value c cs digit _ ih => exact Nat.le_succ_of_le (ih h)
  | case4 => simp at h

theorem hexChar_length {count : Nat} {cs : List Char} {read : Char × List Char}
    (h : hexChar count cs = some read) : read.2.length ≤ cs.length := by
  unfold hexChar at h
  split at h
  next code rest found =>
    split at h
    · cases h
      exact hexDigits_length found
    · simp at h
  next => simp at h

/-- An escape takes at least one character. -/
theorem escape_length {cs : List Char} {read : Char × List Char} (h : escape cs = some read) :
    read.2.length < cs.length := by
  cases cs with
  | nil => simp [escape] at h
  | cons c rest =>
    refine Nat.lt_succ_of_le ?_
    simp only [escape] at h
    split at h
    · exact hexChar_length h
    · split at h
      · exact hexChar_length h
      · obtain ⟨meant, _, rfl⟩ := Option.map_eq_some_iff.mp h
        exact Nat.le_refl _

/-- A text on one line, up to the closing double quote. -/
def basicText (cs : List Char) : Option (List Char × List Char) :=
  match cs with
  | [] => none
  | '"' :: rest => some ([], rest)
  | '\\' :: rest =>
    match _h : escape rest with
    | some read => (basicText read.2).map (consText read.1)
    | none => none
  | c :: rest => if isPlain c then (basicText rest).map (consText c) else none
termination_by cs.length
decreasing_by
  · have := escape_length _h
    simp only [List.length_cons]
    omega
  · simp

/-- A text on one line, up to the closing single quote. -/
def literalText : List Char → Option (List Char × List Char)
  | [] => none
  | '\'' :: rest => some ([], rest)
  | c :: rest => if isPlain c then (literalText rest).map (consText c) else none

/-- The characters from the first one that is neither a blank nor a line end. -/
def skipLines : List Char → List Char
  | '\r' :: '\n' :: rest => skipLines rest
  | c :: rest => if c = '\n' ∨ isSpace c then skipLines rest else c :: rest
  | [] => []

theorem skipLines_length (cs : List Char) : (skipLines cs).length ≤ cs.length := by
  fun_induction skipLines cs with
  | case1 rest ih => simp only [List.length_cons]; omega
  | case2 c rest _ _ ih => simp only [List.length_cons]; omega
  | case3 => exact Nat.le_refl _
  | case4 => exact Nat.le_refl _

/-- The characters behind a line end. -/
def lineEnd? : List Char → Option (List Char)
  | '\n' :: rest => some rest
  | '\r' :: '\n' :: rest => some rest
  | _ => none

theorem lineEnd?_length {cs rest : List Char} (h : lineEnd? cs = some rest) :
    rest.length < cs.length := by
  unfold lineEnd? at h
  split at h
  all_goals simp at h
  all_goals (subst h; simp only [List.length_cons]; omega)

/-- A backslash at the end of a line takes away the line end and all blanks and line ends behind it. -/
def continuation? (cs : List Char) : Option (List Char) :=
  (lineEnd? (cs.dropWhile isSpace)).map skipLines

theorem continuation?_length {cs rest : List Char} (h : continuation? cs = some rest) :
    rest.length < cs.length := by
  unfold continuation? at h
  obtain ⟨after, found, rfl⟩ := Option.map_eq_some_iff.mp h
  have dropped := (List.dropWhile_suffix isSpace (l := cs)).length_le
  have ended := lineEnd?_length found
  have skipped := skipLines_length after
  omega

/-- A text over several lines, up to the three double quotes that close it. -/
def basicLines (cs : List Char) : Option (List Char × List Char) :=
  match cs with
  | [] => none
  | '"' :: '"' :: '"' :: '"' :: '"' :: rest => some (['"', '"'], rest)
  | '"' :: '"' :: '"' :: '"' :: rest => some (['"'], rest)
  | '"' :: '"' :: '"' :: rest => some ([], rest)
  | '\\' :: rest =>
    match _h : escape rest, _k : continuation? rest with
    | some read, _ => (basicLines read.2).map (consText read.1)
    | none, some after => basicLines after
    | none, none => none
  | '\r' :: '\n' :: rest => (basicLines rest).map (consText '\n')
  | c :: rest => if isPlain c ∨ c = '\n' then (basicLines rest).map (consText c) else none
termination_by cs.length
decreasing_by
  · have := escape_length _h
    simp only [List.length_cons]
    omega
  · have := continuation?_length _k
    simp only [List.length_cons]
    omega
  · simp only [List.length_cons]
    omega
  · simp

/-- A text over several lines, up to the three single quotes that close it. -/
def literalLines : List Char → Option (List Char × List Char)
  | [] => none
  | '\'' :: '\'' :: '\'' :: '\'' :: '\'' :: rest => some (['\'', '\''], rest)
  | '\'' :: '\'' :: '\'' :: '\'' :: rest => some (['\''], rest)
  | '\'' :: '\'' :: '\'' :: rest => some ([], rest)
  | '\r' :: '\n' :: rest => (literalLines rest).map (consText '\n')
  | c :: rest => if isPlain c ∨ c = '\n' then (literalLines rest).map (consText c) else none

/-- What follows the opening quotes, without a line end directly behind them. -/
def dropLineEnd (cs : List Char) : List Char := (lineEnd? cs).getD cs

/-- A text in any quotes. -/
def readText : List Char → Option (List Char × List Char)
  | '"' :: '"' :: '"' :: rest => basicLines (dropLineEnd rest)
  | '"' :: rest => basicText rest
  | '\'' :: '\'' :: '\'' :: rest => literalLines (dropLineEnd rest)
  | '\'' :: rest => literalText rest
  | _ => none

end Toml
end Bindery
