import Bindery.Toml.Moment
import Bindery.Toml.Number
import Bindery.Toml.Table
import Bindery.Toml.Text

/-!
# `Toml.Reader` — reading TOML texts

A text is read line by line into pairs and headers, which are then put together. Values nest in arrays and inline
tables; how deep they may nest, and how many steps a dotted key may have, is limited.

## Contents
- `readKey`, `readValue`.
- `readLines`: the pairs and headers of a text.
- `read`: the table a text stands for.
-/

namespace Bindery
namespace Toml

/-- How deep values may nest, and how many steps a key may have. -/
def nestingLimit : Nat := 79

/-- The characters from the first one that is not a blank. -/
def skipSpace (cs : List Char) : List Char := cs.dropWhile isSpace

/-- The characters from the first one that is not in a comment, and neither a blank nor a line end. -/
def skipBlank (inComment : Bool) : List Char → List Char
  | [] => []
  | '\r' :: '\n' :: rest => skipBlank false rest
  | c :: rest =>
    if c = '\n' then skipBlank false rest
    else if inComment then if isPlain c then skipBlank true rest else c :: rest
    else if c = '#' then skipBlank true rest
    else if isSpace c then skipBlank false rest
    else c :: rest

/-- What follows the end of a line, which may hold a comment. A text may end without a line end. -/
def finishLine (cs : List Char) : Option (List Char) :=
  let rest :=
    match skipSpace cs with
    | '#' :: comment => comment.dropWhile isPlain
    | rest => rest
  if rest.isEmpty then some [] else lineEnd? rest

/-! ## Keys -/

/-- Whether `c` may stand in a key without quotes. -/
def isKeyChar (c : Char) : Bool := c.isAlphanum || c == '-' || c == '_'

/-- One step of a key, with or without quotes. -/
def readStep : List Char → Option (List Char × List Char)
  | '"' :: rest => basicText rest
  | '\'' :: rest => literalText rest
  | cs =>
    match cs.span isKeyChar with
    | ([], _) => none
    | (name, rest) => some (name, rest)

/-- A dotted key of at most `bound` steps. -/
def readKey : (bound : Nat) → List Char → Option (List String × List Char)
  | 0, _ => none
  | bound + 1, cs => do
    let (name, rest) ← readStep (skipSpace cs)
    match skipSpace rest with
    | '.' :: rest =>
      let (more, rest) ← readKey bound rest
      return (String.ofList name :: more, rest)
    | rest => return ([String.ofList name], rest)

/-! ## Values -/

/-- A value that holds no other values. -/
def readScalar (cs : List Char) : Option (Value × List Char) :=
  match cs with
  | 't' :: 'r' :: 'u' :: 'e' :: rest => some (.boolean true, rest)
  | 'f' :: 'a' :: 'l' :: 's' :: 'e' :: rest => some (.boolean false, rest)
  | '"' :: _ => (readText cs).map fun (text, rest) => (.text (String.ofList text), rest)
  | '\'' :: _ => (readText cs).map fun (text, rest) => (.text (String.ofList text), rest)
  | _ =>
    ((readMoment cs).map fun (written, rest) => (.moment (String.ofList written), rest))
      |>.or ((readFloat cs).map fun (written, rest) => (.float (String.ofList written), rest))
      |>.or ((readInteger cs).map fun (value, rest) => (.integer value, rest))

/-- A key, its equals sign and its value. -/
def readPair (value : List Char → Option (Value × List Char)) (cs : List Char) :
    Option (Pair × List Char) := do
  let (key, rest) ← readKey nestingLimit cs
  match rest with
  | '=' :: rest =>
    let (value, rest) ← value (skipSpace rest)
    return ((key, value), rest)
  | _ => none

/-- The items of an array, at most `bound` of them, up to its closing bracket. -/
def readItems (value : List Char → Option (Value × List Char)) :
    (bound : Nat) → List Char → Option (List Value × List Char)
  | 0, _ => none
  | bound + 1, cs =>
    match skipBlank false cs with
    | ']' :: rest => some ([], rest)
    | cs => do
      let (item, rest) ← value cs
      match skipBlank false rest with
      | ',' :: rest =>
        let (items, rest) ← readItems value bound rest
        return (item :: items, rest)
      | ']' :: rest => return ([item], rest)
      | _ => none

/-- The pairs of an inline table, at most `bound` of them and at least one, up to its closing brace. -/
def readPairs (value : List Char → Option (Value × List Char)) :
    (bound : Nat) → List Char → Option (List Pair × List Char)
  | 0, _ => none
  | bound + 1, cs => do
    let (pair, rest) ← readPair value cs
    match skipSpace rest with
    | ',' :: rest =>
      let (pairs, rest) ← readPairs value bound rest
      return (pair :: pairs, rest)
    | '\x7d' :: rest => return ([pair], rest)
    | _ => none

/-- An inline table, behind its opening brace. -/
def readInline (value : List Char → Option (Value × List Char)) (cs : List Char) :
    Option (Value × List Char) := do
  let (pairs, rest) ←
    match skipSpace cs with
    | '\x7d' :: rest => some ([], rest)
    | _ => readPairs value cs.length cs
  match addPairs pairs [] with
  | .ok entries => some (.table .inline entries, rest)
  | .error _ => none

/-- A value in which others nest at most `depth` deep. -/
def readValue : (depth : Nat) → List Char → Option (Value × List Char)
  | 0, cs => readScalar cs
  | depth + 1, cs =>
    match cs with
    | '[' :: rest =>
      (readItems (readValue depth) (rest.length + 1) rest).map fun (items, rest) =>
        (.array items, rest)
    | '\x7b' :: rest => readInline (readValue depth) rest
    | _ => readScalar cs

/-! ## Whole texts -/

/-- A line that says something. -/
inductive Line where
  | pair (pair : Pair)
  | header (isItem : Bool) (key : List String)

/-- A line that is not blank and no comment. -/
def readLine : List Char → Option (Line × List Char)
  | '[' :: '[' :: rest => do
    let (key, rest) ← readKey nestingLimit rest
    match rest with
    | ']' :: ']' :: rest => return (.header true key, rest)
    | _ => none
  | '[' :: rest => do
    let (key, rest) ← readKey nestingLimit rest
    match rest with
    | ']' :: rest => return (.header false key, rest)
    | _ => none
  | cs => (readPair (readValue nestingLimit) cs).map fun (pair, rest) => (.pair pair, rest)

/-- The lines of a text that say something, at most `bound` of them. -/
def readLines : (bound : Nat) → List Char → Option (List Line)
  | 0, _ => none
  | bound + 1, cs =>
    match skipBlank false cs with
    | [] => some []
    | cs => do
      let (line, rest) ← readLine cs
      return line :: (← readLines bound (← finishLine rest))

/-- The pairs before the first header, and the blocks. -/
def gather : List Line → List Pair × List Block
  | [] => ([], [])
  | .pair pair :: lines =>
    let (pairs, blocks) := gather lines
    (pair :: pairs, blocks)
  | .header isItem key :: lines =>
    let (pairs, blocks) := gather lines
    ([], ⟨isItem, key, pairs⟩ :: blocks)

/-- What follows the mark that may stand in front of a text to tell its encoding. -/
def dropMark : List Char → List Char
  | '\uFEFF' :: rest => rest
  | cs => cs

/-- The table a text stands for. -/
def read (text : String) : Except Problem Entries :=
  let cs := dropMark text.toList
  match readLines (cs.length + 1) cs with
  | some lines => assemble (gather lines).1 (gather lines).2
  | none => .error .malformed

end Toml
end Bindery
