import Bindery.Page

/-!
# `Page.Prose` — trimming prose between directives

Whole blank lines before prose are dropped, and so is the blank end of prose if it reaches a line end. What is left on
the first and the last line stays, since it may continue a line that a directive is part of.

## Contents
- `dropBlankLines`, `dropBlankEnd`.
- `Node.ofProse?`.
-/

namespace Bindery

open Text

/-- Drop whole blank lines at the start of a text that stands at `location`; `line` holds the blanks of its first line
that were read already (last one first). -/
def dropBlankLines (location : Location) (line : List Char) : List Char → Location × List Char
  | [] => (location, line.reverse)
  | c :: rest =>
    if c = '\n' then dropBlankLines location.nextLine [] rest
    else if isBlank c then dropBlankLines location (c :: line) rest
    else (location, line.reverse ++ c :: rest)

/-- Drop the blank end of a text if it holds a line end. -/
def dropBlankEnd (text : List Char) : List Char :=
  if (text.drop (trimEnd text).length).contains '\n' then trimEnd text else text

/-- The node that prose makes; blank prose makes none. -/
def Node.ofProse? (text : String) (location : Location) : Option Node :=
  if isBlankText text then none
  else
    let (location, kept) := dropBlankLines location [] text.toList
    some (.prose (String.ofList (dropBlankEnd kept)) location)

end Bindery
