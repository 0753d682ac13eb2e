import Bindery.Fault
import Bindery.Source.Glyph
import Bindery.Text.Blank

/-!
# `Source.Block` — the extent of directive blocks

A directive block is found by its parentheses alone: a backslash takes the next character for itself, an opening
parenthesis needs a closing one, and no block opens inside another. Inside a comment a block runs from its opener
to the closing parenthesis that is left over, and has to end before its comment does. A file of directives is one
block as a whole, and holds nothing but blanks outside of its parentheses.

## Contents
- `opensBlock`: the opener of a block.
- `readBlock`: a block inside a comment.
- `checkDirectives`: a file of directives.
-/

namespace Bindery
namespace Source

open Text

/-- The mark that ends a comment. -/
def commentEnd : List Char := ['-', '-', '>']

/-- Whether a block opens here: `(dl`, followed by a blank, a closing parenthesis or the end of the text. -/
def opensBlock : List Glyph → Bool
  | ⟨'(', _⟩ :: ⟨'d', _⟩ :: ⟨'l', _⟩ :: rest =>
    match rest with
    | [] => true
    | g :: _ => isBlank g.char || g.char == ')'
  | _ => false

/-- Put glyphs in front of what was read. -/
def prepend (gs : List Glyph) (read : List Glyph × List Glyph) : List Glyph × List Glyph :=
  (gs ++ read.1, read.2)

/-- The fault of a block that the text ends in: its innermost open parenthesis comes before its opener. -/
def unfinished (opener : Location) : List Location → Fault
  | [] => ⟨.blockOpen, opener⟩
  | innermost :: _ => ⟨.parenthesisOpen, innermost⟩

/-- The rest of a block that was opened at `opener`, with the parentheses at `opens` (innermost first) still open, and
what follows its closing parenthesis. -/
def readBlock (opener : Location) (opens : List Location) :
    List Glyph → Except Fault (List Glyph × List Glyph)
  | [] => .error (unfinished opener opens)
  | g :: rest =>
    if startsWith commentEnd (g :: rest) then .error ⟨.blockOpen, opener⟩
    else if g.char = '\\' then
      match rest with
      | [] => .error (unfinished opener opens)
      | taken :: rest => (readBlock opener opens rest).map (prepend [g, taken])
    else if g.char = '(' then
      if opensBlock (g :: rest) then .error ⟨.blockNested, g.location⟩
      else (readBlock opener (g.location :: opens) rest).map (prepend [g])
    else if g.char = ')' then
      match opens with
      | [] => .ok ([], rest)
      | _ :: outer => (readBlock opener outer rest).map (prepend [g])
    else (readBlock opener opens rest).map (prepend [g])

/-- What follows a block is shorter than what it was read from. -/
theorem length_of_readBlock {opener : Location} {opens : List Location} {gs body rest : List Glyph}
    (h : readBlock opener opens gs = .ok (body, rest)) : rest.length < gs.length := by
  fun_induction readBlock opener opens gs generalizing body rest with
  | case1 | case2 | case3 | case5 => cases h
  | case7 opens g rest' =>
    cases h
    simp
  | case4 opens g _ taken rest' _ ih | case6 opens g rest' _ _ _ _ ih
  | case8 g rest' _ _ _ _ _ outer ih | case9 opens g rest' _ _ _ _ ih =>
    cases hr : readBlock opener _ rest' with
    | error fault => rw [hr] at h; cases h
    | ok read =>
      rw [hr] at h
      cases h
      have := ih hr
      simp only [List.length_cons]
      omega

/-- The parentheses at `opens` (innermost first) have all been closed when the text ends. -/
def allClosed : List Location → Except Fault Unit
  | [] => .ok ()
  | innermost :: _ => .error ⟨.parenthesisOpen, innermost⟩

/-- Check a file of directives: its parentheses pair up, with those at `opens` (innermost first) still open, and nothing
but blanks stands outside of them. -/
def checkDirectives (path : String) (opens : List Location) : List Glyph → Except Fault Unit
  | [] => allClosed opens
  | g :: rest =>
    if g.char = '\\' then
      match rest with
      | [] => allClosed opens
      | _ :: rest => checkDirectives path opens rest
    else if g.char = '(' then
      if opensBlock (g :: rest) then .error ⟨.blockNested, g.location⟩
      else checkDirectives path (g.location :: opens) rest
    else if g.char = ')' then
      match opens with
      | [] => .error ⟨.outsideParentheses path, g.location⟩
      | _ :: outer => checkDirectives path outer rest
    else if opens.isEmpty && !isBlank g.char then .error ⟨.outsideParentheses path, g.location⟩
    else checkDirectives path opens rest

end Source
end Bindery
