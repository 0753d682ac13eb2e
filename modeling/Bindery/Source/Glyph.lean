import Bindery.Location

/-!
# `Source.Glyph` — characters that know where they stand

A text to be scanned is a list of glyphs. What is found in it keeps the glyphs it was found at, so every token and
every fault points at a character of the text.

## Contents
- `Glyph`, `glyphs`, `textOf`.
- `startsWith`: whether certain characters come next.
-/

namespace Bindery
namespace Source

/-- A character and its location. -/
structure Glyph where
  char : Char
  location : Location
deriving DecidableEq, Repr

/-- The glyphs of a text that begins at a location. -/
def glyphs (location : Location) : List Char → List Glyph
  | [] => []
  | c :: rest => ⟨c, location⟩ :: glyphs (location.advance c) rest

/-- The characters of some glyphs. -/
def charsOf (gs : List Glyph) : List Char := gs.map Glyph.char

/-- The text of some glyphs. -/
def textOf (gs : List Glyph) : String := String.ofList (charsOf gs)

/-- Whether the characters `word` come next. -/
def startsWith : List Char → List Glyph → Bool
  | [], _ => true
  | _ :: _, [] => false
  | c :: word, g :: rest => g.char == c && startsWith word rest

@[simp] theorem charsOf_glyphs (location : Location) (cs : List Char) :
    charsOf (glyphs location cs) = cs := by
  induction cs generalizing location with
  | nil => rfl
  | cons c rest ih => simpa [glyphs, charsOf] using ih (location.advance c)

/-- Glyphs of a joined text: those of the first part, then those of the second from where the first ends. -/
theorem glyphs_append (location : Location) (a b : List Char) :
    glyphs location (a ++ b) = glyphs location a ++ glyphs (location.advanceOver a) b := by
  induction a generalizing location with
  | nil => rfl
  | cons c rest ih => simp [glyphs, ih, Location.advanceOver]

end Source
end Bindery
