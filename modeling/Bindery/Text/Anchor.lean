import Bindery.Text.Alphanumeric
import Bindery.Text.Blank
import Bindery.Text.Lowercase

/-!
# `Text.Anchor` — the anchor a heading can be linked by

A heading's anchor is its text in lower case, with a hyphen for each blank character, keeping letters, numbers,
hyphens and underscores.
-/

namespace Bindery
namespace Text

/-- Whether an anchor may hold `c`. -/
def isAnchorChar (c : Char) : Bool := isAlphanumeric c || c == '-' || c == '_'

/-- The characters of the anchor of a heading. -/
def anchorChars (cs : List Char) : List Char :=
  ((lower (trim cs)).map fun c => if isBlank c then '-' else c).filter isAnchorChar

/-- The anchor of a heading, without its mark. -/
def anchor (title : String) : String := String.ofList (anchorChars title.toList)

/-- The link to a heading's anchor within its own document. -/
def anchorLink (title : String) : String := "#" ++ anchor title

end Text
end Bindery
