import Bindery.Location

/-!
# `Warning` — what compiled, but is probably not what was meant
-/

namespace Bindery

/-- A remark on a compilation that did not stop it. -/
structure Warning where
  message : String
  location : Option Location
deriving DecidableEq, Repr

/-- The text of a warning. -/
def Warning.display (warning : Warning) : String :=
  match warning.location with
  | some location =>
    "Warning: " ++ warning.message ++ " (" ++ location.document.path ++ ":"
      ++ toString location.position.line ++ ":" ++ toString location.position.column ++ ")"
  | none => "Warning: " ++ warning.message

end Bindery
