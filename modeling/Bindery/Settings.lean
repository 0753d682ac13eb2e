/-!
# `Settings` — what can be set for a compilation
-/

namespace Bindery

/-- How includes are guarded: whether a chain of includes may come back to one of its documents, and how deep it may
go. -/
structure Settings where
  checkIncludeCycles : Bool := true
  maxIncludeDepth : Nat := 64
deriving DecidableEq, Repr

end Bindery
