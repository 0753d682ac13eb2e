import Bindery.Failure
import Bindery.Path.Component

/-!
# `Location` — places in the documents of a compilation

Each document of a compilation has a coordinate: its path, its depth in the tree of includes and its index among the
includes of its parent. A location is a line and a column in such a document. Locations are ordered by depth, index,
line and column, and by path only where all of these agree.

## Contents
- `Coordinate`, `Coordinate.make`, `Coordinate.child`.
- `Position`, `Location`, and how they advance over text.
- `Location.compare`, `Location.sameLine`.
-/

namespace Bindery

/-- The place of a document in a compilation. Depth and index count from one; the path is kept as it was spelled. -/
structure Coordinate where
  path : String
  depth : Nat
  index : Nat
deriving DecidableEq, Repr

/-- A line and a column, both counted from one. -/
structure Position where
  line : Nat
  column : Nat
deriving DecidableEq, Repr

/-- A position in a document. -/
structure Location where
  document : Coordinate
  position : Position
deriving DecidableEq, Repr

namespace Coordinate

/-- The coordinate with the given parts, provided that it counts from one. -/
def make (path : String) (depth index : Nat) : Except Failure Coordinate :=
  if depth < 1 then
    .error (.general ("Document depth must be at least 1, got " ++ toString depth) (some path))
  else if index < 1 then
    .error (.general ("Document index must be at least 1, got " ++ toString index) (some path))
  else .ok ⟨path, depth, index⟩

/-- The coordinate of an include of this document. -/
def child (parent : Coordinate) (path : String) (index : Nat) : Except Failure Coordinate :=
  make path (parent.depth + 1) index

/-- The extension of the document's path in lower case. -/
def extension? (document : Coordinate) : Option String := Path.extension? document.path

/-- The first line and column of the document. -/
def start (document : Coordinate) : Location := ⟨document, ⟨1, 1⟩⟩

end Coordinate

namespace Position

/-- The position after the character `c`. -/
def advance (position : Position) (c : Char) : Position :=
  if c = '\n' then ⟨position.line + 1, 1⟩ else ⟨position.line, position.column + 1⟩

end Position

namespace Location

/-- The start of the next line. -/
def nextLine (location : Location) : Location :=
  { location with position := ⟨location.position.line + 1, 1⟩ }

/-- The next column. -/
def nextColumn (location : Location) : Location :=
  { location with position := ⟨location.position.line, location.position.column + 1⟩ }

/-- The location after the character `c`. -/
def advance (location : Location) (c : Char) : Location :=
  { location with position := location.position.advance c }

/-- The location after a text. -/
def advanceOver (location : Location) (text : List Char) : Location := text.foldl advance location

/-- The order of locations. -/
def compare (a b : Location) : Ordering :=
  (Ord.compare a.document.depth b.document.depth).then <|
  (Ord.compare a.document.index b.document.index).then <|
  (Ord.compare a.position.line b.position.line).then <|
  (Ord.compare a.position.column b.position.column).then <|
  Path.comparePaths a.document.path b.document.path

/-- Whether `a` comes before `b`. -/
def isBefore (a b : Location) : Bool := a.compare b == .lt

/-- Whether `a` comes after `b`. -/
def isAfter (a b : Location) : Bool := a.compare b == .gt

/-- Whether `a` and `b` are the same location, however their paths are spelled. -/
def isSame (a b : Location) : Bool := a.compare b == .eq

/-- Whether two locations are on the same line of the same file. -/
def sameLine (a b : Location) : Bool :=
  Path.samePath a.document.path b.document.path && a.position.line == b.position.line

/-- Locations in order; those that are the same stay in the order they had. -/
def sort (locations : List Location) : List Location :=
  locations.mergeSort fun a b => a.compare b != .gt

/-- The text of a location. -/
def display (location : Location) : String :=
  location.document.path ++ ":" ++ toString location.position.line ++ ":"
    ++ toString location.position.column ++ " (depth " ++ toString location.document.depth
    ++ ", index " ++ toString location.document.index ++ ")"

@[simp] theorem document_advance (location : Location) (c : Char) :
    (location.advance c).document = location.document := rfl

theorem advanceOver_eq (location : Location) (text : List Char) :
    location.advanceOver text = ⟨location.document, text.foldl Position.advance location.position⟩ := by
  induction text generalizing location with
  | nil => rfl
  | cons c rest ih => exact ih (location.advance c)

end Location
end Bindery
