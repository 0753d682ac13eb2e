import Bindery.Text.Lowercase

/-!
# `Path.Component` — the steps a path is spelled from

A path is a text; what it means is the list of its components. Repeated and trailing slashes say nothing, and
neither does a `.` except at the very start of a relative path. Two spellings with the same components are the
same path.

## Contents
- `Component`, `components`, `spelled`.
- `isAbsolute`, `extension?`.
- `samePath`, `comparePaths`.
-/

namespace Bindery
namespace Path

/-- One step of a path. They are ordered as listed, names among themselves by code point. -/
inductive Component where
  | root
  | current
  | parent
  | name (text : String)
deriving DecidableEq, Repr, Ord

/-- The texts between slashes, empty ones included. -/
def segments : List Char → List (List Char)
  | [] => [[]]
  | c :: rest =>
    if c = '/' then [] :: segments rest
    else
      match segments rest with
      | [] => [[c]]
      | first :: others => (c :: first) :: others

/-- The component a segment stands for; an empty segment and `.` stand for none. -/
def Component.ofSegment? : List Char → Option Component
  | [] => none
  | ['.'] => none
  | ['.', '.'] => some .parent
  | segment => some (.name (String.ofList segment))

/-- The components of a path given as characters. -/
def componentsOf : List Char → List Component
  | '/' :: rest => .root :: (segments rest).filterMap Component.ofSegment?
  | cs =>
    match segments cs with
    | ['.'] :: others => .current :: others.filterMap Component.ofSegment?
    | all => all.filterMap Component.ofSegment?

/-- The components of a path. -/
def components (path : String) : List Component := componentsOf path.toList

/-- The characters of a component between slashes. -/
def Component.chars : Component → List Char
  | .root => []
  | .current => ['.']
  | .parent => ['.', '.']
  | .name text => text.toList

/-- Segments with a slash between neighbours. -/
def joinSlash : List (List Char) → List Char
  | [] => []
  | [segment] => segment
  | segment :: rest => segment ++ '/' :: joinSlash rest

/-- Components spelled with slashes between them; a leading root becomes a leading slash. -/
def spelled (parts : List Component) : String :=
  String.ofList (joinSlash (parts.map Component.chars))

/-- Whether a path starts at the root. -/
def isAbsolute (path : String) : Bool := path.toList.head? == some '/'

/-- The extension of a file name: what follows its last dot, unless that dot is its first character. -/
def extensionOf? (name : List Char) : Option (List Char) :=
  let tail := name.reverse.takeWhile (· ≠ '.')
  if tail.length + 1 < name.length then some tail.reverse else none

/-- The extension, in lower case, of the file a list of components leads to. -/
def extensionOfComponents? (parts : List Component) : Option String :=
  match parts.getLast? with
  | some (.name text) => (extensionOf? text.toList).map fun cs => String.ofList (Text.lower cs)
  | _ => none

/-- The extension of a path in lower case. -/
def extension? (path : String) : Option String := extensionOfComponents? (components path)

/-- Whether two spellings are the same path. -/
def samePath (a b : String) : Bool := components a == components b

/-- Paths are ordered component by component. -/
def comparePaths (a b : String) : Ordering := compare (components a) (components b)

end Path
end Bindery
