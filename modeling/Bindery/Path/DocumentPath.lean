import Bindery.Path.Component

/-!
# `Path.DocumentPath` — where a document lives

A document path has been resolved against a base and simplified: no `.` is left, and each `..` has taken away the
step before it. A `..` with nothing to take away stays, and the next one takes it away in turn.

## Contents
- `simplify`, `DocumentPath.resolve`, `DocumentPath.text`.
- `directory`, `sibling`: paths found from a path.
- `relativeTo`, `linkTo`: the link from one document to another.
- `Kind`: what the extension says about the content.
-/

namespace Bindery

open Bindery.Path

/-- A simplified path, as its components. -/
structure DocumentPath where
  parts : List Component
deriving DecidableEq, Repr

namespace Path

/-- Follow one more component from `steps` (last one first). -/
def follow (steps : List Component) : Component → List Component
  | .current => steps
  | .parent =>
    match steps with
    | [] => [.parent]
    | [.root] => [.parent, .root]
    | _ :: earlier => earlier
  | step => step :: steps

/-- The components with every `.` dropped and every `..` taking away the step before it. -/
def simplify (parts : List Component) : List Component := (parts.foldl follow []).reverse

/-- `path` seen from the directory `base`. -/
def join (base path : String) : String :=
  if isAbsolute path || base.isEmpty then path
  else if base.toList.getLast? == some '/' then base ++ path
  else base ++ "/" ++ path

/-- The steps from the directory `base` to `path`, for two paths that start at the same point. There are none when
`base` leaves the common part upwards. -/
def route? : List Component → List Component → Option (List Component)
  | [], base => some (base.map fun _ => .parent)
  | path, [] => some path
  | a :: path, b :: base =>
    if a = b then route? path base
    else if b = .parent then none
    else some (List.replicate (base.length + 1) .parent ++ a :: path)

end Path

namespace DocumentPath

/-- `raw`, resolved against `base` when it is relative. -/
def resolve (raw base : String) : DocumentPath := ⟨simplify (components (join base raw))⟩

/-- The path as it is written. -/
def text (path : DocumentPath) : String :=
  match path.parts with
  | [.root] => "/"
  | parts => spelled parts

/-- Whether the path starts at the root. -/
def isAbsolute (path : DocumentPath) : Bool := path.parts.head? == some .root

/-- The extension in lower case. -/
def extension? (path : DocumentPath) : Option String := extensionOfComponents? path.parts

/-- The containing directory; the root and the empty path contain themselves. -/
def directory (path : DocumentPath) : DocumentPath :=
  match path.parts with
  | [] => path
  | [.root] => path
  | parts => ⟨parts.dropLast⟩

/-- `raw`, resolved against the directory that contains `path`. -/
def sibling (path : DocumentPath) (raw : String) : DocumentPath := resolve raw path.directory.text

/-- The components of a relative link from the directory `base` to `path`. -/
def routeFrom (path base : DocumentPath) : List Component :=
  if path.isAbsolute == base.isAbsolute then (route? path.parts base.parts).getD path.parts
  else path.parts

/-- The link from the directory `base` to `path`. It starts with `./` unless it climbs. -/
def relativeTo (path base : DocumentPath) : String :=
  let link := spelled (path.routeFrom base)
  match link.toList with
  | ['.', '.'] => link
  | '.' :: '.' :: '/' :: _ => link
  | _ => "./" ++ link

/-- The link a document at `path` uses for the document at `target`. -/
def linkTo (path target : DocumentPath) : String := target.relativeTo path.directory

instance : Ord DocumentPath where
  compare a b := compare a.parts b.parts

/-- What a document contains. -/
inductive Kind where
  /-- Markdown with directive blocks inside its comments. -/
  | markdown
  /-- Directives only. -/
  | directives
  /-- The list of a project's documents. -/
  | project
deriving DecidableEq, Repr

/-- What an extension says about the content. -/
def Kind.ofExtension? : Option String → Kind
  | some "dlisp" => .directives
  | some "dlproj" => .project
  | _ => .markdown

/-- What the document at `path` contains, judged by its extension. -/
def kind (path : DocumentPath) : Kind := Kind.ofExtension? path.extension?

end DocumentPath

end Bindery
