import Bindery.Storage.FileM

/-!
# `Storage.Shelf` — files kept in memory

A shelf holds texts by path. Some paths may be marked as not to be written.
-/

namespace Bindery

/-- Texts by path, and the paths that cannot be written. -/
structure Shelf where
  files : List (String × String)
  readOnly : List String
deriving DecidableEq, Repr

namespace Shelf

/-- The text that is found under a path. -/
def textAt? (path : String) (files : List (String × String)) : Option String :=
  (files.find? fun entry => entry.1 == path).map (·.2)

/-- The text at a path. -/
def get? (shelf : Shelf) (path : String) : Option String := textAt? path shelf.files

/-- Files with the text at a path replaced, or added at the end. -/
def putFile (path text : String) : List (String × String) → List (String × String)
  | [] => [(path, text)]
  | entry :: rest =>
    if entry.1 = path then (path, text) :: rest else entry :: putFile path text rest

/-- The shelf with a text at a path. -/
def put (shelf : Shelf) (path text : String) : Shelf :=
  { shelf with files := putFile path text shelf.files }

/-- A shelf with the given texts; of two at one path the later one is kept. -/
def ofList (files : List (String × String)) (readOnly : List String) : Shelf :=
  files.foldl (fun shelf entry => shelf.put entry.1 entry.2) ⟨[], readOnly⟩

instance : Store Shelf where
  read shelf path :=
    match shelf.get? path with
    | some text => .ok text
    | none => .error ⟨.notFound, "not found", false⟩
  write shelf path text :=
    if shelf.readOnly.contains path then
      .error (.file ⟨.permissionDenied, "read-only", (shelf.get? path).isSome⟩)
    else .ok (shelf.put path text)

end Shelf
end Bindery
