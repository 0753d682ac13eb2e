import Bindery.Storage.FileM

/-!
# `Storage.Disk` — a tree of directories and files

A path is walked step by step from the root, so a missing step, or a file where a directory is needed, is found where it
stands. Writing makes the directories that are missing. Files hold bytes; only those that spell a text can be read.

## Contents
- `Disk`, `Item`, `Disk.item?`.
- `Disk.locate`, `Disk.read`.
- `Disk.prepare`, `Disk.write`.
- `Disk.ofFiles`.
-/

namespace Bindery

/-- Files and directories, by the names that lead to them from the root. -/
structure Disk where
  files : List (List String × ByteArray)
  directories : List (List String)

namespace Disk

/-- What can be at a place. -/
inductive Item where
  | directory
  | file (bytes : ByteArray)

/-! ## Refusals -/

/-- There is nothing at the path, or on the way to it. -/
def absent : Refusal := ⟨.notFound, "No such file or directory (os error 2)", false⟩

/-- Something stands where a directory is to be made. -/
def inTheWay : Refusal := ⟨.alreadyExists, "File exists (os error 17)", true⟩

/-- The way leads through something that is no directory. -/
def noDirectory : Refusal := ⟨.notADirectory, "Not a directory (os error 20)", false⟩

/-- There is a directory where a file is wanted. -/
def onlyDirectory : Refusal := ⟨.isADirectory, "Is a directory (os error 21)", true⟩

/-- The bytes of the file spell no text. -/
def noText : Refusal := ⟨.invalidData, "stream did not contain valid UTF-8", true⟩

/-! ## Reading -/

/-- What the names lead to. There always is a root directory. -/
def item? (disk : Disk) (names : List String) : Option Item :=
  if names = [] ∨ names ∈ disk.directories then some .directory
  else (disk.files.find? fun entry => entry.1 == names).map fun entry => .file entry.2

/-- What one more step leads to from the place `names`, which must be a directory. -/
def step (disk : Disk) (names : List String) (segment : List Char) :
    Except Refusal (List String) :=
  match disk.item? names with
  | none => .error absent
  | some (.file _) => .error noDirectory
  | some .directory =>
    match Path.Component.ofSegment? segment with
    | some (.name name) => .ok (names ++ [name])
    | some .parent => .ok names.dropLast
    | _ => .ok names

/-- What a path leads to. -/
def locate (disk : Disk) (path : String) : Except Refusal Item := do
  let names ← (Path.segments path.toList).foldlM disk.step []
  match disk.item? names with
  | some item => .ok item
  | none => .error absent

/-- The text of the file at a path. -/
def read (disk : Disk) (path : String) : Except Refusal String := do
  match ← disk.locate path with
  | .directory => .error onlyDirectory
  | .file bytes =>
    match String.fromUTF8? bytes with
    | some text => .ok text
    | none => .error noText

/-! ## Writing -/

/-- The names that a path goes through. -/
def namesOf (path : String) : List String :=
  (Path.components path).foldl
    (fun names component =>
      match component with
      | .name name => names ++ [name]
      | .parent => names.dropLast
      | _ => names)
    []

/-- The places on the way to a directory, with the directory itself last. -/
def wayTo (directory : List String) : List (List String) :=
  (List.range directory.length).map fun n => directory.take (n + 1)

/-- Whether the names lead to a file. -/
def isFile (disk : Disk) (names : List String) : Bool :=
  match disk.item? names with
  | some (.file _) => true
  | _ => false

/-- Make a directory and all that lead to it. A file can be in the way: in place of the directory itself, or further
up. -/
def prepare (disk : Disk) (directory : List String) : Except Refusal Disk :=
  match (wayTo directory).find? disk.isFile with
  | some place => .error (if place = directory then inTheWay else noDirectory)
  | none =>
    .ok { disk with
      directories := disk.directories ++ (wayTo directory).filter (· ∉ disk.directories) }

/-- Files with the bytes at a place replaced, or added at the end. -/
def putBytes (names : List String) (bytes : ByteArray) :
    List (List String × ByteArray) → List (List String × ByteArray)
  | [] => [(names, bytes)]
  | entry :: rest =>
    if entry.1 = names then (names, bytes) :: rest else entry :: putBytes names bytes rest

/-- Write a text to a path. -/
def write (disk : Disk) (path text : String) : Except SaveRefusal Disk :=
  let names := namesOf path
  match disk.prepare names.dropLast with
  | .error refusal => .error (.directory refusal)
  | .ok disk =>
    match disk.item? names with
    | some .directory => .error (.file onlyDirectory)
    | _ => .ok { disk with files := putBytes names text.toUTF8 disk.files }

instance : Store Disk where
  read := read
  write := write

/-- A disk with the given files and directories, and all directories that lead to them. -/
def ofFiles (files : List (List String × ByteArray)) (directories : List (List String)) : Disk :=
  ⟨files, (directories ++ files.map (·.1.dropLast)).flatMap wayTo⟩

end Disk
end Bindery
