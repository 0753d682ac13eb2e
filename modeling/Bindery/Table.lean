import Bindery.Path.DocumentPath
import Bindery.Warning

/-!
# `Table` — what is known during a compilation

The table is a stack of scopes. A value is looked up from the innermost scope outwards. A local write touches the
innermost scope only; a global write touches every scope there is, which is how an id declared deep inside a tree of
includes is known to the whole project.

## Contents
- `Target`, `Value`, `Scope`, `Table`.
- `Table.get?` and its typed variants.
- Writes: `set`, `setGlobal`, `append`, `appendGlobal`, `register`, `warn`.
- Scopes: `push`, `pop`, `keep`, `inScope`.
-/

namespace Bindery

/-- What an id stands for: an output, and perhaps an anchor in it. -/
structure Target where
  destination : DocumentPath
  anchor : Option String
deriving DecidableEq, Repr

/-- A value of the table. -/
inductive Value where
  | text (text : String)
  | list (items : List String)
  | path (path : DocumentPath)
  | id (target : Target)
  | warnings (warnings : List Warning)
deriving DecidableEq, Repr

/-! ## Scopes -/

/-- The values of one scope by name. -/
structure Scope where
  entries : List (String × Value)
deriving DecidableEq, Repr

namespace Scope

/-- A scope without values. -/
def empty : Scope := ⟨[]⟩

/-- The value with the given name. -/
def get? (scope : Scope) (key : String) : Option Value :=
  (scope.entries.find? fun entry => entry.1 == key).map (·.2)

/-- Entries with the value of a name replaced, or added at the end. -/
def setEntry (key : String) (value : Value) : List (String × Value) → List (String × Value)
  | [] => [(key, value)]
  | entry :: rest =>
    if entry.1 = key then (key, value) :: rest else entry :: setEntry key value rest

/-- The scope with a value under the given name. -/
def set (scope : Scope) (key : String) (value : Value) : Scope :=
  ⟨setEntry key value scope.entries⟩

theorem get?_set_self (scope : Scope) (key : String) (value : Value) :
    (scope.set key value).get? key = some value := by
  obtain ⟨entries⟩ := scope
  induction entries with
  | nil => simp [set, setEntry, get?]
  | cons entry rest ih =>
    by_cases h : entry.1 = key
    · simp [set, setEntry, get?, h]
    · simpa [set, setEntry, get?, h] using ih

theorem get?_set_of_ne (scope : Scope) {key other : String} (value : Value) (h : other ≠ key) :
    (scope.set key value).get? other = scope.get? other := by
  obtain ⟨entries⟩ := scope
  induction entries with
  | nil => simp [set, setEntry, get?, h.symm]
  | cons entry rest ih =>
    by_cases he : entry.1 = key
    · have ho : entry.1 ≠ other := fun e => h (e.symm.trans he)
      simp [set, setEntry, get?, he, h.symm]
    · by_cases ho : entry.1 = other
      · simp [set, setEntry, get?, ho, h]
      · simpa [set, setEntry, get?, he, ho] using ih

/-- Add an item to the scope's list with the given name, unless it is there. Anything but a list is replaced. -/
def appendItem (key item : String) (scope : Scope) : Scope :=
  match scope.get? key with
  | some (.list items) =>
    if items.contains item then scope else scope.set key (.list (items ++ [item]))
  | _ => scope.set key (.list [item])

end Scope

/-! ## The table -/

/-- A stack of scopes: the outermost one, and the others with the innermost first. -/
structure Table where
  inner : List Scope
  root : Scope
deriving DecidableEq, Repr

namespace Table

/-- The name of the source that is being compiled. -/
def sourceKey : String := " source"

/-- The name of the output that is being compiled. -/
def destinationKey : String := " destination"

/-- The name of the list of warnings. -/
def warningsKey : String := " warnings"

/-- The name of the list of authors. -/
def authorsKey : String := " authors"

/-- A table with one scope, which holds an empty list of warnings. -/
def new : Table := ⟨[], Scope.empty.set warningsKey (.warnings [])⟩

/-- All scopes, innermost first. -/
def scopes (table : Table) : List Scope := table.inner ++ [table.root]

/-- How many scopes there are. -/
def depth (table : Table) : Nat := table.inner.length + 1

/-- Open a scope. -/
def push (table : Table) : Table := { table with inner := Scope.empty :: table.inner }

/-- Close the innermost scope; the outermost one stays. -/
def pop (table : Table) : Table := { table with inner := table.inner.tail }

/-- Close scopes until at most `count` are left inside the outermost one. -/
def keep (table : Table) (count : Nat) : Table :=
  { table with inner := table.inner.drop (table.inner.length - count) }

/-- Run `body` in a scope of its own, which is closed afterwards with all that were opened in it. -/
def inScope (body : Table → α × Table) (table : Table) : α × Table :=
  let (result, after) := body table.push
  (result, after.keep table.inner.length)

/-! ### Looking up -/

/-- The innermost value with the given name. -/
def get? (table : Table) (key : String) : Option Value := table.scopes.findSome? (·.get? key)

/-- Whether some scope has a value with the given name. -/
def has (table : Table) (key : String) : Bool := (table.get? key).isSome

/-- A text with the given name. -/
def text? (table : Table) (key : String) : Option String :=
  match table.get? key with
  | some (.text text) => some text
  | _ => none

/-- The list with the given name; a text is a list of one. -/
def list (table : Table) (key : String) : List String :=
  match table.get? key with
  | some (.list items) => items
  | some (.text text) => [text]
  | _ => []

/-- A path with the given name. -/
def path? (table : Table) (key : String) : Option DocumentPath :=
  match table.get? key with
  | some (.path path) => some path
  | _ => none

/-- What an id stands for. -/
def id? (table : Table) (id : String) : Option Target :=
  match table.get? id with
  | some (.id target) => some target
  | _ => none

/-- The warnings so far. -/
def warnings (table : Table) : List Warning :=
  match table.get? warningsKey with
  | some (.warnings warnings) => warnings
  | _ => []

/-- The source that is being compiled. -/
def source? (table : Table) : Option DocumentPath := table.path? sourceKey

/-- The output that is being compiled. -/
def destination? (table : Table) : Option DocumentPath := table.path? destinationKey

/-- The document that links are seen from: the output, or else the source. -/
def current? (table : Table) : Option DocumentPath := table.destination? <|> table.source?

/-- The authors so far. -/
def authors (table : Table) : List String := table.list authorsKey

/-! ### Writing -/

/-- Change the innermost scope. -/
def mapInnermost (table : Table) (f : Scope → Scope) : Table :=
  match table.inner with
  | [] => { table with root := f table.root }
  | scope :: outer => { table with inner := f scope :: outer }

/-- Change every scope. -/
def mapAll (table : Table) (f : Scope → Scope) : Table := ⟨table.inner.map f, f table.root⟩

/-- Write a value into the innermost scope. -/
def set (table : Table) (key : String) (value : Value) : Table :=
  table.mapInnermost (·.set key value)

/-- Write a value into every scope. -/
def setGlobal (table : Table) (key : String) (value : Value) : Table :=
  table.mapAll (·.set key value)

/-- Write the visible list with one more item into the innermost scope, unless the item is there. -/
def append (table : Table) (key item : String) : Table :=
  if (table.list key).contains item then table
  else table.set key (.list (table.list key ++ [item]))

/-- Add an item to the list of every scope that does not have it. -/
def appendGlobal (table : Table) (key item : String) : Table :=
  table.mapAll (Scope.appendItem key item)

/-- Make an id known everywhere. An id that stands for something else is refused with what it stands for. -/
def register (table : Table) (id : String) (target : Target) : Except Target Table :=
  match table.id? id with
  | some existing => if existing = target then .ok table else .error existing
  | none => .ok (table.setGlobal id (.id target))

/-- The scope with one more warning, if it has a list of warnings. -/
def warnScope? (warning : Warning) (scope : Scope) : Option Scope :=
  match scope.get? warningsKey with
  | some (.warnings warnings) => some (scope.set warningsKey (.warnings (warnings ++ [warning])))
  | _ => none

/-- The scopes with one more warning in the first list of warnings among them. -/
def warnScopes? (warning : Warning) : List Scope → Option (List Scope)
  | [] => none
  | scope :: outer =>
    match warnScope? warning scope with
    | some changed => some (changed :: outer)
    | none => (warnScopes? warning outer).map (scope :: ·)

/-- Add a warning to the innermost list of warnings. -/
def warn (table : Table) (warning : Warning) : Table :=
  match warnScopes? warning table.inner with
  | some inner => { table with inner := inner }
  | none =>
    match warnScope? warning table.root with
    | some root => { table with root := root }
    | none => table

end Table
end Bindery
