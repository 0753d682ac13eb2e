/-!
# `Failure` — why a compilation did not succeed

A fault in a document pinpoints a place in its text. Anything else that goes wrong (a missing file, a bad setting)
names at most a file. A project collects the failures of its documents, and says which documents came through.

## Contents
- `Output`, `Failure`.
- `Failure.display`, `Failure.message`, `Failure.position?`.
-/

namespace Bindery

/-- A document that was compiled although others of its project were not. -/
structure Output where
  source : String
  destination : String
deriving DecidableEq, Repr

/-- Why a compilation did not succeed. -/
inductive Failure where
  /-- A fault at a place in a document. -/
  | code (message path : String) (line column : Nat)
  /-- A failure that concerns a file as a whole, or none in particular. -/
  | general (message : String) (path : Option String)
  /-- The failures of a project's documents, beside the documents that were compiled. -/
  | project (compiled : List Output) (failures : List Failure)

namespace Failure

mutual

/-- The full text of a failure. -/
def display : Failure → String
  | .code message path line column =>
    message ++ " at '" ++ path ++ "' line " ++ toString line ++ ", char " ++ toString column
  | .general message none => message
  | .general message (some path) => message ++ " ('" ++ path ++ "')"
  | .project _ failures =>
    toString failures.length ++ " document(s) failed to compile:\n" ++ displayAll failures

/-- One line for each failure of a project. -/
def displayAll : List Failure → String
  | [] => ""
  | [failure] => "  - " ++ failure.display
  | failure :: others => "  - " ++ failure.display ++ "\n" ++ displayAll others

end

/-- What went wrong, without where; a project's message is its full text. -/
def message : Failure → String
  | .code message _ _ _ => message
  | .general message _ => message
  | failure@(.project _ _) => failure.display

/-- The line and column a fault is at. -/
def position? : Failure → Option (Nat × Nat)
  | .code _ _ line column => some (line, column)
  | _ => none

/-- Whether this is a fault in a document. -/
def isCode : Failure → Bool
  | .code .. => true
  | _ => false

/-- Whether this concerns a file as a whole, or none in particular. -/
def isGeneral : Failure → Bool
  | .general .. => true
  | _ => false

end Failure
end Bindery
