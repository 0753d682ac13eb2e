import Bindery.Failure

/-!
# `Storage.Refusal` — why a file could not be read or written

## Contents
- `RefusalKind`, `Refusal`, `SaveRefusal`.
- `Failure.ofRefusal`.
-/

namespace Bindery

/-- What kind of obstacle there was. -/
inductive RefusalKind where
  | notFound
  | permissionDenied
  | alreadyExists
  | notADirectory
  | isADirectory
  | invalidData
  | unexpectedEnd
  | interrupted
  | other
deriving DecidableEq, Repr

/-- How a kind of obstacle is called. -/
def RefusalKind.text : RefusalKind → String
  | .notFound => "entity not found"
  | .permissionDenied => "permission denied"
  | .alreadyExists => "entity already exists"
  | .notADirectory => "not a directory"
  | .isADirectory => "is a directory"
  | .invalidData => "invalid data"
  | .unexpectedEnd => "unexpected end of file"
  | .interrupted => "operation interrupted"
  | .other => "other error"

/-- An obstacle, how the system describes it, and whether something is at the path all the same. -/
structure Refusal where
  kind : RefusalKind
  text : String
  isThere : Bool
deriving DecidableEq, Repr

/-- Why a file could not be saved: its directory could not be made, or the file itself not be written. -/
inductive SaveRefusal where
  | directory (refusal : Refusal)
  | file (refusal : Refusal)
deriving DecidableEq, Repr

/-- An obstacle as a failure that names no file. -/
def Failure.ofRefusal (refusal : Refusal) : Failure :=
  match refusal.kind with
  | .notFound => .general ("File not found: " ++ refusal.text) none
  | .permissionDenied => .general ("Permission denied: " ++ refusal.text) none
  | kind => .general ("IOError: " ++ kind.text) none

/-- A text could not be formatted. -/
def Failure.ofFormatting : Failure := .general "an error occurred when formatting an argument" none

end Bindery
