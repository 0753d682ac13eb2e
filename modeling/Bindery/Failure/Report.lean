import Bindery.Failure
import Bindery.Json.Printer
import Bindery.Json.Reader

/-!
# `Failure.Report` — failures as JSON

A failure is an object with one member, named for its kind, that holds its parts by name. Reading accepts further
members, and a missing path of a general failure is no path. An output may also
be the list of its source and its destination.

## Contents
- `Failure.toJson`, `Failure.report`.
- `Failure.ofJson?`, `Failure.ofReport?`.
-/

namespace Bindery

/-- An output as a JSON object. -/
def Output.toJson (output : Output) : Json :=
  .object [("source", .string output.source), ("destination", .string output.destination)]

namespace Failure

mutual

/-- A failure as a JSON object. -/
def toJson : Failure → Json
  | .code message path line column =>
    .object [("Code", .object [("message", .string message), ("path", .string path),
      ("line", .integer line), ("char", .integer column)])]
  | .general message none =>
    .object [("General", .object [("message", .string message), ("path", .null)])]
  | .general message (some path) =>
    .object [("General", .object [("message", .string message), ("path", .string path)])]
  | .project compiled failures =>
    .object [("Project", .object [("compiled", .array (compiled.map Output.toJson)),
      ("failures", .array (toJsonAll failures))])]

/-- A list of failures as JSON objects. -/
def toJsonAll : List Failure → List Json
  | [] => []
  | failure :: others => failure.toJson :: toJsonAll others

end

/-- A failure as a JSON text. -/
def report (failure : Failure) : String := failure.toJson.pretty

/-- A text. -/
def textOf? : Json → Option String
  | .string value => some value
  | _ => none

/-- A line or a column, which fits in 64 bits. -/
def countOf? : Json → Option Nat
  | .integer (.ofNat n) => if n ≤ 18446744073709551615 then some n else none
  | _ => none

/-- A path that may be missing. -/
def pathOf? : Option Json → Option (Option String)
  | none => some none
  | some .null => some none
  | some (.string path) => some (some path)
  | some _ => none

/-- An output, from an object or from the list of its parts. -/
def outputOf? : Json → Option Output
  | .object members => do
    let source ← (Json.member? members "source").bind textOf?
    let destination ← (Json.member? members "destination").bind textOf?
    return ⟨source, destination⟩
  | .array [.string source, .string destination] => some ⟨source, destination⟩
  | _ => none

/-- The outputs of a project. -/
def outputsOf? : Json → Option (List Output)
  | .array items => items.mapM outputOf?
  | _ => none

mutual

/-- The failure a JSON value stands for. -/
def ofJson? : Json → Option Failure
  | .object [(kind, .object members)] =>
    if kind = "Code" then do
      let message ← (Json.member? members "message").bind textOf?
      let path ← (Json.member? members "path").bind textOf?
      let line ← (Json.member? members "line").bind countOf?
      let column ← (Json.member? members "char").bind countOf?
      return .code message path line column
    else if kind = "General" then do
      let message ← (Json.member? members "message").bind textOf?
      let path ← pathOf? (Json.member? members "path")
      return .general message path
    else if kind = "Project" then do
      let compiled ← (Json.member? members "compiled").bind outputsOf?
      let failures ← failuresIn? members
      return .project compiled failures
    else none
  | _ => none

/-- The failures among the members of a project. -/
def failuresIn? : List (String × Json) → Option (List Failure)
  | [] => none
  | (name, .array items) :: others =>
    if name = "failures" then ofJsonAll? items else failuresIn? others
  | (name, _) :: others => if name = "failures" then none else failuresIn? others

/-- A list of failures. -/
def ofJsonAll? : List Json → Option (List Failure)
  | [] => some []
  | item :: others => do
    let failure ← ofJson? item
    let failures ← ofJsonAll? others
    return failure :: failures

end

/-- The failure a JSON text stands for. -/
def ofReport? (text : String) : Option Failure := (Json.read? text).bind ofJson?

end Failure
end Bindery
