import Bindery.Grammar.Languages
import Bindery.Identifier

/-!
# `Project` — the documents of a project

A project file lists the documents to be compiled together: for each its source, its output, and perhaps an id by
which the others can link to it.

## Contents
- `ProjectDocument`, `Project`.
- `readDocument`, `Project.ofText`.
-/

namespace Bindery

open Source

/-- One document of a project. -/
structure ProjectDocument where
  source : DocumentPath
  output : DocumentPath
  id : Option String
  location : Location
deriving DecidableEq, Repr

/-- A project, and where its file is. -/
structure Project where
  path : DocumentPath
  documents : List ProjectDocument
deriving DecidableEq, Repr

/-- The text of a sub-form's parameter. -/
def Form.childText (form : Form) (atom : String) : String :=
  ((form.child? atom).bind Form.parameterText?).getD ""

/-- The id of a document, if it has one. -/
def readDocumentId (form : Form) : Except Fault (Option String) :=
  match form.child? "id" with
  | none => .ok none
  | some idForm => idForm.readId.map some

/-- One document of the project at `path`. Its paths are seen from the project file. -/
def readDocument (path : DocumentPath) (form : Form) : Except Fault ProjectDocument :=
  (readDocumentId form).map fun id =>
    { source := path.sibling (form.childText "source")
      output := path.sibling (form.childText "output")
      id := id
      location := form.location }

/-- Documents in order, up to the first fault. -/
def readDocuments (path : DocumentPath) : List Form → Except Fault (List ProjectDocument)
  | [] => .ok []
  | form :: rest => do
    let document ← readDocument path form
    let documents ← readDocuments path rest
    return document :: documents

/-- The project that a file at `path` describes. -/
def Project.ofText (path : DocumentPath) (text : String) : Except Failure Project := do
  let document ← Coordinate.make path.text 1 1
  let parts ← split document text
  let tokens ← (tokenize parts).mapError Fault.toFailure
  let items ← (Item.ofTokens tokens).mapError Fault.toFailure
  if items.isEmpty then
    throw (.general "Project file contains no documents" (some path.text))
  (Grammar.project.check document.start items).mapError Fault.toFailure
  let forms := (Item.forms items).flatMap (·.childrenNamed "document")
  let documents ← (readDocuments path forms).mapError Fault.toFailure
  return ⟨path, documents⟩

end Bindery
