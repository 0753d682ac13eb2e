import Bindery.Project
import Bindery.Section.Layout
import Bindery.Section.Resolve

/-!
# `Compile` — from sources to outputs

A source is a document or a project. A document is read with all it includes, laid out, and written. The documents of a
project are first all read, so that each can link to the ids of the others, and then written; a document that fails does
not keep the others from being written.

## Contents
- `Compiled`: a document that came through.
- `parseSource`, `compileDocument`.
- `registerIds`, `parseAll`, `writeAll`, `compileProject`.
- `compile`: a source of any kind.
-/

namespace Bindery

/-- A document that was compiled. A document that is only checked may have no destination. -/
structure Compiled where
  source : DocumentPath
  destination : Option DocumentPath
  text : String
  warnings : List Warning
deriving DecidableEq, Repr

/-- Note in the innermost scope what is being compiled, and to where. -/
def Table.setCurrent (table : Table) (source destination : DocumentPath) : Table :=
  (table.set sourceKey (.path source)).set destinationKey (.path destination)

/-- Read a source with all it includes. Without a destination, links are seen from the source. -/
def parseSource (settings : Settings) (source : DocumentPath) (destination : Option DocumentPath) :
    CompileM (Option Section) := do
  modify (·.setCurrent source (destination.getD source))
  Section.resolve settings source

/-- Compile one document. It is written to its destination unless it is only checked. -/
def compileDocument (settings : Settings) (source : DocumentPath)
    (destination : Option DocumentPath) (test : Bool) : CompileM Compiled := do
  let before := (← get).warnings.length
  let tree ← parseSource settings source destination
  let text ← CompileM.ofExcept (render (← get) tree)
  let text ← match destination, test with
    | some path, false => CompileM.ofFile (FileM.save path text)
    | _, _ => pure text
  return ⟨source, destination, text, (← get).warnings.drop before⟩

/-! ## Projects -/

/-- A document of a project that has been read. -/
structure Parsed where
  document : ProjectDocument
  tree : Option Section
  warnings : List Warning

/-- Make the ids of a project known. An id that already stands for another output is a failure of its document. -/
def registerIds : List ProjectDocument → Table → List Failure × Table
  | [], table => ([], table)
  | document :: rest, table =>
    match document.id with
    | none => registerIds rest table
    | some id =>
      match table.register id ⟨document.output, none⟩ with
      | .ok table => registerIds rest table
      | .error existing =>
        let fault : Fault := ⟨.idTaken id existing.destination.text, document.location⟩
        let (failures, table) := registerIds rest table
        (fault.toFailure :: failures, table)

/-- Read one document of a project, with the warnings this gave. -/
def parseOne (settings : Settings) (document : ProjectDocument) : CompileM Parsed := do
  let before := (← get).warnings.length
  let tree ← parseSource settings document.source (some document.output)
  return ⟨document, tree, (← get).warnings.drop before⟩

/-- Read the documents of a project in order, each in a scope of its own: those that could be read, the failures of the
others, and the table afterwards. -/
def parseAll (settings : Settings) :
    List ProjectDocument → Table → FileM ((List Parsed × List Failure) × Table)
  | [], table => pure (([], []), table)
  | document :: rest, table => do
    let (result, table) ← (CompileM.inScope (parseOne settings document)).exec table
    let ((parsed, failures), table) ← parseAll settings rest table
    match result with
    | .ok first => return ((first :: parsed, failures), table)
    | .error failure => return ((parsed, failure :: failures), table)

/-- Lay out one document of a project, and write it unless it is only checked. -/
def writeOne (table : Table) (test : Bool) (parsed : Parsed) : FileM (Except Failure Compiled) :=
  let document := parsed.document
  let compiled (text : String) : Compiled :=
    ⟨document.source, some document.output, text, parsed.warnings⟩
  match render (table.push.setCurrent document.source document.output) parsed.tree with
  | .error fault => pure (.error fault.toFailure)
  | .ok text =>
    if test then pure (.ok (compiled text))
    else return (← FileM.save document.output text).map compiled

/-- Lay out and write documents in order: those that came through, and the failures of the others. -/
def writeAll (table : Table) (test : Bool) : List Parsed → FileM (List Compiled × List Failure)
  | [] => pure ([], [])
  | parsed :: rest => do
    let result ← writeOne table test parsed
    let (compiled, failures) ← writeAll table test rest
    match result with
    | .ok first => return (first :: compiled, failures)
    | .error failure => return (compiled, failure :: failures)

/-- A compiled document as a failing project reports it. -/
def Compiled.output? (compiled : Compiled) : Option Output :=
  compiled.destination.map fun destination => ⟨compiled.source.text, destination.text⟩

/-- What became of a project: all its documents, or its failures beside the documents that came through. -/
def projectResult (compiled : List Compiled) (failures : List Failure) :
    Except Failure (List Compiled) :=
  if failures.isEmpty then .ok compiled
  else .error (.project (compiled.filterMap Compiled.output?) failures)

/-- Compile every document of a project. If two of its ids clash, none is read. -/
def compileDocuments (settings : Settings) (test : Bool) (documents : List ProjectDocument) :
    FileM (Except Failure (List Compiled)) := do
  let (clashes, table) := registerIds documents Table.new
  if !clashes.isEmpty then return .error (.project [] clashes)
  let ((parsed, unread), table) ← parseAll settings documents table
  let (compiled, unwritten) ← writeAll table test parsed
  return projectResult compiled (unread ++ unwritten)

/-- Compile every document that the project file at `path` lists. -/
def compileProject (settings : Settings) (path : DocumentPath) (test : Bool) :
    FileM (Except Failure (List Compiled)) := do
  match ← FileM.load path [] with
  | .error failure => return .error failure
  | .ok text =>
    match Project.ofText path text with
    | .error failure => return .error failure
    | .ok project => compileDocuments settings test project.documents

/-! ## Sources of any kind -/

/-- Compile a source. A project lists its own outputs and takes no destination; any other source needs one, unless it is
only checked. -/
def compile (settings : Settings) (source : DocumentPath) (destination : Option DocumentPath)
    (test : Bool) : FileM (Except Failure (List Compiled)) :=
  match source.kind, destination with
  | .project, some _ =>
    pure (.error (.general "A project file lists its own outputs; remove the destination"
      (some source.text)))
  | .project, none => compileProject settings source test
  | _, destination =>
    if destination.isNone && !test then
      pure (.error (.general "A destination is required unless testing" (some source.text)))
    else do
      let (result, _) ← (compileDocument settings source destination test).exec Table.new
      return result.map fun compiled => [compiled]

end Bindery
