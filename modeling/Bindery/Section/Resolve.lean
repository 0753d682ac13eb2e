import Bindery.Page.Reader
import Bindery.Section
import Bindery.Settings
import Bindery.Storage.FileM

/-!
# `Section.Resolve` — following includes

Starting from a document, each entry of an include list is loaded, read and followed in turn, in a scope of its own,
before the next one. How deep a chain of includes may go is counted down, and a chain may be kept from coming back to
one of its documents. The first failure anywhere ends it all, but the table keeps what was written until then.

## Contents
- `CompileM`: compiling with files, failures and a table.
- `loadPage`: one document.
- `Page.fill`, `follow`: the entries of a page, and what one entry leads to.
- `Section.resolve`: the whole tree.
-/

namespace Bindery

/-- Compiling: files are read and written, failures end it, and a table outlives them. -/
abbrev CompileM := ExceptT Failure (StateT Table FileM)

namespace CompileM

/-- Compile with the given table: the result, and the table afterwards. -/
def exec (compiling : CompileM α) (table : Table) : FileM (Except Failure α × Table) :=
  StateT.run (ExceptT.run compiling) table

/-- A step that works on files only. -/
def ofFile (step : FileM (Except Failure α)) : CompileM α :=
  ExceptT.mk fun table => step >>= fun result => pure (result, table)

/-- A step that works on the table only. -/
def ofTable (step : Table → Except Failure α × Table) : CompileM α :=
  ExceptT.mk fun table => pure (step table)

/-- A result that depends on neither. -/
def ofExcept (result : Except Fault α) : CompileM α :=
  ExceptT.mk (pure (result.mapError Fault.toFailure))

/-- Compile in a scope of its own, which is closed on success and on failure alike. -/
def inScope (compiling : CompileM α) : CompileM α :=
  ExceptT.mk fun table => do
    let (result, after) ← compiling.exec table.push
    return (result, after.keep table.inner.length)

end CompileM

/-- Load and read one document, without following its includes. -/
def loadPage (path : DocumentPath) (chain : List DocumentPath) (document : Coordinate) :
    CompileM (Option Page) := do
  let text ← CompileM.ofFile (FileM.load path chain)
  CompileM.ofTable (Page.ofText document text)

/-- Look up entries in order, the first of which has the given index. -/
def fillEntries (visit : Nat → Entry → CompileM (Option Section)) (index : Nat) :
    List Entry → CompileM (List (Entry × Option Section))
  | [] => pure []
  | entry :: rest => do
    let document ← visit index entry
    let others ← fillEntries visit (index + 1) rest
    return (entry, document) :: others

/-- Look up the entries of a page. -/
def Page.fill (visit : Nat → Entry → CompileM (Option Section)) (page : Page) :
    CompileM Section := do
  return ⟨page.start, page.nodes, ← fillEntries visit 1 page.entries⟩

/-- What an entry leads to, if its document says anything. The entry has the given index in the document at `parent`,
which the chain of documents led to; at most `remaining` more levels may follow below that document. -/
def follow (settings : Settings) :
    Nat → List DocumentPath → Coordinate → Nat → Entry → CompileM (Option Section)
  | 0, _, _, _, entry =>
    throw (Fault.toFailure ⟨.includeTooDeep settings.maxIncludeDepth entry.path, entry.location⟩)
  | remaining + 1, chain, parent, index, entry =>
    if settings.checkIncludeCycles && chain.contains entry.path then
      throw (Fault.toFailure ⟨.includeCycle (chain ++ [entry.path]), entry.location⟩)
    else CompileM.inScope do
      modify (·.set Table.sourceKey (.path entry.path))
      let document : Coordinate := ⟨entry.path.text, parent.depth + 1, index⟩
      match ← loadPage entry.path (chain ++ [entry.path]) document with
      | none => return none
      | some page =>
        return some (← page.fill (follow settings remaining (chain ++ [entry.path]) document))

/-- The tree of sections that starts at the document at `path`, if that document says anything. -/
def Section.resolve (settings : Settings) (path : DocumentPath) : CompileM (Option Section) := do
  let document : Coordinate := ⟨path.text, 1, 1⟩
  match ← loadPage path [path] document with
  | none => return none
  | some page =>
    return some (← page.fill (follow settings (settings.maxIncludeDepth - 1) [path] document))

end Bindery
