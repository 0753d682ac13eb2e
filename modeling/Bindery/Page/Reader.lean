import Bindery.Grammar.Languages
import Bindery.Identifier
import Bindery.Page.Prose
import Bindery.Table
import Bindery.Text.Anchor

/-!
# `Page.Reader` — from directives to pages

A page is read from items that follow the grammar of documents. Reading a page leaves traces in the table: the authors
it names, the id it declares, and a warning if it includes sections without saying where they go. What was
written before a fault stays.

## Contents
- `ReadM`: reading with a table.
- `readMeta`, `readContent`, `readPathTo`: one directive each.
- `Page.ofTokens`, `Page.ofText`.
-/

namespace Bindery

open Source Text

/-- Reading, with faults and a table that outlives them. -/
abbrev ReadM := ExceptT Fault (StateM Table)

/-- A result that does not depend on the table. -/
def ReadM.ofExcept (result : Except Fault α) : ReadM α := ExceptT.mk (pure result)

/-- Read with the given table: the result, and the table afterwards. -/
def ReadM.exec (reading : ReadM α) (table : Table) : Except Fault α × Table :=
  StateT.run (ExceptT.run reading) table

/-- Name the authors of a section. -/
def addAuthors (form : Form) (table : Table) : Table :=
  (form.childrenNamed "author").foldl
    (fun table author =>
      match author.parameterText? with
      | some name => table.appendGlobal Table.authorsKey name
      | none => table)
    table

/-- What an id declared in a document stands for: the section's place in the output that is being compiled. -/
def sectionTarget (document : Coordinate) (link : String) (table : Table) : Target :=
  ⟨table.current?.getD (.resolve document.path "/"), some link⟩

/-- The full text of what an id stands for. -/
def Target.text (target : Target) : String := target.destination.text ++ target.anchor.getD ""

/-- Declare the id of a section, if it has one. -/
def declareId (form : Form) (link : String) : ReadM Unit :=
  match form.child? "id" with
  | none => pure ()
  | some idForm => do
    let id ← ReadM.ofExcept idForm.readId
    let table ← get
    match table.register id (sectionTarget form.location.document link table) with
    | .ok table => set table
    | .error existing => throw ⟨.idTaken id existing.text, idForm.parameterLocation⟩

/-- The sections that a section includes. Their paths are seen from the document. -/
def readEntries (form : Form) : List Entry :=
  match form.child? "include" with
  | none => []
  | some includes =>
    let document := DocumentPath.resolve form.location.document.path "/"
    includes.children.map fun entry =>
      { location := entry.location
        path := document.sibling entry.parameterText
        label := String.ofList (entry.atom.toList.map fun c => if c = '-' then ' ' else c) }

/-- The link to a section: its own, or that of its title. -/
def sectionLink (form : Form) (title : String) : String :=
  match form.child? "ref-link" with
  | some link => anchorLink link.parameterText
  | none => anchorLink title

/-- What is said about a section: its title node and its includes. -/
def readMeta (form : Form) : ReadM (Node × List Entry) := do
  match form.child? "title" with
  | none => throw ⟨.formRequired "title" form.atom, form.location⟩
  | some titleForm =>
    let title := titleForm.parameterText
    let link := sectionLink form title
    let subtitle := (form.child? "subtitle").bind Form.parameterText?
    modify (addAuthors form)
    declareId form link
    let label := headingLine form.location.document.depth title
    return (.title title label link subtitle form.location, readEntries form)

/-- The style of a table of contents, from its parameter or its sub-form. -/
def readStyle (form : Form) : Except Fault BulletStyle :=
  match form.parameter, form.child? "style" with
  | some _, some style => .error ⟨.styleTwice, style.location⟩
  | some parameter, none => BulletStyle.ask parameter.text parameter.location
  | none, some style => BulletStyle.ask style.parameterText style.parameterLocation
  | none, none => .ok .numbered

/-- The place of the included sections, perhaps with a table of contents above it. -/
def readContent (form : Form) : Except Fault (List Node) :=
  match form.child? "toc" with
  | none => .ok [.content form.location]
  | some toc => do
    let style ← readStyle toc
    let label := (toc.child? "label").bind Form.parameterText?
    return [.tableOfContents label style toc.location, .content form.location]

/-- The nodes and the includes of one item. -/
def readItem : Item → ReadM (List Node × List Entry)
  | .prose text location => pure ((Node.ofProse? text location).toList, [])
  | .form form =>
    if form.atom = "section-meta" then do
      let (title, entries) ← readMeta form
      return ([title], entries)
    else if form.atom = "content" then do
      return (← ReadM.ofExcept (readContent form), [])
    else if form.atom = "get-path" then do
      return ([.pathTo (← ReadM.ofExcept form.readId) form.location], [])
    else pure ([.heading form.atom.length form.parameterText form.location], [])

/-- The nodes and the includes of some items, in order. -/
def readNodes : List Item → ReadM (List Node × List Entry)
  | [] => pure ([], [])
  | item :: rest => do
    let (nodes, entries) ← readItem item
    let (moreNodes, moreEntries) ← readNodes rest
    return (nodes ++ moreNodes, entries ++ moreEntries)

namespace Page

/-- A page that includes sections without saying where they go. -/
def isMissingContent (page : Page) : Bool := !page.entries.isEmpty && !page.hasContent

/-- The warning about a page that does not say where its includes go. -/
def missingContent (page : Page) : Warning where
  message := "'" ++ page.start.document.path ++ "' includes sections but has no (content) location"
  location := some page.start

/-- The page that tokens spell. There is none if they say nothing. -/
def ofTokens (tokens : List Token) : ReadM (Option Page) :=
  match tokens with
  | [] => pure none
  | first :: _ => do
    let start := first.location.document.start
    let items ← ReadM.ofExcept (Item.ofTokens tokens)
    ReadM.ofExcept (Grammar.document.check start items)
    let (nodes, entries) ← readNodes items
    let page : Page := ⟨start, nodes, entries⟩
    if nodes.isEmpty && entries.isEmpty then return none
    if page.isMissingContent then modify (·.warn page.missingContent)
    return some page

/-- The page of a document given as text, and the table after reading it. -/
def ofText (document : Coordinate) (text : String) (table : Table) :
    Except Failure (Option Page) × Table :=
  match split document text with
  | .error failure => (.error failure, table)
  | .ok parts =>
    match tokenize parts with
    | .error fault => (.error fault.toFailure, table)
    | .ok tokens =>
      let (result, table) := (ofTokens tokens).exec table
      (result.mapError Fault.toFailure, table)

end Page
end Bindery
