import Bindery.Section
import Bindery.Table

/-!
# `Section.Emission` — what a tree of sections says, in the order it is written

A tree is flattened into texts. A text is inline if it flows with its neighbours, and a block if it stands alone. At the
place for included sections stands what these say.

## Contents
- `Emission`.
- `Table.linkTo`: the link to what an id stands for.
- `Section.contents`: the items of a table of contents.
- `Section.emissions`.
-/

namespace Bindery

/-- A text to be written. -/
inductive Emission where
  /-- A text that may continue a line of its document. -/
  | inline (text : String) (location : Location)
  /-- A text with a blank line on both sides. -/
  | block (text : String)
deriving DecidableEq, Repr

/-- The link to what an id stands for, seen from the document that is being compiled. A place in that document itself is
linked by its anchor alone. -/
def Table.linkTo (table : Table) (id : String) (location : Location) : Except Fault String :=
  match table.id? id with
  | none => .error ⟨.idUnknown id, location⟩
  | some target =>
    let anchor := target.anchor.getD ""
    match table.current? with
    | none => .ok (target.destination.text ++ anchor)
    | some current =>
      if current = target.destination ∧ anchor ≠ "" then .ok anchor
      else .ok (current.linkTo target.destination ++ anchor)

/-- An included section as a table of contents shows it. -/
structure ContentsItem where
  label : String
  title : String
  link : String
deriving DecidableEq, Repr

namespace ContentsItem

/-- The link of an item, with its label if the style asks for it. -/
def anchorText (style : BulletStyle) (item : ContentsItem) : String :=
  let text := if style.isLabeled then item.label ++ ": " ++ item.title else item.title
  "[" ++ text ++ "](" ++ item.link ++ ")"

/-- The line of the item with the given number. -/
def line (style : BulletStyle) (number : Nat) (item : ContentsItem) : String :=
  match style with
  | .numbered | .numberedLabeled => toString number ++ ". " ++ item.anchorText style
  | .bulleted | .bulletedLabeled => "* " ++ item.anchorText style
  | .unlabeled | .labeled => item.anchorText style
  | .noTable => ""

/-- The lines of items that are numbered from `number`. -/
def lines (style : BulletStyle) (number : Nat) : List ContentsItem → List String
  | [] => []
  | item :: rest => item.line style number :: lines style (number + 1) rest

end ContentsItem

namespace Section

/-- The item for an entry. An entry without a document, or whose document has no title, has none. -/
def contentsItem? : Entry × Option Section → Option ContentsItem
  | (_, none) => none
  | (entry, some document) => document.title?.map fun (title, link) => ⟨entry.label, title, link⟩

/-- The table of contents of some entries. -/
def contents (style : BulletStyle) (includes : List (Entry × Option Section)) : String :=
  "\n".intercalate (ContentsItem.lines style 1 (includes.filterMap contentsItem?))

/-- What a node of a section at the given depth says; `included` is what the included sections say. -/
def nodeEmissions (table : Table) (depth : Nat) (includes : List (Entry × Option Section))
    (included : Except Fault (List Emission)) : Node → Except Fault (List Emission)
  | .prose value location => .ok [.inline value location]
  | .title _ label _ none _ => .ok [.block label]
  | .title _ label _ (some subtitle) _ =>
    .ok [.block label, .block (headingLine (depth + 2) subtitle)]
  | .heading level text _ => .ok [.block (headingLine (level + depth) text)]
  | .content _ => included
  | .tableOfContents _ .noTable _ => .ok []
  | .tableOfContents none style _ => .ok [.block (contents style includes)]
  | .tableOfContents (some label) style _ =>
    .ok [.block (headingLine (depth + 1) label), .block (contents style includes)]
  | .pathTo id location => (table.linkTo id location).map fun link => [.inline link location]

/-- What some nodes of a section say, in order. -/
def nodesEmissions (table : Table) (depth : Nat) (includes : List (Entry × Option Section))
    (included : Except Fault (List Emission)) : List Node → Except Fault (List Emission)
  | [] => .ok []
  | node :: rest => do
    let first ← nodeEmissions table depth includes included node
    let others ← nodesEmissions table depth includes included rest
    return first ++ others

mutual

/-- What a tree of sections says, in order. -/
def emissions (table : Table) : Section → Except Fault (List Emission)
  | ⟨start, nodes, includes⟩ =>
    nodesEmissions table start.document.depth includes (includedEmissions table includes) nodes

/-- What the documents of some entries say, in order. -/
def includedEmissions (table : Table) :
    List (Entry × Option Section) → Except Fault (List Emission)
  | [] => .ok []
  | (_, none) :: rest => includedEmissions table rest
  | (_, some document) :: rest => do
    let first ← document.emissions table
    let others ← includedEmissions table rest
    return first ++ others

end

end Section
end Bindery
