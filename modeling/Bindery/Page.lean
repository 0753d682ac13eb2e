import Bindery.Page.Style
import Bindery.Path.DocumentPath

/-!
# `Page` — one document, read but not yet joined with what it includes

## Contents
- `headingLine`: a heading as a line of Markdown.
- `Node`: what a page says, in order.
- `Entry`: a section that a page includes.
- `Page`.
-/

namespace Bindery

/-- A heading of the given level, with its marks on both sides. -/
def headingLine (level : Nat) (text : String) : String :=
  let marks := String.ofList (List.replicate level '#')
  marks ++ " " ++ text ++ " " ++ marks

/-- One thing a page says. -/
inductive Node where
  /-- Prose as it stands. -/
  | prose (value : String) (location : Location)
  /-- The title of the section: its text, its heading line, the link to it, and perhaps a subtitle. -/
  | title (name label link : String) (subtitle : Option String) (location : Location)
  /-- A heading below the title. -/
  | heading (level : Nat) (text : String) (location : Location)
  /-- The place where the included sections go. -/
  | content (location : Location)
  /-- A table of the included sections. -/
  | tableOfContents (label : Option String) (style : BulletStyle) (location : Location)
  /-- The path to what an id stands for. -/
  | pathTo (id : String) (location : Location)
deriving DecidableEq, Repr

namespace Node

/-- Where a node stands in its document. -/
def location : Node → Location
  | .prose _ location => location
  | .title _ _ _ _ location => location
  | .heading _ _ location => location
  | .content location => location
  | .tableOfContents _ _ location => location
  | .pathTo _ location => location

/-- Whether a node flows with the text around it. -/
def isInline : Node → Bool
  | .prose .. | .pathTo .. => true
  | _ => false

/-- Whether a node is the place of the included sections. -/
def isContent : Node → Bool
  | .content _ => true
  | _ => false

/-- The title and the link of a title node. -/
def title? : Node → Option (String × String)
  | .title name _ link _ _ => some (name, link)
  | _ => none

end Node

/-- A section that a page includes. -/
structure Entry where
  location : Location
  path : DocumentPath
  label : String
deriving DecidableEq, Repr

/-- A document as it was read. -/
structure Page where
  start : Location
  nodes : List Node
  entries : List Entry
deriving DecidableEq, Repr

namespace Page

/-- The title of a page and the link to it. -/
def title? (page : Page) : Option (String × String) := page.nodes.findSome? Node.title?

/-- Whether a page says where its included sections go. -/
def hasContent (page : Page) : Bool := page.nodes.any Node.isContent

end Page
end Bindery
