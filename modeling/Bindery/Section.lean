import Bindery.Page

/-!
# `Section` — a page together with the sections it includes

## Contents
- `Section`: the tree; an entry has no document if its file says nothing or was not looked up.
- `Section.page`: the page at the top of a tree.
- `Section.title?`, `Section.hasContent`.
-/

namespace Bindery

/-- A page whose entries have been looked up. -/
structure Section where
  start : Location
  nodes : List Node
  includes : List (Entry × Option Section)

namespace Section

/-- The page at the top of a tree. -/
def page (tree : Section) : Page := ⟨tree.start, tree.nodes, tree.includes.map (·.1)⟩

/-- The title of a section and the link to it. -/
def title? (tree : Section) : Option (String × String) := tree.nodes.findSome? Node.title?

/-- Whether a section says where its included sections go. -/
def hasContent (tree : Section) : Bool := tree.nodes.any Node.isContent

end Section

/-- A page none of whose entries has been looked up. -/
def Page.toSection (page : Page) : Section := ⟨page.start, page.nodes, page.entries.map (·, none)⟩

end Bindery
