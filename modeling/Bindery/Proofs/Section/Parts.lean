import Bindery.Proofs.Displacement.Page
import Bindery.Proofs.Page.Entering
import Bindery.Proofs.Section.Unfolding
import Bindery.Storage.Shelf

/-!
# `Proofs.Section.Parts` — the sections of a completed tree

Every section of a completed tree is what its document says when it is read on its own, at the depth and index that
its place in the tree gives it; and whatever it holds lies in that document. So a tree is the unfolding of its
files, and neither the table nor the settings have a say in it.

## Contents
- `Section.Contains`: the sections of a tree.
- `Section.Faithful`: a section is what its document says, in its place.
- `Unfolds.faithful`: the sections of an unfolding are faithful.
- `resolve_unfolds`: a completed tree is the unfolding of its files.
-/

namespace Bindery

variable {σ : Type} [Store σ] {store : σ}

/-- The sections of a tree: the tree itself, and those that one of them includes. -/
inductive Section.Contains (tree : Section) : Section → Prop where
  | itself : tree.Contains tree
  | included {part document : Section} {entry : Entry} (hpart : tree.Contains part)
      (hentry : (entry, some document) ∈ part.includes) : tree.Contains document

/-- What a document at a coordinate says: its text is read, by a table that knows no ids or by any other that can take
its notes. -/
structure Coordinate.Says (store : σ) (document : Coordinate) (page : Option Page) : Prop where
  fresh : ∃ text, Store.read store document.path = .ok text ∧
    (Page.ofText document text Table.new).1 = .ok page
  every : ∀ text table found after, Store.read store document.path = .ok text →
    Page.ofText document text table = (.ok found, after) → found = page

/-- A section is what its document says, in its place: it starts where its document does; its entries lead one level
down, each with its index, and to nothing exactly where a document says nothing; all it holds lies in its document; and
its title stands between as many marks as it is deep. -/
structure Section.Faithful (store : σ) (part : Section) : Prop where
  start : part.start.position = ⟨1, 1⟩
  page : part.start.document.Says store (some part.page)
  missing : ∀ (i : Nat) (entry : Entry) (child : Option Section),
    part.includes[i]? = some (entry, child) →
      (child = none ↔
        Coordinate.Says store ⟨entry.path.text, part.start.document.depth + 1, i + 1⟩ none)
  child : ∀ (i : Nat) (entry : Entry) (child : Section),
    part.includes[i]? = some (entry, some child) →
      child.start = ⟨⟨entry.path.text, part.start.document.depth + 1, i + 1⟩, ⟨1, 1⟩⟩
  nodes : ∀ node ∈ part.nodes, node.location.document = part.start.document
  entries : ∀ included ∈ part.includes, included.1.location.document = part.start.document
  title : ∀ name label link subtitle location,
    Node.title name label link subtitle location ∈ part.nodes →
      label.toList = List.replicate part.start.document.depth '#' ++ ' ' :: name.toList ++
        ' ' :: List.replicate part.start.document.depth '#'

/-! ## What a document says -/

theorem Reads.said {document : Coordinate} {page : Option Page} {notes : List Note}
    (h : Reads store document page notes) :
    ∃ text, Store.read store document.path = .ok text ∧ Page.said document text = .ok page := by
  obtain ⟨text, htext, hread⟩ := h
  exact ⟨text, htext, Page.said_eq_ok_iff.2 ⟨notes, hread⟩⟩

theorem Reads.toSays {document : Coordinate} {page : Option Page} {notes : List Note}
    (hdepth : 1 ≤ document.depth) (hindex : 1 ≤ document.index)
    (h : Reads store document page notes) : document.Says store page where
  fresh := by
    obtain ⟨text, htext, hsaid⟩ := h.said
    exact ⟨text, htext, (Page.ofText_new_eq_ok_iff hdepth hindex).2 hsaid⟩
  every text table found after htext hfound := by
    obtain ⟨notes', hread, -⟩ := (Page.ofText_eq_ok_iff hdepth hindex).1 hfound
    exact ((h.unique ⟨text, htext, hread⟩).1).symm

theorem Coordinate.Says.unique {document : Coordinate} {page page' : Option Page}
    (h : document.Says store page) (h' : document.Says store page') : page = page' := by
  obtain ⟨text, htext, hpage⟩ := h.fresh
  exact h'.every text Table.new page _ htext (Prod.ext hpage rfl)

theorem toList_headingLine (depth : Nat) (name : String) :
    (headingLine depth name).toList =
      List.replicate depth '#' ++ ' ' :: name.toList ++ ' ' :: List.replicate depth '#' := by
  simp [headingLine]

/-! ## The sections of an unfolding -/

/-- An unfolding starts where its document does. -/
theorem Unfolds.start_eq {document : Coordinate} {tree : Section} {notes : List Note}
    (h : Unfolds store document (some tree) notes) : tree.start = document.start := by
  cases h with
  | page hread hentries hbelow =>
    obtain ⟨text, -, hsaid⟩ := hread.said
    exact Page.start_of_said hsaid

/-- An unfolding leads to nothing exactly where its document says nothing. -/
theorem Unfolds.eq_none_iff {document : Coordinate} {tree : Option Section} {notes : List Note}
    (hdepth : 1 ≤ document.depth) (hindex : 1 ≤ document.index)
    (h : Unfolds store document tree notes) : tree = none ↔ document.Says store none := by
  cases h with
  | nothing hread => exact ⟨fun _ => hread.toSays hdepth hindex, fun _ => rfl⟩
  | page hread hentries hbelow =>
    constructor
    · intro hnone
      cases hnone
    · intro hsays
      cases (hread.toSays hdepth hindex).unique hsays

/-- The page at the top of an unfolding is what its document says. -/
theorem Unfolds.reads_page {document : Coordinate} {tree : Section} {notes : List Note}
    (h : Unfolds store document (some tree) notes) :
    ∃ notes, Reads store document (some tree.page) notes := by
  cases h with
  | @page _ page notes found hread hentries hbelow =>
    -- forgetting what the entries lead to gives the page back that was read
    have hpage : Section.page ⟨page.start, page.nodes, found.map Found.included⟩ = page := by
      unfold Section.page
      rw [List.map_map]
      exact congrArg (Page.mk page.start page.nodes) hentries
    rw [hpage]
    exact ⟨notes, hread⟩

/-- The top of an unfolding is faithful. -/
theorem Unfolds.faithful_top {document : Coordinate} {tree : Section} {notes : List Note}
    (hdepth : 1 ≤ document.depth) (hindex : 1 ≤ document.index)
    (h : Unfolds store document (some tree) notes) : tree.Faithful store := by
  obtain ⟨notes, hread⟩ := h.reads_page
  obtain ⟨text, -, hsaid⟩ := hread.said
  have hstart : tree.start = document.start := h.start_eq
  have hdocument : tree.start.document = document := congrArg Location.document hstart
  constructor
  case start => exact congrArg Location.position hstart
  case page =>
    rw [hdocument]
    exact hread.toSays hdepth hindex
  case missing =>
    intro i entry child hentry
    obtain ⟨below, hbelow⟩ := h.of_entry hentry
    rw [hdocument]
    exact hbelow.eq_none_iff (Nat.le_add_left 1 _) (Nat.le_add_left 1 _)
  case child =>
    intro i entry child hentry
    obtain ⟨below, hbelow⟩ := h.of_entry hentry
    rw [hdocument]
    exact hbelow.start_eq
  case nodes =>
    intro node hnode
    rw [hdocument]
    exact Page.document_of_node hsaid hnode
  case entries =>
    intro included hincluded
    rw [hdocument]
    exact Page.document_of_entry hsaid (List.mem_map_of_mem hincluded)
  case title =>
    intro name label link subtitle location hnode
    rw [hdocument, Page.label_of_title hsaid hnode]
    exact toList_headingLine _ _

/-- Every section of an unfolding is itself an unfolding. -/
theorem Unfolds.of_contains {document : Coordinate} {tree part : Section} {notes : List Note}
    (hdepth : 1 ≤ document.depth) (hindex : 1 ≤ document.index)
    (h : Unfolds store document (some tree) notes) (hpart : tree.Contains part) :
    ∃ place notes, 1 ≤ place.depth ∧ 1 ≤ place.index ∧
      Unfolds store place (some part) notes := by
  induction hpart with
  | itself => exact ⟨document, notes, hdepth, hindex, h⟩
  | included _ hentry ih =>
    obtain ⟨place, above, -, -, habove⟩ := ih
    obtain ⟨i, hi⟩ := List.mem_iff_getElem?.1 hentry
    obtain ⟨below, hbelow⟩ := habove.of_entry hi
    exact ⟨_, below, Nat.le_add_left 1 _, Nat.le_add_left 1 _, hbelow⟩

/-- **Every section of an unfolding is what its document says, in its place.** -/
theorem Unfolds.faithful {document : Coordinate} {tree part : Section} {notes : List Note}
    (hdepth : 1 ≤ document.depth) (hindex : 1 ≤ document.index)
    (h : Unfolds store document (some tree) notes) (hpart : tree.Contains part) :
    part.Faithful store := by
  obtain ⟨place, below, hplaceDepth, hplaceIndex, hbelow⟩ := h.of_contains hdepth hindex hpart
  exact hbelow.faithful_top hplaceDepth hplaceIndex

/-- **A completed tree is the unfolding of its files**: it starts at the given document, every section of it is what its
document says, in its place, and no other settings or table lead to another tree. -/
theorem resolve_unfolds {settings : Settings} {path : DocumentPath} {table after : Table}
    {later : σ} {root : Option Section}
    (h : ((Section.resolve settings path).exec table).run store = ((.ok root, after), later)) :
    (∀ tree, root = some tree → tree.start = ⟨⟨path.text, 1, 1⟩, ⟨1, 1⟩⟩ ∧
      ∀ part, tree.Contains part → part.Faithful store) ∧
    ∀ settings' table' root' after' later',
      ((Section.resolve settings' path).exec table').run store =
        ((.ok root', after'), later') → root' = root := by
  obtain ⟨-, notes, hunfolds, -, -⟩ := resolve_yields_iff.1 h
  constructor
  · rintro tree rfl
    refine ⟨hunfolds.start_eq, fun part hpart => ?_⟩
    exact hunfolds.faithful Nat.le.refl Nat.le.refl hpart
  · intro settings' table' root' after' later' h'
    obtain ⟨-, notes', hunfolds', -, -⟩ := resolve_yields_iff.1 h'
    exact (hunfolds'.unique hunfolds).1

/-- A document with an entry that says nothing between two that do. -/
def gappedShelf : Shelf where
  files :=
    [("/a.dlisp", "(section-meta (title A) (include (1 b.dlisp) (2 c.dlisp) (3 d.dlisp)))"),
     ("/b.dlisp", "(# B)"), ("/c.dlisp", ""), ("/d.dlisp", "(section-meta (title D))")]
  readOnly := []

/-- An entry that says nothing leaves the index of the next one as it is. -/
theorem resolve_gappedShelf : ∃ tree after later,
    ((Section.resolve {} (.resolve "/a.dlisp" "/")).exec Table.new).run gappedShelf =
      ((.ok (some tree), after), later) ∧
    tree.includes.map (fun included => included.2.map Section.start) =
      [some ⟨⟨"/b.dlisp", 2, 1⟩, ⟨1, 1⟩⟩, none, some ⟨⟨"/d.dlisp", 2, 3⟩, ⟨1, 1⟩⟩] ∧
    tree.start = ⟨⟨(DocumentPath.resolve "/a.dlisp" "/").text, 1, 1⟩, ⟨1, 1⟩⟩ ∧
    ∀ part, tree.Contains part → part.Faithful gappedShelf := by
  have hfound : (((Section.resolve {} (.resolve "/a.dlisp" "/")).exec Table.new).run
      gappedShelf).1.1.toOption.map
        (Option.map fun tree => tree.includes.map fun included => included.2.map Section.start) =
      some (some
        [some ⟨⟨"/b.dlisp", 2, 1⟩, ⟨1, 1⟩⟩, none, some ⟨⟨"/d.dlisp", 2, 3⟩, ⟨1, 1⟩⟩]) := by
    decide +kernel
  generalize hrun : ((Section.resolve {} (.resolve "/a.dlisp" "/")).exec Table.new).run
    gappedShelf = run at hfound
  obtain ⟨⟨result, after⟩, later⟩ := run
  obtain ⟨root, rfl, hroot⟩ := exists_ok_of_map hfound
  obtain ⟨tree, rfl, hincludes⟩ := Option.map_eq_some_iff.1 hroot
  obtain ⟨hstart, hparts⟩ := (resolve_unfolds hrun).1 tree rfl
  exact ⟨tree, after, later, rfl, hincludes, hstart, hparts⟩

end Bindery
