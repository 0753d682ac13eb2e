import Bindery.Proofs.Page.Notes

/-!
# `Proofs.Displacement.Page` — pages of displaced documents

A document at another depth and index makes the same page, moved there; of what it says, only the marks around its title
count its depth. Moving a page to where it is changes nothing, which pins down all its locations and its title.

## Contents
- `Node.displace`, `Entry.displace`, `Page.displace`.
- `Page.said_displace`: what a document says at another depth and index.
- `Page.document_of_node`, `Page.document_of_entry`, `Page.label_of_title`.
-/

namespace Bindery

open Source Text

/-- A node at its moved location. A title has the marks of the depth that it moved to. -/
def Node.displace (d : Displacement) : Node → Node
  | .prose value location => .prose value (d.move location)
  | .title name _ link subtitle location =>
    .title name (headingLine (d.move location).document.depth name) link subtitle (d.move location)
  | .heading level text location => .heading level text (d.move location)
  | .content location => .content (d.move location)
  | .tableOfContents label style location => .tableOfContents label style (d.move location)
  | .pathTo id location => .pathTo id (d.move location)

@[simp] theorem Node.location_displace (d : Displacement) (node : Node) :
    (node.displace d).location = d.move node.location := by
  cases node <;> rfl

/-- An entry at its moved location. -/
def Entry.displace (d : Displacement) (entry : Entry) : Entry :=
  { entry with location := d.move entry.location }

/-- A page at its moved location. -/
def Page.displace (d : Displacement) (page : Page) : Page :=
  ⟨d.move page.start, page.nodes.map (Node.displace d), page.entries.map (Entry.displace d)⟩

/-! ## One item -/

/-- A line end is a step like any other. -/
theorem nextLine_displace {d : Displacement} (hd : d.KeepsStep) (location : Location) :
    (d.move location).nextLine = d.move location.nextLine :=
  (hd location '\n').symm

/-- Blank lines are dropped by their characters, and the location goes on from where it was moved to. -/
theorem dropBlankLines_displace {d : Displacement} (hd : d.KeepsStep) (location : Location)
    (line text : List Char) :
    dropBlankLines (d.move location) line text =
      (d.move (dropBlankLines location line text).1, (dropBlankLines location line text).2) := by
  induction text generalizing location line with
  | nil => rfl
  | cons c rest ih =>
    rw [dropBlankLines, dropBlankLines]
    split
    · rw [nextLine_displace hd, ih]
    · split
      · exact ih _ _
      · rfl

/-- Prose comes to the same node, moved, or to none. -/
theorem Node.ofProse?_displace {d : Displacement} (hd : d.KeepsStep) (text : String)
    (location : Location) :
    Node.ofProse? text (d.move location) = (Node.ofProse? text location).map (Node.displace d) := by
  unfold Node.ofProse?
  split
  · rfl
  · rw [dropBlankLines_displace hd]
    rfl

/-- A fault in a parameter is blamed on where the parameter was moved to. -/
theorem Form.parameterLocation_displace (d : Displacement) (form : Form) :
    (form.displace d).parameterLocation = d.move form.parameterLocation := by
  unfold Form.parameterLocation
  rw [Form.parameter_displace]
  cases form.parameter with
  | none => exact Form.location_displace d form
  | some parameter => rfl

/-- An id is valid or not wherever it is. -/
theorem Form.readId_displace (d : Displacement) (form : Form) :
    (form.displace d).readId = displaceResult d id form.readId := by
  unfold Form.readId
  dsimp only
  rw [Form.parameterText_displace, Form.parameterLocation_displace]
  split <;> rfl

theorem BulletStyle.ask_displace (d : Displacement) (text : String) (location : Location) :
    BulletStyle.ask text (d.move location) = displaceResult d id (BulletStyle.ask text location) := by
  unfold BulletStyle.ask
  split <;> rfl

/-- The style of a table of contents is read by texts, and its faults are moved. -/
theorem readStyle_displace (d : Displacement) (form : Form) :
    readStyle (form.displace d) = displaceResult d id (readStyle form) := by
  unfold readStyle
  rw [Form.parameter_displace, Form.child?_displace]
  cases form.parameter with
  | none =>
    cases form.child? "style" with
    | none => rfl
    | some style =>
      show BulletStyle.ask (style.displace d).parameterText (style.displace d).parameterLocation = _
      rw [Form.parameterText_displace, Form.parameterLocation_displace]
      exact BulletStyle.ask_displace d _ _
  | some parameter =>
    cases form.child? "style" with
    | none => exact BulletStyle.ask_displace d _ _
    | some style =>
      show Except.error (Fault.mk .styleTwice (style.displace d).location) = _
      rw [Form.location_displace]
      rfl

theorem Form.childParameter_displace (d : Displacement) (form : Form) (atom : String) :
    ((form.displace d).child? atom).bind Form.parameterText? =
      (form.child? atom).bind Form.parameterText? := by
  rw [Form.child?_displace]
  cases form.child? atom with
  | none => rfl
  | some child =>
    show (child.displace d).parameter.map Parameter.text = child.parameter.map Parameter.text
    rw [Form.parameter_displace, Option.map_map]
    rfl

/-- The nodes of a moved form are those of the form, moved. -/
theorem readContent_displace (d : Displacement) (form : Form) :
    readContent (form.displace d) =
      displaceResult d (List.map (Node.displace d)) (readContent form) := by
  unfold readContent
  rw [Form.child?_displace, Form.location_displace]
  cases form.child? "toc" with
  | none => rfl
  | some toc =>
    show (readStyle (toc.displace d)).bind _ = _
    rw [readStyle_displace]
    refine displaceResult_bind (fun style => ?_) _
    show Except.ok [Node.tableOfContents _ _ _, _] = _
    rw [Form.childParameter_displace, Form.location_displace]
    rfl

/-- The directory that a document's includes are seen from. -/
def Coordinate.directory (document : Coordinate) : DocumentPath :=
  (DocumentPath.resolve document.path "/").directory

/-- Includes of documents in one directory are seen from the same place. -/
theorem sibling_of_directory {document other : Coordinate}
    (h : document.directory = other.directory) (raw : String) :
    (DocumentPath.resolve document.path "/").sibling raw =
      (DocumentPath.resolve other.path "/").sibling raw := by
  unfold Coordinate.directory at h
  rw [DocumentPath.sibling, DocumentPath.sibling, h]

/-- Moving within a directory leaves the paths of includes as they are. -/
theorem readEntries_displace (d : Displacement) (form : Form)
    (hplace : (d.move form.location).document.directory = form.location.document.directory) :
    readEntries (form.displace d) = (readEntries form).map (Entry.displace d) := by
  unfold readEntries
  rw [Form.child?_displace, Form.location_displace]
  cases form.child? "include" with
  | none => rfl
  | some includes =>
    show List.map _ (includes.displace d).children = List.map _ (List.map _ includes.children)
    rw [Form.children_displace, List.map_map, List.map_map]
    refine List.map_congr_left fun entry _ => ?_
    simp only [Function.comp_apply, Entry.displace, Form.location_displace,
      Form.parameterText_displace, Form.atom_displace, sibling_of_directory hplace]

/-- The link to a section comes from its texts alone. -/
theorem sectionLink_displace (d : Displacement) (form : Form) (title : String) :
    sectionLink (form.displace d) title = sectionLink form title := by
  unfold sectionLink
  rw [Form.child?_displace]
  cases form.child? "ref-link" with
  | none => rfl
  | some link => exact congrArg anchorLink (Form.parameterText_displace d link)

/-- A declared id is read alike; what it is noted with does not matter here. -/
theorem idNotes_displace (d : Displacement) (form : Form) (link : String) (f : α → β) (a : α) :
    (idNotes (form.displace d) link).map (fun _ => f a) =
      displaceResult d f ((idNotes form link).map fun _ => a) := by
  unfold idNotes
  rw [Form.child?_displace]
  cases form.child? "id" with
  | none => rfl
  | some idForm =>
    dsimp only [Option.map_some]
    rw [Form.readId_displace]
    cases idForm.readId <;> rfl

/-- What a section's title and includes come to at the moved location. -/
def displaceMeta (d : Displacement) (read : Node × List Entry) : Node × List Entry :=
  (read.1.displace d, read.2.map (Entry.displace d))

/-- A section that is moved within its directory has the same title and includes, moved. -/
theorem metaReading_displace (d : Displacement) (form : Form)
    (hplace : (d.move form.location).document.directory = form.location.document.directory) :
    (metaReading (form.displace d)).map Prod.fst =
      displaceResult d (displaceMeta d) ((metaReading form).map Prod.fst) := by
  unfold metaReading
  rw [Form.child?_displace]
  cases form.child? "title" with
  | none =>
    show Except.error (Fault.mk (.formRequired "title" (form.displace d).atom)
      (form.displace d).location) = _
    rw [Form.atom_displace, Form.location_displace]
    rfl
  | some titleForm =>
    dsimp only [Option.map_some]
    rw [Form.parameterText_displace, sectionLink_displace, Form.childParameter_displace,
      Form.location_displace, readEntries_displace d form hplace, except_map_map, except_map_map]
    exact idNotes_displace d form _ (displaceMeta d)
      (.title titleForm.parameterText _ _ _ form.location, readEntries form)

/-- What items come to at the moved location. -/
def displaceNodes (d : Displacement) (read : List Node × List Entry) : List Node × List Entry :=
  (read.1.map (Node.displace d), read.2.map (Entry.displace d))

/-- An item can be moved before it is read: prose keeps step with reading, and a form stays in its directory. -/
def Item.Movable (d : Displacement) : Item → Prop
  | .prose _ _ => d.KeepsStep
  | .form root => (d.move root.location).document.directory = root.location.document.directory

/-- An item that can be moved comes to the same nodes and entries, moved. -/
theorem Item.reading_displace (d : Displacement) {item : Item} (hmove : item.Movable d) :
    (item.displace d).reading.map Prod.fst =
      displaceResult d (displaceNodes d) (item.reading.map Prod.fst) := by
  cases item with
  | prose text location =>
    show Except.ok ((Node.ofProse? text (d.move location)).toList, []) =
      Except.ok ((Node.ofProse? text location).toList.map (Node.displace d), [])
    rw [Node.ofProse?_displace hmove, Option.toList_map]
  | form root =>
    rw [Item.displace, Item.reading, Item.reading, Form.atom_displace]
    by_cases hmeta : root.atom = "section-meta"
    · -- what is noted has no part in what is said
      have hsaid (form : Form) :
          ((metaReading form).map fun read => (([read.1.1], read.1.2), read.2)).map Prod.fst =
            ((metaReading form).map Prod.fst).map fun read => ([read.1], read.2) := by
        rw [except_map_map, except_map_map]
      rw [if_pos hmeta, if_pos hmeta, hsaid, hsaid, metaReading_displace d root hmove]
      refine displaceResult_map (fun read => ?_) _
      rfl
    · rw [if_neg hmeta, if_neg hmeta]
      by_cases hcontent : root.atom = "content"
      · rw [if_pos hcontent, if_pos hcontent, except_map_map, except_map_map, readContent_displace]
        refine displaceResult_map (fun nodes => ?_) _
        rfl
      · rw [if_neg hcontent, if_neg hcontent]
        by_cases hget : root.atom = "get-path"
        · rw [if_pos hget, if_pos hget, except_map_map, except_map_map, Form.readId_displace,
            Form.location_displace]
          refine displaceResult_map (fun id => ?_) _
          rfl
        · rw [if_neg hget, if_neg hget, Form.parameterText_displace, Form.location_displace]
          rfl

/-- Items that all can be moved come to the same nodes and entries, moved. -/
theorem Item.readingAll_displace (d : Displacement) {items : List Item}
    (hmove : ∀ item ∈ items, item.Movable d) :
    (Item.readingAll (items.map (Item.displace d))).map Prod.fst =
      displaceResult d (displaceNodes d) ((Item.readingAll items).map Prod.fst) := by
  induction items with
  | nil => rfl
  | cons item rest ih =>
    have hsaid (item : Item) (rest : List Item) :
        (Item.readingAll (item :: rest)).map Prod.fst =
          (item.reading.map Prod.fst).bind fun read =>
            ((Item.readingAll rest).map Prod.fst).map fun more =>
              (read.1 ++ more.1, read.2 ++ more.2) := by
      rw [Item.readingAll]
      cases item.reading with
      | error fault => rfl
      | ok read => cases Item.readingAll rest <;> rfl
    rw [List.map_cons, hsaid, hsaid, Item.reading_displace d (hmove item List.mem_cons_self)]
    refine displaceResult_bind (fun read => ?_) _
    rw [ih fun other hother => hmove other (List.mem_cons_of_mem _ hother)]
    refine displaceResult_map (fun more => ?_) _
    simp [displaceNodes]

/-! ## Whole pages -/

/-- Whether a page says anything does not depend on where it is. -/
theorem Page.outcome_displace (d : Displacement) (page : Page) :
    (page.displace d).outcome.1 = page.outcome.1.map (Page.displace d) := by
  unfold Page.outcome Page.displace
  simp only [List.isEmpty_map]
  split <;> rfl

/-- What a document says, step by step: its items, their check, and what they come to. -/
theorem Page.said_eq (document : Coordinate) (text : String) :
    Page.said document text =
      (documentItems document text).bind fun items =>
        (Grammar.document.check document.start items).bind fun _ =>
          ((Item.readingAll items).map Prod.fst).map fun read =>
            (Page.outcome ⟨document.start, read.1, read.2⟩).1 := by
  unfold Page.said Page.reading
  cases documentItems document text with
  | error fault => rfl
  | ok items =>
    show (Page.readingOf document items).map Prod.fst = (Grammar.check _ _ _).bind _
    unfold Page.readingOf
    cases Grammar.document.check document.start items with
    | error fault => rfl
    | ok _ => cases Item.readingAll items <;> rfl

/-- The forms of a document are in it. -/
theorem document_of_mem_documentItems {document : Coordinate} {text : String} {items : List Item}
    (h : documentItems document text = .ok items) {root : Form} (hroot : .form root ∈ items) :
    root.location.document = document := by
  have hself := displace_of_mem_documentItems h hroot
  have hlocation : (root.displace (.into document)).location = root.location :=
    congrArg Form.location (Item.form.inj hself)
  rw [← hlocation, Form.location_displace, Displacement.document_into]

/-- All items of a document can be moved to another depth and index, since its path stays. -/
theorem movable_of_mem_documentItems {document other : Coordinate}
    (hpath : other.path = document.path) {text : String} {items : List Item}
    (h : documentItems document text = .ok items) {item : Item} (hitem : item ∈ items) :
    item.Movable (.into other) := by
  cases item with
  | prose text location => exact Displacement.keepsStep_into other
  | form root =>
    show ((Displacement.into other).move root.location).document.directory = _
    rw [Displacement.document_into, document_of_mem_documentItems h hitem, Coordinate.directory, hpath]
    rfl

/-- **A document at another depth and index says the same, moved there.** -/
theorem Page.said_displace (document other : Coordinate) (hpath : other.path = document.path)
    (text : String) :
    Page.said other text =
      displaceResult (.into other) (Option.map (Page.displace (.into other)))
        (Page.said document text) := by
  rw [Page.said_eq, Page.said_eq, documentItems_displace document other hpath]
  cases hitems : documentItems document text with
  | error fault => rfl
  | ok items =>
    have hmove : ∀ item ∈ items, item.Movable (.into other) := fun _ hitem =>
      movable_of_mem_documentItems hpath hitems hitem
    have hstart : other.start = (Displacement.into other).move document.start :=
      (Displacement.into_start other document).symm
    show (Grammar.document.check other.start (items.map (Item.displace (.into other)))).bind _ = _
    rw [hstart, Grammar.check_displace]
    refine displaceResult_bind (fun _ => ?_) _
    rw [Item.readingAll_displace _ hmove]
    refine displaceResult_map (fun read => ?_) _
    exact Page.outcome_displace (.into other) ⟨document.start, read.1, read.2⟩

/-! ## Where the parts of a page are -/

theorem Page.start_of_outcome {page found : Page} (h : page.outcome.1 = some found) :
    found.start = page.start := by
  unfold Page.outcome at h
  split at h
  · cases h
  · exact congrArg Page.start (Option.some.inj h).symm

/-- A page starts where its document does. -/
theorem Page.start_of_said {document : Coordinate} {text : String} {page : Page}
    (h : Page.said document text = .ok (some page)) : page.start = document.start := by
  rw [Page.said_eq] at h
  obtain ⟨items, -, h⟩ := except_bind_eq_ok.1 h
  obtain ⟨_, -, h⟩ := except_bind_eq_ok.1 h
  obtain ⟨read, -, h⟩ := except_map_eq_ok.1 h
  exact Page.start_of_outcome h

/-- A page moved to where it is stays as it is. -/
theorem Page.displace_of_said {document : Coordinate} {text : String} {page : Page}
    (h : Page.said document text = .ok (some page)) : page.displace (.into document) = page := by
  have hself := Page.said_displace document document rfl text
  rw [h, displaceResult_ok] at hself
  exact (Option.some.inj (Except.ok.inj hself)).symm

theorem Page.node_of_said {document : Coordinate} {text : String} {page : Page}
    (h : Page.said document text = .ok (some page)) {node : Node} (hnode : node ∈ page.nodes) :
    node.displace (.into document) = node :=
  eq_self_of_mem_of_map_eq_self (congrArg Page.nodes (Page.displace_of_said h)) hnode

/-- The nodes of a page are in its document. -/
theorem Page.document_of_node {document : Coordinate} {text : String} {page : Page}
    (h : Page.said document text = .ok (some page)) {node : Node} (hnode : node ∈ page.nodes) :
    node.location.document = document := by
  rw [← Page.node_of_said h hnode, Node.location_displace, Displacement.document_into]

/-- The entries of a page are in its document. -/
theorem Page.document_of_entry {document : Coordinate} {text : String} {page : Page}
    (h : Page.said document text = .ok (some page)) {entry : Entry} (hentry : entry ∈ page.entries) :
    entry.location.document = document := by
  have hself : entry.displace (.into document) = entry :=
    eq_self_of_mem_of_map_eq_self (congrArg Page.entries (Page.displace_of_said h)) hentry
  rw [← hself]
  rfl

/-- The heading of a page has the marks of the depth of its document. -/
theorem Page.label_of_title {document : Coordinate} {text : String} {page : Page}
    (h : Page.said document text = .ok (some page)) {name label link : String}
    {subtitle : Option String} {location : Location}
    (hnode : Node.title name label link subtitle location ∈ page.nodes) :
    label = headingLine document.depth name := by
  have hself := Page.node_of_said h hnode
  rw [Node.displace, Displacement.document_into] at hself
  injection hself with _ hlabel
  exact hlabel.symm

end Bindery
