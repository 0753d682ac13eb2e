import Bindery.Proofs.Displacement.Page
import Bindery.Proofs.Page.Entering
import Bindery.Proofs.Source.Wrapping

/-!
# `Proofs.Page.Wrapping` — a page in a file of directives and in a comment

The tokens of directives in a comment are those of a file of directives at other places. Moved onto one location, both make
the same items, nodes and entries, and they note the same authors and ids. What an id stands for is told by the output that
is being compiled, not by the document it is declared in. Only a warning names the document, and there is one in both cases
or in neither.

## Contents
- `exists_ok_of_displaceResult`: of two results that are the same when moved, both are there.
- `Page.unplaced`: a page without the path, line and column of its locations; `Page.unplaced_of_said`.
- `Note.bare`, `Note.enterAll_bare`: notes without the documents they are from.
- `SameButWarned`, `Table.get?_warn`: tables that differ in what they warn about.
- `ofText_wrapped`.
-/

namespace Bindery

open Source Text

/-- Of two results that are the same when moved, both are there. -/
theorem exists_ok_of_displaceResult {d : Displacement} {f : α → β} {result other : Except Fault α}
    {a : α} (h : displaceResult d f other = displaceResult d f result) (hresult : result = .ok a) :
    ∃ a', other = .ok a' ∧ f a' = f a := by
  subst hresult
  cases other with
  | error fault => cases h
  | ok a' => exact ⟨a', rfl, Except.ok.inj h⟩

/-! ## Pages without places -/

/-- A location of which only the depth and the index of the document are known. -/
def Location.unplaced (location : Location) : Location :=
  ⟨⟨"", location.document.depth, location.document.index⟩, ⟨0, 0⟩⟩

/-- A node without its place. -/
def Node.unplaced : Node → Node
  | .prose value location => .prose value location.unplaced
  | .title name label link subtitle location => .title name label link subtitle location.unplaced
  | .heading level text location => .heading level text location.unplaced
  | .content location => .content location.unplaced
  | .tableOfContents label style location => .tableOfContents label style location.unplaced
  | .pathTo id location => .pathTo id location.unplaced

/-- An entry without its place. What it leads to stays. -/
def Entry.unplaced (entry : Entry) : Entry := { entry with location := entry.location.unplaced }

/-- A page without the places of what it says. -/
def Page.unplaced (page : Page) : Page :=
  ⟨page.start.unplaced, page.nodes.map Node.unplaced, page.entries.map Entry.unplaced⟩

theorem Node.displace_onto_displace (d : Displacement) (location : Location) (node : Node) :
    (node.displace d).displace (.onto location) = node.displace (.onto location) := by
  cases node <;> rfl

/-- Moving a page onto one location makes up for any move before. -/
theorem Page.displace_onto_displace (d : Displacement) (location : Location) (page : Page) :
    (page.displace d).displace (.onto location) = page.displace (.onto location) := by
  simp only [Page.displace, List.map_map, Function.comp_def, Node.displace_onto_displace]
  rfl

/-- Without their places, the nodes of a document are all in one. Its titles have the marks of its depth. -/
theorem Page.unplaced_of_said {document : Coordinate} {text : String} {page : Page}
    (h : Page.said document text = .ok (some page)) :
    page.unplaced = page.displace (.onto document.start.unplaced) := by
  have hnodes : page.nodes.map Node.unplaced =
      page.nodes.map (Node.displace (.onto document.start.unplaced)) := by
    refine List.map_congr_left fun node hnode => ?_
    have hplace := Page.document_of_node h hnode
    have hlocation : node.location.unplaced = document.start.unplaced := by
      rw [Location.unplaced, hplace]
      rfl
    cases node with
    | title name label link subtitle location =>
      rw [Node.unplaced, Node.displace, Page.label_of_title h hnode]
      exact congrArg (Node.title name _ link subtitle) hlocation
    | prose value location => exact congrArg (Node.prose value) hlocation
    | heading level text location => exact congrArg (Node.heading level text) hlocation
    | content location => exact congrArg Node.content hlocation
    | tableOfContents label style location =>
      exact congrArg (Node.tableOfContents label style) hlocation
    | pathTo id location => exact congrArg (Node.pathTo id) hlocation
  have hentries : page.entries.map Entry.unplaced =
      page.entries.map (Entry.displace (.onto document.start.unplaced)) := by
    refine List.map_congr_left fun entry hentry => ?_
    rw [Entry.unplaced, Entry.displace, Location.unplaced, Page.document_of_entry h hentry]
    rfl
  rw [Page.unplaced, Page.displace, hnodes, hentries, Page.start_of_said h]
  rfl

/-! ## Notes without documents -/

/-- A note without the document of its declaration. -/
def Note.bare : Note → Note
  | .declaration id _ link => .declaration id ⟨"", 0, 0⟩ link
  | note => note

theorem authorNotes_displace (d : Displacement) (form : Form) :
    authorNotes (form.displace d) = authorNotes form := by
  have htext : ∀ author : Form, (author.displace d).parameterText? = author.parameterText? := by
    intro author
    rw [Form.parameterText?, Form.parameter_displace, Option.map_map]
    rfl
  unfold authorNotes Form.childrenNamed
  simp only [Form.children_displace, List.filter_map, List.filterMap_map, Function.comp_def,
    Form.atom_displace, htext]

theorem idNotes_bare (d : Displacement) (form : Form) (link : String) :
    (idNotes (form.displace d) link).map (List.map Note.bare) =
      displaceResult d id ((idNotes form link).map (List.map Note.bare)) := by
  unfold idNotes
  rw [Form.child?_displace]
  cases form.child? "id" with
  | none => rfl
  | some idForm =>
    dsimp only [Option.map_some]
    rw [Form.readId_displace]
    cases idForm.readId <;> rfl

/-- What is said about a section notes the same at the moved location. -/
theorem metaReading_bare (d : Displacement) (form : Form) :
    (metaReading (form.displace d)).map (fun read => read.2.map Note.bare) =
      displaceResult d id ((metaReading form).map fun read => read.2.map Note.bare) := by
  unfold metaReading
  rw [Form.child?_displace]
  cases form.child? "title" with
  | none =>
    show Except.error (Fault.mk (.formRequired "title" (form.displace d).atom)
      (form.displace d).location) = _
    rw [Form.atom_displace, Form.location_displace]
    rfl
  | some titleForm =>
    have hnotes (read : Node × List Entry) (form : Form) (link : String) :
        ((idNotes form link).map fun ids => (read, authorNotes form ++ ids)).map
            (fun read => read.2.map Note.bare) =
          ((idNotes form link).map (List.map Note.bare)).map
            ((authorNotes form).map Note.bare ++ ·) := by
      rw [except_map_map, except_map_map]
      simp only [List.map_append]
    dsimp only [Option.map_some]
    rw [hnotes, hnotes, Form.parameterText_displace, sectionLink_displace, authorNotes_displace,
      idNotes_bare]
    refine displaceResult_map (fun notes => ?_) _
    rfl

theorem Item.reading_bare (d : Displacement) (item : Item) :
    (item.displace d).reading.map (fun read => read.2.map Note.bare) =
      displaceResult d id (item.reading.map fun read => read.2.map Note.bare) := by
  cases item with
  | prose text location => rfl
  | form root =>
    rw [Item.displace, Item.reading, Item.reading, Form.atom_displace]
    by_cases hmeta : root.atom = "section-meta"
    · rw [if_pos hmeta, if_pos hmeta, except_map_map, except_map_map]
      exact metaReading_bare d root
    · rw [if_neg hmeta, if_neg hmeta]
      by_cases hcontent : root.atom = "content"
      · rw [if_pos hcontent, if_pos hcontent, readContent_displace]
        cases readContent root <;> rfl
      · rw [if_neg hcontent, if_neg hcontent]
        by_cases hget : root.atom = "get-path"
        · rw [if_pos hget, if_pos hget, Form.readId_displace]
          cases root.readId <;> rfl
        · rw [if_neg hget, if_neg hget]
          rfl

theorem Item.readingAll_bare (d : Displacement) (items : List Item) :
    (Item.readingAll (items.map (Item.displace d))).map (fun read => read.2.map Note.bare) =
      displaceResult d id ((Item.readingAll items).map fun read => read.2.map Note.bare) := by
  induction items with
  | nil => rfl
  | cons item rest ih =>
    have hnotes (item : Item) (rest : List Item) :
        (Item.readingAll (item :: rest)).map (fun read => read.2.map Note.bare) =
          (item.reading.map fun read => read.2.map Note.bare).bind fun notes =>
            ((Item.readingAll rest).map fun read => read.2.map Note.bare).map (notes ++ ·) := by
      rw [Item.readingAll]
      cases item.reading with
      | error fault => rfl
      | ok read =>
        cases Item.readingAll rest with
        | error fault => rfl
        | ok more => exact congrArg Except.ok List.map_append
    rw [List.map_cons, hnotes, hnotes, Item.reading_bare]
    refine displaceResult_bind (fun notes => ?_) _
    rw [ih]
    refine displaceResult_map (fun more => ?_) _
    rfl

/-! ## Entering notes without documents -/

mutual

/-- Entering a note leaves the output alone that is being compiled. -/
theorem Note.enter_destination {table after : Table} :
    (note : Note) → note.Valid → note.enter table = some after →
      after.column Table.destinationKey = table.column Table.destinationKey
  | .author name, _, henter => by
    cases henter
    exact Table.column_appendGlobal_of_ne _ _ (by decide)
  | .declaration id document link, hvalid, henter => by
    rw [Note.enter, Table.register] at henter
    have hne : Table.destinationKey ≠ id := (ne_of_isId hvalid isId_destinationKey).symm
    split at henter
    · split at henter
      · cases henter
        rfl
      · cases henter
    · cases henter
      exact Table.column_setGlobal_of_ne _ _ hne
  | .warning given, _, henter => by
    cases henter
    exact Table.column_warn_of_ne _ _ (by decide)
  | .within source notes, hvalid, henter => by
    rw [Note.enter] at henter
    obtain ⟨inner, hinner, rfl⟩ := Option.map_eq_some_iff.1 henter
    have hcolumn := Note.enterAll_destination notes hvalid hinner
    rw [Table.column_set_of_ne _ _ (by decide), Table.column_push] at hcolumn
    -- exactly the scope that was opened is dropped
    have hlength := congrArg List.length hcolumn
    rw [Table.length_column, List.length_cons, Table.length_column] at hlength
    have hone : inner.inner.length - table.inner.length = 1 := by omega
    rw [Table.column_keep, hone, hcolumn]
    rfl

theorem Note.enterAll_destination {table after : Table} :
    (notes : List Note) → Note.AllValid notes → Note.enterAll notes table = some after →
      after.column Table.destinationKey = table.column Table.destinationKey
  | [], _, henter => by
    cases henter
    rfl
  | note :: rest, hvalid, henter => by
    rw [Note.enterAll] at henter
    obtain ⟨middle, hmiddle, hrest⟩ := Option.bind_eq_some_iff.1 henter
    exact (Note.enterAll_destination rest hvalid.2 hrest).trans
      (Note.enter_destination note hvalid.1 hmiddle)

end

/-- Where an output is being compiled, an id stands for a place in that. -/
theorem sectionTarget_eq {table : Table} (h : table.destination?.isSome = true)
    (document other : Coordinate) (link : String) :
    sectionTarget document link table = sectionTarget other link table := by
  obtain ⟨destination, hdestination⟩ := Option.isSome_iff_exists.1 h
  simp [sectionTarget, Table.current?, hdestination]

theorem Note.enter_bare {table : Table} (h : table.destination?.isSome = true) (note : Note) :
    note.bare.enter table = note.enter table := by
  cases note with
  | declaration id document link =>
    rw [Note.bare, Note.enter, Note.enter, sectionTarget_eq h]
  | author | warning | within => rfl

/-- **Where an output is being compiled, it does not matter which documents the notes are from.** -/
theorem Note.enterAll_bare {notes : List Note} (hvalid : Note.AllValid notes) {table : Table}
    (h : table.destination?.isSome = true) :
    Note.enterAll (notes.map Note.bare) table = Note.enterAll notes table := by
  induction notes generalizing table with
  | nil => rfl
  | cons note rest ih =>
    rw [List.map_cons, Note.enterAll, Note.enterAll, Note.enter_bare h]
    refine Option.bind_congr fun middle hmiddle => ih hvalid.2 ?_
    rw [Table.destination?, Table.path?_congr (Note.enter_destination note hvalid.1 hmiddle)]
    exact h

/-! ## One warning for another -/

/-- Two values are the same, or both are lists of so many warnings. -/
def SameButWarned (value other : Option Value) : Prop :=
  value = other ∨ ∃ given given', value = some (.warnings given) ∧
    other = some (.warnings given') ∧ given.length = given'.length

theorem findSome?_warnColumn (warning other : Warning) (column : List (Option Value)) :
    SameButWarned ((warnColumn warning column).findSome? id)
      ((warnColumn other column).findSome? id) := by
  fun_induction warnColumn warning column with
  | case1 => exact .inl rfl
  | case2 given outer =>
    exact .inr ⟨given ++ [warning], given ++ [other], rfl, rfl, by simp⟩
  | case3 value outer hvalue ih =>
    rw [warnColumn.eq_3 other value outer hvalue]
    cases value with
    | none => exact ih
    | some value => exact .inl rfl

/-- Whatever a table is warned about, it knows the same and has so many warnings. -/
theorem Table.get?_warn (table : Table) (warning other : Warning) (key : String) :
    SameButWarned ((table.warn warning).get? key) ((table.warn other).get? key) := by
  by_cases hkey : key = warningsKey
  · subst hkey
    rw [get?_eq_column, get?_eq_column, column_warn_self, column_warn_self]
    exact findSome?_warnColumn warning other _
  · refine .inl (get?_congr ?_)
    rw [column_warn_of_ne _ _ hkey, column_warn_of_ne _ _ hkey]

theorem SameButWarned.id?_eq {table other : Table} {id : String}
    (h : SameButWarned (table.get? id) (other.get? id)) : table.id? id = other.id? id := by
  rcases h with heq | ⟨given, given', hgiven, hgiven', -⟩
  · rw [Table.id?, Table.id?, heq]
  · rw [Table.id?, Table.id?, hgiven, hgiven']

theorem SameButWarned.list_eq {table other : Table} {key : String}
    (h : SameButWarned (table.get? key) (other.get? key)) : table.list key = other.list key := by
  rcases h with heq | ⟨given, given', hgiven, hgiven', -⟩
  · rw [Table.list, Table.list, heq]
  · rw [Table.list, Table.list, hgiven, hgiven']

theorem SameButWarned.length_warnings_eq {table other : Table}
    (h : SameButWarned (table.get? Table.warningsKey) (other.get? Table.warningsKey)) :
    table.warnings.length = other.warnings.length := by
  rcases h with heq | ⟨given, given', hgiven, hgiven', hlength⟩
  · rw [Table.warnings, Table.warnings, heq]
  · rw [Table.warnings, Table.warnings, hgiven, hgiven']
    exact hlength

/-! ## Both pages -/

theorem Page.isMissingContent_displace (d : Displacement) (page : Page) :
    (page.displace d).isMissingContent = page.isMissingContent := by
  have hcontent (node : Node) : (node.displace d).isContent = node.isContent := by cases node <;> rfl
  simp [Page.isMissingContent, Page.hasContent, Page.displace, List.any_map, Function.comp_def,
    hcontent]

/-- Pages that are the same when moved are both left out, or both kept and warned about or not. -/
theorem Page.outcome_cases {d : Displacement} {page other : Page}
    (h : other.displace d = page.displace d) :
    page.outcome = (none, []) ∧ other.outcome = (none, []) ∨
      page.outcome = (some page, []) ∧ other.outcome = (some other, []) ∨
      page.outcome = (some page, [.warning page.missingContent]) ∧
        other.outcome = (some other, [.warning other.missingContent]) := by
  have hempty : (other.nodes.isEmpty && other.entries.isEmpty) =
      (page.nodes.isEmpty && page.entries.isEmpty) := by
    have hnodes := congrArg (fun page => page.nodes.isEmpty && page.entries.isEmpty) h
    simpa [Page.displace] using hnodes
  have hmissing : other.isMissingContent = page.isMissingContent := by
    rw [← Page.isMissingContent_displace d other, h, Page.isMissingContent_displace]
  unfold Page.outcome
  rw [hempty, hmissing]
  split
  · exact .inl ⟨rfl, rfl⟩
  · split
    · exact .inr (.inr ⟨rfl, rfl⟩)
    · exact .inr (.inl ⟨rfl, rfl⟩)

/-- The items of directives in a comment are those of a file of directives, at other places. -/
theorem exists_documentItems_wrapped {document other : Coordinate}
    (hkind : DocumentPath.Kind.ofExtension? document.extension? ≠ .markdown)
    (hother : DocumentPath.Kind.ofExtension? other.extension? = .markdown) {text : String}
    (hend : ¬commentEnd <:+: text.toList) {items : List Item}
    (h : documentItems document text = .ok items) (location : Location) :
    ∃ items', documentItems other (wrapped text) = .ok items' ∧
      items'.map (Item.displace (.onto location)) = items.map (Item.displace (.onto location)) := by
  obtain ⟨tokens, htokens, hitems⟩ := except_bind_eq_ok.1 h
  obtain ⟨tokens', htokens', hsame⟩ :=
    exists_documentTokens_wrapped hkind hother hend htokens hitems location
  have hmoved : displaceResult (.onto location) (List.map (Item.displace (.onto location)))
      (Item.ofTokens tokens') =
        displaceResult (.onto location) (List.map (Item.displace (.onto location)))
          (Item.ofTokens tokens) := by
    rw [← ofTokens_displace, ← ofTokens_displace, hsame]
  obtain ⟨items', hitems', heq⟩ := exists_ok_of_displaceResult hmoved hitems
  exact ⟨items', except_bind_eq_ok.2 ⟨tokens', htokens', hitems'⟩, heq⟩

/-- Forms of a document can be moved into another one of the same directory. -/
theorem movable_onto {document other : Coordinate} (hdirectory : other.directory = document.directory)
    {text : String} {items : List Item} (h : documentItems document text = .ok items)
    (hforms : ∀ item ∈ items, ∃ root, item = .form root) :
    ∀ item ∈ items, item.Movable (.onto other.start) := by
  intro item hitem
  obtain ⟨root, rfl⟩ := hforms item hitem
  show other.directory = root.location.document.directory
  rw [document_of_mem_documentItems h hitem, hdirectory]

/-- Items that are forms when moved are forms. -/
theorem exists_form_of_displace {d : Displacement} {items others : List Item}
    (h : others.map (Item.displace d) = items.map (Item.displace d))
    (hforms : ∀ item ∈ items, ∃ root, item = .form root) :
    ∀ item ∈ others, ∃ root, item = .form root := by
  intro item hitem
  have hmoved : item.displace d ∈ items.map (Item.displace d) := h ▸ List.mem_map_of_mem hitem
  obtain ⟨origin, horigin, heq⟩ := List.mem_map.1 hmoved
  obtain ⟨root, rfl⟩ := hforms origin horigin
  cases item with
  | prose text location => cases heq
  | form root => exact ⟨root, rfl⟩

/-- **Directives in a comment make the page of a file of directives, and the same notes.** -/
theorem exists_reading_wrapped {document other : Coordinate}
    (hkind : DocumentPath.Kind.ofExtension? document.extension? ≠ .markdown)
    (hother : DocumentPath.Kind.ofExtension? other.extension? = .markdown)
    (hdirectory : other.directory = document.directory) {text : String}
    (hend : ¬commentEnd <:+: text.toList) {found : Option Page} {notes : List Note}
    (h : Page.reading document text = .ok (found, notes)) :
    ∃ (page page' : Page) (noted noted' : List Note),
      found = page.outcome.1 ∧ notes = noted ++ page.outcome.2 ∧
      Page.reading other (wrapped text) = .ok (page'.outcome.1, noted' ++ page'.outcome.2) ∧
      page'.displace (.onto other.start) = page.displace (.onto other.start) ∧
      noted'.map Note.bare = noted.map Note.bare := by
  let d := Displacement.onto other.start
  obtain ⟨items, hitems, hread⟩ := except_bind_eq_ok.1 h
  obtain ⟨_, hcheck, hread⟩ := except_bind_eq_ok.1 hread
  obtain ⟨⟨⟨nodes, entries⟩, noted⟩, hall, heq⟩ := except_map_eq_ok.1 hread
  cases heq
  obtain ⟨items', hitems', hsame⟩ :=
    exists_documentItems_wrapped hkind hother hend hitems other.start
  have hforms : ∀ item ∈ items, ∃ root, item = .form root := fun _ hitem =>
    exists_form_of_documentItems hkind hitems hitem
  have hforms' := exists_form_of_displace hsame hforms
  -- the grammar, the page and the notes are each compared where both are moved to
  have hchecks : displaceResult d id (Grammar.document.check other.start items') =
      displaceResult d id (Grammar.document.check document.start items) := by
    rw [← Grammar.check_displace, ← Grammar.check_displace, hsame]
    rfl
  obtain ⟨_, hcheck', -⟩ := exists_ok_of_displaceResult hchecks hcheck
  have hreads : displaceResult d (displaceNodes d) ((Item.readingAll items').map Prod.fst) =
      displaceResult d (displaceNodes d) ((Item.readingAll items).map Prod.fst) := by
    rw [← Item.readingAll_displace d (movable_onto rfl hitems' hforms'),
      ← Item.readingAll_displace d (movable_onto hdirectory hitems hforms), hsame]
  have hnotes : displaceResult d id ((Item.readingAll items').map fun read => read.2.map Note.bare) =
      displaceResult d id ((Item.readingAll items).map fun read => read.2.map Note.bare) := by
    rw [← Item.readingAll_bare, ← Item.readingAll_bare, hsame]
  rw [hall] at hreads hnotes
  obtain ⟨read', hread', hplaced⟩ := exists_ok_of_displaceResult hreads rfl
  obtain ⟨⟨⟨nodes', entries'⟩, noted'⟩, hall', rfl⟩ := except_map_eq_ok.1 hread'
  rw [hall'] at hnotes
  refine ⟨⟨document.start, nodes, entries⟩, ⟨other.start, nodes', entries'⟩, noted, noted', rfl, rfl,
    ?_, ?_, Except.ok.inj hnotes⟩
  · rw [Page.reading, hitems']
    show Page.readingOf other items' = _
    rw [Page.readingOf, hcheck']
    show (Item.readingAll items').map _ = _
    rw [hall']
    rfl
  · obtain ⟨hnodes, hentries⟩ := Prod.mk.inj hplaced
    simp only [Page.displace]
    rw [hnodes, hentries]
    rfl

/-- Without its places, a page that was kept is told by where it can be moved to. -/
theorem Page.unplaced_eq {document other : Coordinate} (hdepth : other.depth = document.depth)
    (hindex : other.index = document.index) {text text' : String} {page page' : Page}
    (h : Page.said document text = .ok (some page))
    (h' : Page.said other text' = .ok (some page'))
    (hplaced : page'.displace (.onto other.start) = page.displace (.onto other.start)) :
    page'.unplaced = page.unplaced := by
  have hstart : other.start.unplaced = document.start.unplaced := by
    simp [Location.unplaced, Coordinate.start, hdepth, hindex]
  calc page'.unplaced
      = (page'.displace (.onto other.start)).displace (.onto other.start.unplaced) := by
        rw [Page.unplaced_of_said h', Page.displace_onto_displace]
    _ = (page.displace (.onto other.start)).displace (.onto document.start.unplaced) := by
        rw [hplaced, hstart]
    _ = page.unplaced := by rw [Page.unplaced_of_said h, Page.displace_onto_displace]

/-- Notes that are the same up to their documents come to the same table where an output is being compiled. -/
theorem Note.enterAll_eq_of_bare {notes others : List Note} (hvalid : Note.AllValid notes)
    (hothers : Note.AllValid others) (h : others.map Note.bare = notes.map Note.bare) {table : Table}
    (hdestination : table.destination?.isSome = true) :
    Note.enterAll others table = Note.enterAll notes table := by
  rw [← Note.enterAll_bare hothers hdestination, h, Note.enterAll_bare hvalid hdestination]

theorem Note.AllValid.of_append {notes more : List Note} (h : Note.AllValid (notes ++ more)) :
    Note.AllValid notes := by
  rw [Note.allValid_iff] at h ⊢
  exact fun note hnote => h note (List.mem_append_left more hnote)

theorem Page.valid_of_ofText {document : Coordinate} {text : String} {page : Option Page}
    {table after : Table} (h : Page.ofText document text table = (.ok page, after)) :
    1 ≤ document.depth ∧ 1 ≤ document.index := by
  by_cases hvalid : document.depth < 1 ∨ document.index < 1
  · rw [Page.ofText, split, if_pos hvalid] at h
    cases h
  · omega

/-- **Directives in a comment mean what they mean in a file of their own**: in a document of the same directory, depth and
index, they make the same page up to the path, lines and columns of its locations, and leave the same authors and ids and
as many warnings. -/
theorem ofText_wrapped {document other : Coordinate}
    (hkind : DocumentPath.Kind.ofExtension? document.extension? ≠ .markdown)
    (hother : DocumentPath.Kind.ofExtension? other.extension? = .markdown)
    (hdirectory : other.directory = document.directory) (hdepth : other.depth = document.depth)
    (hindex : other.index = document.index) {text : String} (hend : ¬commentEnd <:+: text.toList)
    {table after : Table} (hdestination : table.destination?.isSome = true) {page : Option Page}
    (h : Page.ofText document text table = (.ok page, after)) :
    ∃ page' after', Page.ofText other (wrapped text) table = (.ok page', after') ∧
      page'.map Page.unplaced = page.map Page.unplaced ∧ after'.authors = after.authors ∧
      (∀ id, after'.id? id = after.id? id) ∧ after'.warnings.length = after.warnings.length := by
  obtain ⟨hdeep, hfirst⟩ := Page.valid_of_ofText h
  obtain ⟨notes, hread, hentered⟩ := (Page.ofText_eq_ok_iff hdeep hfirst).1 h
  obtain ⟨found, found', noted, noted', rfl, rfl, hread', hplaced, hbare⟩ :=
    exists_reading_wrapped hkind hother hdirectory hend hread
  obtain ⟨middle, hmiddle, hlast⟩ := Note.enterAll_append_eq_some.1 hentered
  have hvalid := (Page.reading_spec hread none none).1.of_append
  have hvalid' := (Page.reading_spec hread' none none).1.of_append
  have hmiddle' : Note.enterAll noted' table = some middle :=
    (Note.enterAll_eq_of_bare hvalid hvalid' hbare hdestination).trans hmiddle
  have hfinish : ∀ after', Note.enterAll found'.outcome.2 middle = some after' →
      Page.ofText other (wrapped text) table = (.ok found'.outcome.1, after') := by
    intro after' hafter'
    have hall : Note.enterAll (noted' ++ found'.outcome.2) table = some after' :=
      Note.enterAll_append_eq_some.2 ⟨middle, hmiddle', hafter'⟩
    exact (Page.ofText_eq_ok_iff (hdepth ▸ hdeep) (hindex ▸ hfirst)).2 ⟨_, hread', hall⟩
  have hsaid := Page.said_eq_ok_iff.2 ⟨_, hread⟩
  have hsaid' := Page.said_eq_ok_iff.2 ⟨_, hread'⟩
  rcases Page.outcome_cases hplaced with ⟨hpage, hpage'⟩ | ⟨hpage, hpage'⟩ | ⟨hpage, hpage'⟩
  · rw [hpage] at hlast ⊢
    rw [hpage'] at hfinish
    cases hlast
    exact ⟨none, after, hfinish after rfl, rfl, rfl, fun _ => rfl, rfl⟩
  · rw [hpage] at hlast hsaid ⊢
    rw [hpage'] at hfinish hsaid'
    cases hlast
    refine ⟨some found', after, hfinish after rfl, ?_, rfl, fun _ => rfl, rfl⟩
    exact congrArg some (Page.unplaced_eq hdepth hindex hsaid hsaid' hplaced)
  · rw [hpage] at hlast hsaid ⊢
    rw [hpage'] at hfinish hsaid'
    cases hlast
    have hsame := middle.get?_warn found'.missingContent found.missingContent
    refine ⟨some found', middle.warn found'.missingContent, hfinish _ rfl, ?_,
      (hsame Table.authorsKey).list_eq, fun id => (hsame id).id?_eq,
      (hsame Table.warningsKey).length_warnings_eq⟩
    exact congrArg some (Page.unplaced_eq hdepth hindex hsaid hsaid' hplaced)

/-- Directives with two kinds of line end, an author, an id, an escaped parenthesis and an include that has no place. -/
def includingText : String :=
  "(section-meta (title A \\(b\\))\r\n (author N) (id a-b)\r (include (Part-one x.md)))\n(## H)"

/-- A table where an output is being compiled. -/
def outputTable : Table := Table.new.set Table.destinationKey (.path (.resolve "/out.md" "/"))

theorem ofText_wrapped_including : ∃ page after page' after',
    Page.ofText ⟨"/docs/a.dlisp", 2, 3⟩ includingText outputTable = (.ok (some page), after) ∧
    page.entries.map (·.path.text) = ["/docs/x.md"] ∧
    Page.ofText ⟨"/docs/b.md", 2, 3⟩ (wrapped includingText) outputTable = (.ok page', after') ∧
    page'.map Page.unplaced = some page.unplaced ∧ after'.authors = after.authors ∧
    (∀ id, after'.id? id = after.id? id) ∧ after'.warnings.length = after.warnings.length := by
  have hfound : (Page.ofText ⟨"/docs/a.dlisp", 2, 3⟩ includingText outputTable).1.toOption.map
      (Option.map fun page => page.entries.map (·.path.text)) = some (some ["/docs/x.md"]) := by
    decide +kernel
  obtain ⟨found, hresult, hpage⟩ := exists_ok_of_map hfound
  obtain ⟨page, rfl, hentries⟩ := Option.map_eq_some_iff.1 hpage
  have hrun := eq_mk_of_fst_eq hresult
  have hkind : DocumentPath.Kind.ofExtension?
      (Coordinate.mk "/docs/a.dlisp" 2 3).extension? ≠ .markdown := by decide +kernel
  have hother : DocumentPath.Kind.ofExtension?
      (Coordinate.mk "/docs/b.md" 2 3).extension? = .markdown := by decide +kernel
  have hdirectory : (Coordinate.mk "/docs/b.md" 2 3).directory =
      (Coordinate.mk "/docs/a.dlisp" 2 3).directory := by decide +kernel
  have hend : ¬commentEnd <:+: includingText.toList := by decide +kernel
  have houtput : outputTable.destination?.isSome = true := by decide +kernel
  obtain ⟨page', after', hread', hsame, hauthors, hids, hwarnings⟩ :=
    ofText_wrapped hkind hother hdirectory rfl rfl hend houtput hrun
  exact ⟨page, _, page', after', hrun, hentries, hread', hsame, hauthors, hids, hwarnings⟩

end Bindery
