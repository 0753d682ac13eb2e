import Bindery.Proofs.Displacement.Form
import Bindery.Proofs.Success

/-!
# `Proofs.Page.Notes` — reading a page, and what reading it leaves in the table

Reading a page works on the table as it goes along. Here the two are taken apart: what a page says and which notes it makes
depends on its text alone, and the table is what results from entering these notes. A table matters to a successful
reading only in that every note can be entered, and an id can be refused.

## Contents
- `Note`, `Note.enter`, `Note.enterAll`: notes, and a table with notes entered.
- `Item.reading`, `Page.reading`: what is read and noted, with no table involved; `Page.said`, notes aside.
- `Page.ofText_eq_ok_iff`: a successful reading is a reading without a table whose notes could be entered.
-/

namespace Bindery

open Source Text

/-! ## Notes -/

/-- Something that is to be entered into the table. -/
inductive Note where
  /-- An author is named. -/
  | author (name : String)
  /-- A section of a document declares its id; the link leads to the section within its output. -/
  | declaration (id : String) (document : Coordinate) (link : String)
  /-- A warning is given. -/
  | warning (warning : Warning)
  /-- An included document makes notes, in a scope of its own. -/
  | within (source : DocumentPath) (notes : List Note)

mutual

/-- The table with a note entered. An id that stands for something else cannot be entered. -/
def Note.enter : Note → Table → Option Table
  | .author name, table => some (table.appendGlobal Table.authorsKey name)
  | .declaration id document link, table =>
    (table.register id (sectionTarget document link table)).toOption
  | .warning given, table => some (table.warn given)
  | .within source notes, table =>
    (Note.enterAll notes (table.push.set Table.sourceKey (.path source))).map
      (·.keep table.inner.length)

/-- The table with some notes entered in order. -/
def Note.enterAll : List Note → Table → Option Table
  | [], table => some table
  | note :: rest, table => (note.enter table).bind (Note.enterAll rest)

end

theorem Note.enterAll_append (notes more : List Note) (table : Table) :
    Note.enterAll (notes ++ more) table = (Note.enterAll notes table).bind (Note.enterAll more) := by
  induction notes generalizing table with
  | nil => rfl
  | cons note rest ih =>
    show (note.enter table).bind (Note.enterAll (rest ++ more)) = _
    rw [funext ih, ← Option.bind_assoc]
    rfl

/-- Notes that end up in `after` in two steps. -/
theorem Note.enterAll_append_eq_some {notes more : List Note} {table after : Table} :
    Note.enterAll (notes ++ more) table = some after ↔
      ∃ middle, Note.enterAll notes table = some middle ∧ Note.enterAll more middle = some after := by
  rw [Note.enterAll_append, Option.bind_eq_some_iff]

/-! ## Reading without a table -/

/-- The authors that a section names. -/
def authorNotes (form : Form) : List Note :=
  ((form.childrenNamed "author").filterMap Form.parameterText?).map .author

/-- The id that a section declares. -/
def idNotes (form : Form) (link : String) : Except Fault (List Note) :=
  match form.child? "id" with
  | none => .ok []
  | some idForm => idForm.readId.map fun id => [.declaration id form.location.document link]

/-- What is said about a section, and what this notes. -/
def metaReading (form : Form) : Except Fault ((Node × List Entry) × List Note) :=
  match form.child? "title" with
  | none => .error ⟨.formRequired "title" form.atom, form.location⟩
  | some titleForm =>
    let title := titleForm.parameterText
    let link := sectionLink form title
    let subtitle := (form.child? "subtitle").bind Form.parameterText?
    let label := headingLine form.location.document.depth title
    (idNotes form link).map fun ids =>
      ((.title title label link subtitle form.location, readEntries form), authorNotes form ++ ids)

/-- The nodes and the includes of one item, and what it notes. -/
def Item.reading : Item → Except Fault ((List Node × List Entry) × List Note)
  | .prose text location => .ok (((Node.ofProse? text location).toList, []), [])
  | .form root =>
    if root.atom = "section-meta" then
      (metaReading root).map fun read => (([read.1.1], read.1.2), read.2)
    else if root.atom = "content" then (readContent root).map fun nodes => ((nodes, []), [])
    else if root.atom = "get-path" then
      root.readId.map fun id => (([.pathTo id root.location], []), [])
    else .ok (([.heading root.atom.length root.parameterText root.location], []), [])

/-- The nodes and the includes of some items, and what they note. -/
def Item.readingAll : List Item → Except Fault ((List Node × List Entry) × List Note)
  | [] => .ok (([], []), [])
  | item :: rest =>
    item.reading.bind fun read =>
      (Item.readingAll rest).map fun more =>
        ((read.1.1 ++ more.1.1, read.1.2 ++ more.1.2), read.2 ++ more.2)

/-- What becomes of a page when all its items have been read: it is there if it says anything, and may be warned about. -/
def Page.outcome (page : Page) : Option Page × List Note :=
  if page.nodes.isEmpty && page.entries.isEmpty then (none, [])
  else (some page, if page.isMissingContent then [.warning page.missingContent] else [])

/-- The page that some items of a document make, and what it notes. There is none if they say nothing. -/
def Page.readingOf (document : Coordinate) (items : List Item) :
    Except Fault (Option Page × List Note) :=
  (Grammar.document.check document.start items).bind fun _ =>
    (Item.readingAll items).map fun read =>
      let page : Page := ⟨document.start, read.1.1, read.1.2⟩
      (page.outcome.1, read.2 ++ page.outcome.2)

/-- The page of a document given as text, and what it notes. -/
def Page.reading (document : Coordinate) (text : String) :
    Except Fault (Option Page × List Note) :=
  (documentItems document text).bind (Page.readingOf document)

/-- What a document given as text says, notes aside. -/
def Page.said (document : Coordinate) (text : String) : Except Fault (Option Page) :=
  (Page.reading document text).map Prod.fst

/-- What a document says comes with some notes. -/
theorem Page.said_eq_ok_iff {document : Coordinate} {text : String} {page : Option Page} :
    Page.said document text = .ok page ↔ ∃ notes, Page.reading document text = .ok (page, notes) := by
  unfold Page.said
  rw [except_map_eq_ok]
  constructor
  · rintro ⟨⟨page, notes⟩, hread, rfl⟩
    exact ⟨notes, hread⟩
  · rintro ⟨notes, hread⟩
    exact ⟨(page, notes), hread, rfl⟩

/-! ## Both are the same -/

theorem enterAll_authorNotes (form : Form) (table : Table) :
    Note.enterAll (authorNotes form) table = some (addAuthors form table) := by
  unfold authorNotes addAuthors
  induction form.childrenNamed "author" generalizing table with
  | nil => rfl
  | cons author rest ih =>
    cases hname : author.parameterText? with
    | none => simpa [hname] using ih table
    | some name =>
      simp only [List.filterMap_cons, hname, List.map_cons, List.foldl_cons]
      exact ih (table.appendGlobal Table.authorsKey name)

/-- An id is declared exactly if it is noted and can be entered. -/
theorem declareId_eq_ok_iff {form : Form} {link : String} {table after : Table} :
    (declareId form link).exec table = (.ok (), after) ↔
      ∃ notes, idNotes form link = .ok notes ∧ Note.enterAll notes table = some after := by
  unfold declareId idNotes
  cases form.child? "id" with
  | none =>
    simp [Note.enterAll]
  | some idForm =>
    cases hid : idForm.readId with
    | error fault => simp [hid, Except.map]
    | ok id =>
      -- the target is computed from the very table that the id is then registered in
      cases hreg : table.register id (sectionTarget form.location.document link table) with
      | error existing => simp [hid, hreg, Except.map, Note.enterAll, Note.enter, Except.toOption]
      | ok registered => simp [hid, hreg, Except.map, Note.enterAll, Note.enter, Except.toOption]

/-- What is said about a section is read exactly if its notes can be entered. -/
theorem readMeta_eq_ok_iff {form : Form} {read : Node × List Entry} {table after : Table} :
    (readMeta form).exec table = (.ok read, after) ↔
      ∃ notes, metaReading form = .ok (read, notes) ∧ Note.enterAll notes table = some after := by
  unfold readMeta metaReading
  cases form.child? "title" with
  | none => simp
  | some titleForm =>
    dsimp only
    rw [ReadM.exec_modify_bind, ReadM.exec_bind_eq_ok]
    constructor
    · rintro ⟨⟨⟩, middle, hid, hread⟩
      cases hread
      obtain ⟨ids, hids, hentered⟩ := declareId_eq_ok_iff.1 hid
      refine ⟨authorNotes form ++ ids, by rw [hids]; rfl, ?_⟩
      exact Note.enterAll_append_eq_some.2 ⟨_, enterAll_authorNotes form table, hentered⟩
    · rintro ⟨notes, hread, hentered⟩
      obtain ⟨ids, hids, hread⟩ := except_map_eq_ok.1 hread
      cases hread
      rw [Note.enterAll_append, enterAll_authorNotes] at hentered
      exact ⟨(), after, declareId_eq_ok_iff.2 ⟨ids, hids, hentered⟩, rfl⟩

/-- A result that does not depend on the table notes nothing. -/
theorem silent_eq_ok_iff (result : Except Fault α) (f : α → β) {b : β} {table after : Table} :
    (result.map f, table) = (.ok b, after) ↔
      ∃ notes, result.map (fun a => (f a, ([] : List Note))) = .ok (b, notes) ∧
        Note.enterAll notes table = some after := by
  cases result with
  | error fault => simp [Except.map]
  | ok a =>
    constructor
    · intro h
      cases h
      exact ⟨[], rfl, rfl⟩
    · rintro ⟨notes, hread, hentered⟩
      cases hread
      cases hentered
      rfl

theorem silent_pure_eq_ok_iff (a : α) {b : α} {table after : Table} :
    (pure a : ReadM α).exec table = (.ok b, after) ↔
      ∃ notes, (.ok (a, []) : Except Fault (α × List Note)) = .ok (b, notes) ∧
        Note.enterAll notes table = some after :=
  silent_eq_ok_iff (.ok a) id

theorem readItem_eq_ok_iff {item : Item} {read : List Node × List Entry} {table after : Table} :
    (readItem item).exec table = (.ok read, after) ↔
      ∃ notes, item.reading = .ok (read, notes) ∧ Note.enterAll notes table = some after := by
  cases item with
  | prose text location => exact silent_pure_eq_ok_iff _
  | form root =>
    rw [readItem, Item.reading]
    by_cases hmeta : root.atom = "section-meta"
    · rw [if_pos hmeta, if_pos hmeta, ReadM.exec_bind_eq_ok]
      constructor
      · rintro ⟨found, middle, hmeta, hread⟩
        cases hread
        obtain ⟨notes, hfound, hentered⟩ := readMeta_eq_ok_iff.1 hmeta
        exact ⟨notes, by rw [hfound]; rfl, hentered⟩
      · rintro ⟨notes, hread, hentered⟩
        obtain ⟨found, hfound, hread⟩ := except_map_eq_ok.1 hread
        cases hread
        exact ⟨found.1, after, readMeta_eq_ok_iff.2 ⟨found.2, hfound, hentered⟩, rfl⟩
    · rw [if_neg hmeta, if_neg hmeta]
      by_cases hcontent : root.atom = "content"
      · rw [if_pos hcontent, if_pos hcontent, ← silent_eq_ok_iff, ReadM.exec_ofExcept_bind]
        cases readContent root <;> rfl
      · rw [if_neg hcontent, if_neg hcontent]
        by_cases hpath : root.atom = "get-path"
        · rw [if_pos hpath, if_pos hpath, ← silent_eq_ok_iff, ReadM.exec_ofExcept_bind]
          cases root.readId <;> rfl
        · rw [if_neg hpath, if_neg hpath]
          exact silent_pure_eq_ok_iff _

/-- Items are read one after the other exactly if all their notes can be entered in order. -/
theorem readNodes_eq_ok_iff {items : List Item} {read : List Node × List Entry}
    {table after : Table} :
    (readNodes items).exec table = (.ok read, after) ↔
      ∃ notes, Item.readingAll items = .ok (read, notes) ∧
        Note.enterAll notes table = some after := by
  induction items generalizing read table after with
  | nil => exact silent_pure_eq_ok_iff _
  | cons item rest ih =>
    unfold readNodes Item.readingAll
    rw [ReadM.exec_bind_eq_ok]
    constructor
    · rintro ⟨first, middle, hfirst, hrest⟩
      obtain ⟨others, last, hothers, hread⟩ := ReadM.exec_bind_eq_ok.1 hrest
      cases hread
      obtain ⟨notes, hnotes, hentered⟩ := readItem_eq_ok_iff.1 hfirst
      obtain ⟨more, hmore, hlast⟩ := ih.1 hothers
      refine ⟨notes ++ more, by rw [hnotes, hmore]; rfl, ?_⟩
      exact Note.enterAll_append_eq_some.2 ⟨middle, hentered, hlast⟩
    · rintro ⟨notes, hread, hentered⟩
      obtain ⟨⟨first, firstNotes⟩, hfirst, hrest⟩ := except_bind_eq_ok.1 hread
      obtain ⟨⟨others, otherNotes⟩, hothers, hread⟩ := except_map_eq_ok.1 hrest
      cases hread
      obtain ⟨middle, hmiddle, hlast⟩ := Note.enterAll_append_eq_some.1 hentered
      refine ⟨first, middle, readItem_eq_ok_iff.2 ⟨firstNotes, hfirst, hmiddle⟩, ?_⟩
      exact ReadM.exec_bind_eq_ok.2 ⟨others, after, ih.2 ⟨otherNotes, hothers, hlast⟩, rfl⟩

theorem outcome_eq_ok_iff (page : Page) {found : Option Page} {table after : Table} :
    ((do
      if page.nodes.isEmpty && page.entries.isEmpty then return none
      if page.isMissingContent then modify (·.warn page.missingContent)
      return some page : ReadM (Option Page))).exec table = (.ok found, after) ↔
      page.outcome.1 = found ∧ Note.enterAll page.outcome.2 table = some after := by
  unfold Page.outcome
  by_cases hempty : (page.nodes.isEmpty && page.entries.isEmpty) = true
  · rw [if_pos hempty, if_pos hempty, ReadM.exec_pure]
    simp [Note.enterAll]
  · rw [if_neg hempty, if_neg hempty]
    by_cases hmissing : page.isMissingContent = true
    · rw [if_pos hmissing, if_pos hmissing, ReadM.exec_modify_bind, ReadM.exec_pure]
      simp [Note.enterAll, Note.enter]
    · rw [if_neg hmissing, if_neg hmissing]
      simp [Note.enterAll]

/-- A page is read from tokens exactly if it is read without a table and its notes can be entered. -/
theorem ofTokens_eq_ok_iff {document : Coordinate} {tokens : List Token}
    (hplace : ∀ token ∈ tokens, token.location.document = document) {page : Option Page}
    {table after : Table} :
    (Page.ofTokens tokens).exec table = (.ok page, after) ↔
      ∃ notes, (Item.ofTokens tokens).bind (Page.readingOf document) = .ok (page, notes) ∧
        Note.enterAll notes table = some after := by
  cases tokens with
  | nil => exact silent_pure_eq_ok_iff _
  | cons first rest =>
    have hstart : first.location.document = document := hplace first List.mem_cons_self
    unfold Page.ofTokens
    dsimp only
    rw [hstart, ReadM.exec_ofExcept_bind]
    cases Item.ofTokens (first :: rest) with
    | error fault => simp [Except.bind]
    | ok items =>
      dsimp only
      rw [ReadM.exec_ofExcept_bind]
      unfold Page.readingOf
      cases hcheck : Grammar.document.check document.start items with
      | error fault => simp [Except.bind, hcheck]
      | ok _ =>
        dsimp only
        rw [ReadM.exec_bind_eq_ok]
        constructor
        · rintro ⟨⟨nodes, entries⟩, middle, hread, hfinish⟩
          obtain ⟨hfound, hlast⟩ := (outcome_eq_ok_iff ⟨document.start, nodes, entries⟩).1 hfinish
          obtain ⟨notes, hnotes, hentered⟩ := readNodes_eq_ok_iff.1 hread
          refine ⟨notes ++ (Page.outcome ⟨document.start, nodes, entries⟩).2, ?_, ?_⟩
          · simp [Except.bind, hcheck, hnotes, Except.map, hfound]
          · exact Note.enterAll_append_eq_some.2 ⟨middle, hentered, hlast⟩
        · rintro ⟨notes, hread, hentered⟩
          simp only [Except.bind, hcheck] at hread
          obtain ⟨⟨⟨nodes, entries⟩, some⟩, hsome, hread⟩ := except_map_eq_ok.1 hread
          cases hread
          obtain ⟨middle, hmiddle, hlast⟩ := Note.enterAll_append_eq_some.1 hentered
          refine ⟨(nodes, entries), middle, readNodes_eq_ok_iff.2 ⟨some, hsome, hmiddle⟩, ?_⟩
          exact (outcome_eq_ok_iff ⟨document.start, nodes, entries⟩).2 ⟨rfl, hlast⟩

/-- **A successful reading of a document is a reading without a table whose notes could be entered.** -/
theorem Page.ofText_eq_ok_iff {document : Coordinate} (hdepth : 1 ≤ document.depth)
    (hindex : 1 ≤ document.index) {text : String} {page : Option Page} {table after : Table} :
    Page.ofText document text table = (.ok page, after) ↔
      ∃ notes, Page.reading document text = .ok (page, notes) ∧
        Note.enterAll notes table = some after := by
  have hvalid : ¬(document.depth < 1 ∨ document.index < 1) := by omega
  unfold Page.ofText split Page.reading documentItems
  rw [if_neg hvalid]
  cases hparts : splitText document (unifyNewlines text.toList) with
  | error fault =>
    have htokens : documentTokens document text = .error fault := by
      unfold documentTokens; rw [hparts]; rfl
    simp [htokens, Except.bind]
  | ok parts =>
    have htokens : documentTokens document text = tokenize parts := by
      unfold documentTokens; rw [hparts]; rfl
    rw [htokens]
    simp only [except_mapError_ok]
    cases hread : tokenize parts with
    | error fault => simp [Except.bind]
    | ok tokens =>
      have hplace : ∀ token ∈ tokens, token.location.document = document := fun _ hmem =>
        document_of_mem_documentTokens (htokens.trans hread) hmem
      show (Except.mapError _ ((Page.ofTokens tokens).exec table).1, _) = _ ↔ _
      rw [Prod.mk.injEq, except_mapError_eq_ok, ← Prod.mk.injEq]
      exact ofTokens_eq_ok_iff hplace

end Bindery
