import Bindery.Proofs.Page.Entering

/-!
# `Proofs.Page.Declarations` — what a document declares, and what it notes

The directives of a document name authors, give the section an id, list includes and say where these go. What is noted when
the document is read says no more and no less: its authors in order, its id with the link of its title, and a warning if
there are includes and no place for them.

## Contents
- `Note.authors`: the authors of a note.
- `Visit`: a document that was visited, and what it declares.
- `Noted`: notes say what visited documents declare.
- `metaReading_cases`, `Item.reading_cases`: what a directive notes; `Page.noted_of_reading`: what a document does.
-/

namespace Bindery

open Source Text

/-! ## The authors of notes -/

mutual

/-- The authors that a note names. -/
def Note.authors : Note → List String
  | .author name => [name]
  | .declaration _ _ _ => []
  | .warning _ => []
  | .within _ notes => Note.authorsAll notes

/-- The authors that some notes name, in order. -/
def Note.authorsAll : List Note → List String
  | [] => []
  | note :: rest => note.authors ++ Note.authorsAll rest

end

theorem Note.authorsAll_append (notes more : List Note) :
    Note.authorsAll (notes ++ more) = Note.authorsAll notes ++ Note.authorsAll more := by
  induction notes with
  | nil => rfl
  | cons note rest ih =>
    rw [List.cons_append, Note.authorsAll, ih, Note.authorsAll, List.append_assoc]

theorem Note.warningsAll_append (notes more : List Note) :
    Note.warningsAll (notes ++ more) = Note.warningsAll notes ++ Note.warningsAll more := by
  induction notes with
  | nil => rfl
  | cons note rest ih =>
    rw [List.cons_append, Note.warningsAll, ih, Note.warningsAll, List.append_assoc]

/-! ## Visits -/

/-- The sub-forms with an atom in all that is said about sections. -/
def declared (atom : String) (forms : List Form) : List Form :=
  (forms.filter (·.atom == "section-meta")).flatMap (·.childrenNamed atom)

theorem declared_append (atom : String) (forms more : List Form) :
    declared atom (forms ++ more) = declared atom forms ++ declared atom more := by
  rw [declared, List.filter_append, List.flatMap_append]
  rfl

/-- A document that was visited: its outermost directives, and the page it makes if it says anything. -/
structure Visit where
  document : Coordinate
  forms : List Form
  page : Option Page

namespace Visit

/-- The authors that the document names. -/
def authors (visit : Visit) : List String :=
  (declared "author" visit.forms).filterMap Form.parameterText?

/-- The ids that the document declares. -/
def ids (visit : Visit) : List String :=
  (declared "id" visit.forms).map fun form => trimmed form.parameterText

/-- The include entries of the document. -/
def includes (visit : Visit) : List Form := (declared "include" visit.forms).flatMap Form.children

/-- Whether the document includes something and does not say where that goes. -/
def lacksContent (visit : Visit) : Bool :=
  !visit.includes.isEmpty && !visit.forms.any (·.atom == "content")

/-- The warning that the document does not say where its includes go. -/
def warning (visit : Visit) : Warning where
  message := "'" ++ visit.document.path ++ "' includes sections but has no (content) location"
  location := some visit.document.start

/-- The link of the document's title. -/
def link? (visit : Visit) : Option String := (visit.page.bind Page.title?).map Prod.snd

/-- The document declares that the id stands for its title, in the output that is at the destination. -/
def Declares (visit : Visit) (destination : DocumentPath) (id : String) (target : Target) : Prop :=
  id ∈ visit.ids ∧ ∃ link, visit.link? = some link ∧ target = ⟨destination, some link⟩

end Visit

/-- The notes say what the visited documents declare, in their order. -/
structure Noted (visits : List Visit) (notes : List Note) : Prop where
  authors : Note.authorsAll notes = visits.flatMap Visit.authors
  warnings : Note.warningsAll notes = (visits.filter Visit.lacksContent).map Visit.warning
  ids : ∀ destination source id target,
    (id, target) ∈ Note.pairsAll (some destination) source notes ↔
      ∃ visit ∈ visits, visit.Declares destination id target

theorem Noted.nil : Noted [] [] where
  authors := rfl
  warnings := rfl
  ids _ _ _ _ := by simp [Note.pairsAll]

theorem Noted.append {visits more : List Visit} {notes others : List Note} (h : Noted visits notes)
    (h' : Noted more others) : Noted (visits ++ more) (notes ++ others) where
  authors := by rw [Note.authorsAll_append, h.authors, h'.authors, List.flatMap_append]
  warnings := by
    rw [Note.warningsAll_append, h.warnings, h'.warnings, List.filter_append, List.map_append]
  ids destination source id target := by
    rw [Note.pairsAll_append, List.mem_append, h.ids, h'.ids]
    simp only [List.mem_append, or_and_right, exists_or]

/-- What is noted in a scope of its own is noted. -/
theorem Noted.within {visits : List Visit} {notes : List Note} (h : Noted visits notes)
    (source : DocumentPath) : Noted visits [.within source notes] where
  authors := by simpa [Note.authorsAll, Note.authors] using h.authors
  warnings := by simpa [Note.warningsAll, Note.warnings] using h.warnings
  ids destination outer id target := by
    rw [← h.ids destination (some source) id target]
    simp [Note.pairsAll, Note.pairs]

/-! ## Directives -/

/-- A form that was checked among others follows the rule that governs it. -/
theorem Rule.check_of_checkForms {parent : String} {location : Location}
    {rules : List (Rule × Occurrence)} {used : List Nat} {forms : List Form}
    (h : checkForms parent location rules used forms = .ok ()) {form : Form} (hform : form ∈ forms)
    {rule : Rule} {occurrence : Occurrence} {number : Nat}
    (hgoverned : governing? rules form.atom = some ((rule, occurrence), number)) :
    rule.check form = .ok () := by
  obtain ⟨_, _, _, hsame, hcheck⟩ := (checkForms_eq_ok_iff_fitsAfter.1 h).governed form hform
  cases hgoverned.symm.trans hsame
  exact hcheck

/-- Where there is one sub-form with an atom at most, the first is all there are. -/
theorem Form.childrenNamed_eq_toList {form : Form} {atom : String}
    (h : form.children.countP (·.atom == atom) ≤ 1) :
    form.childrenNamed atom = (form.child? atom).toList := by
  rw [List.countP_eq_length_filter] at h
  unfold Form.childrenNamed Form.child?
  rw [← List.head?_filter]
  cases hnamed : form.children.filter (·.atom == atom) with
  | nil => rfl
  | cons first rest =>
    rw [hnamed, List.length_cons] at h
    obtain rfl : rest = [] := List.length_eq_zero_iff.1 (by omega)
    rfl

/-- What is said about a section has one sub-form of a kind that the grammar lets through once. -/
theorem childrenNamed_of_sectionMeta {form : Form} (h : Grammar.sectionMeta.check form = .ok ())
    (atom : String) {rule : Rule} {occurrence : Occurrence} {number : Nat}
    (hgoverned : governing? Grammar.sectionMeta.children atom = some ((rule, occurrence), number))
    (hsingle : occurrence.isSingle = true) :
    form.childrenNamed atom = (form.child? atom).toList := by
  obtain ⟨name, location, parameter, children⟩ := form
  rw [Rule.check_mk] at h
  obtain ⟨_, -, hchildren⟩ := except_bind_eq_ok.1 h
  have hforms : checkForms name location Grammar.sectionMeta.children [] children = .ok () :=
    hchildren
  exact Form.childrenNamed_eq_toList (countP_atom_of_checkForms hgoverned hsingle hforms)

theorem eq_trimmed_of_readId {form : Form} {id : String} (h : form.readId = .ok id) :
    id = trimmed form.parameterText := by
  unfold Form.readId at h
  dsimp only at h
  split at h
  · cases h
    rfl
  · cases h

/-- What is said about a section makes a title, and notes the authors and the id. -/
theorem metaReading_cases {form : Form} (hcheck : Grammar.sectionMeta.check form = .ok ())
    {read : Node × List Entry} {notes : List Note} (h : metaReading form = .ok (read, notes)) :
    ∃ name link, read.1.title? = some (name, link) ∧ read.1.isContent = false ∧
      read.2.length = ((form.childrenNamed "include").flatMap Form.children).length ∧
      notes = authorNotes form ++ (form.childrenNamed "id").map fun id =>
        .declaration (trimmed id.parameterText) form.location.document link := by
  have hincludes := childrenNamed_of_sectionMeta hcheck "include" rfl rfl
  have hids := childrenNamed_of_sectionMeta hcheck "id" rfl rfl
  unfold metaReading at h
  split at h
  next => cases h
  next titleForm _ =>
    obtain ⟨ids, hnotes, heq⟩ := except_map_eq_ok.1 h
    cases heq
    refine ⟨_, _, rfl, rfl, ?_, ?_⟩
    · rw [hincludes, readEntries]
      split
      next hnone => rw [hnone]; rfl
      next includes hsome =>
        rw [hsome]
        simp
    · rw [hids]
      unfold idNotes at hnotes
      split at hnotes
      next hnone =>
        cases hnotes
        rw [hnone]
        rfl
      next idForm hsome =>
        obtain ⟨id, hid, rfl⟩ := except_map_eq_ok.1 hnotes
        rw [hsome, eq_trimmed_of_readId hid]
        rfl

/-- The place of the included sections is no title. -/
theorem readContent_cases {form : Form} {nodes : List Node} (h : readContent form = .ok nodes) :
    nodes.findSome? Node.title? = none ∧ nodes.any Node.isContent = true := by
  unfold readContent at h
  split at h
  next =>
    cases h
    exact ⟨rfl, rfl⟩
  next toc _ =>
    obtain ⟨style, -, heq⟩ := except_bind_eq_ok.1 h
    cases heq
    exact ⟨rfl, rfl⟩

/-- What an item notes, if it is about a section; other items note nothing. -/
theorem Item.reading_cases {item : Item} {read : List Node × List Entry} {notes : List Note}
    (h : item.reading = .ok (read, notes)) :
    (∃ form title entries, item = .form form ∧ form.atom = "section-meta" ∧
      metaReading form = .ok ((title, entries), notes) ∧ read = ([title], entries)) ∨
    ((Item.forms [item]).filter (·.atom == "section-meta") = [] ∧ notes = [] ∧ read.2 = [] ∧
      read.1.findSome? Node.title? = none ∧
      read.1.any Node.isContent = (Item.forms [item]).any (·.atom == "content")) := by
  cases item with
  | prose text location =>
    cases h
    unfold Node.ofProse?
    split
    · exact .inr ⟨rfl, rfl, rfl, rfl, rfl⟩
    · exact .inr ⟨rfl, rfl, rfl, rfl, rfl⟩
  | form root =>
    rw [Item.reading] at h
    split at h
    next hmeta =>
      obtain ⟨⟨⟨title, entries⟩, found⟩, hfound, heq⟩ := except_map_eq_ok.1 h
      cases heq
      exact .inl ⟨root, title, entries, rfl, hmeta, hfound, rfl⟩
    next hmeta =>
      have hnone : (Item.forms [.form root]).filter (·.atom == "section-meta") = [] := by
        simp [Item.forms, hmeta]
      split at h
      next hcontent =>
        obtain ⟨nodes, hnodes, heq⟩ := except_map_eq_ok.1 h
        cases heq
        obtain ⟨htitle, hplace⟩ := readContent_cases hnodes
        exact .inr ⟨hnone, rfl, rfl, htitle, by simp [Item.forms, hcontent, hplace]⟩
      next hcontent =>
        split at h
        next =>
          obtain ⟨id, -, heq⟩ := except_map_eq_ok.1 h
          cases heq
          exact .inr ⟨hnone, rfl, rfl, rfl, by simp [Item.forms, hcontent, Node.isContent]⟩
        next =>
          cases h
          exact .inr ⟨hnone, rfl, rfl, rfl, by simp [Item.forms, hcontent, Node.isContent]⟩

/-! ## Documents -/

/-- Each form that is about a section follows the rule for these. -/
def SectionsChecked (forms : List Form) : Prop :=
  ∀ form ∈ forms, form.atom = "section-meta" → Grammar.sectionMeta.check form = .ok ()

/-- Nodes, entries and notes tell what some directives declare, ids aside. -/
structure Tells (forms : List Form) (read : List Node × List Entry) (notes : List Note) : Prop where
  authors : Note.authorsAll notes = (declared "author" forms).filterMap Form.parameterText?
  warnings : Note.warningsAll notes = []
  entries : read.2.length = ((declared "include" forms).flatMap Form.children).length
  content : read.1.any Node.isContent = forms.any (·.atom == "content")

theorem Tells.append {forms more : List Form} {read others : List Node × List Entry}
    {notes added : List Note} (h : Tells forms read notes) (h' : Tells more others added) :
    Tells (forms ++ more) (read.1 ++ others.1, read.2 ++ others.2) (notes ++ added) where
  authors := by
    rw [Note.authorsAll_append, h.authors, h'.authors, declared_append, List.filterMap_append]
  warnings := by rw [Note.warningsAll_append, h.warnings, h'.warnings, List.append_nil]
  entries := by
    rw [List.length_append, h.entries, h'.entries, declared_append, List.flatMap_append,
      List.length_append]
  content := by rw [List.any_append, h.content, h'.content, List.any_append]

theorem authorsAll_authorNotes (form : Form) :
    Note.authorsAll (authorNotes form) = (form.childrenNamed "author").filterMap Form.parameterText? ∧
      Note.warningsAll (authorNotes form) = [] := by
  unfold authorNotes
  induction (form.childrenNamed "author").filterMap Form.parameterText? with
  | nil => exact ⟨rfl, rfl⟩
  | cons name rest ih => exact ⟨congrArg (name :: ·) ih.1, ih.2⟩

/-- Declarations name no authors, and warn of nothing. -/
theorem authorsAll_declarations (ids : List Form) (document : Coordinate) (link : String) :
    Note.authorsAll (ids.map fun id => .declaration (trimmed id.parameterText) document link) = [] ∧
      Note.warningsAll (ids.map fun id => .declaration (trimmed id.parameterText) document link) =
        [] := by
  induction ids with
  | nil => exact ⟨rfl, rfl⟩
  | cons id rest ih => exact ih

theorem Item.tells_of_reading {item : Item} {read : List Node × List Entry} {notes : List Note}
    (hcheck : SectionsChecked (Item.forms [item])) (h : item.reading = .ok (read, notes)) :
    Tells (Item.forms [item]) read notes := by
  rcases Item.reading_cases h with
    ⟨form, title, entries, rfl, hatom, hmeta, rfl⟩ | ⟨hnone, rfl, hentries, -, hcontent⟩
  · obtain ⟨name, link, -, hplace, hlength, rfl⟩ :=
      metaReading_cases (hcheck form List.mem_cons_self hatom) hmeta
    have hforms (atom : String) :
        declared atom (Item.forms [.form form]) = form.childrenNamed atom := by
      simp [declared, Item.forms, hatom]
    obtain ⟨hauthors, hquiet⟩ := authorsAll_authorNotes form
    obtain ⟨hnobody, hsilent⟩ :=
      authorsAll_declarations (form.childrenNamed "id") form.location.document link
    refine ⟨?_, ?_, ?_, ?_⟩
    · rw [hforms, Note.authorsAll_append, hauthors, hnobody, List.append_nil]
    · rw [Note.warningsAll_append, hquiet, hsilent]
      rfl
    · rw [hforms]
      exact hlength
    · simp [Item.forms, hatom, hplace]
  · have hforms (atom : String) : declared atom (Item.forms [item]) = [] := by
      rw [declared, hnone]
      rfl
    refine ⟨?_, rfl, ?_, hcontent⟩
    · rw [hforms]
      rfl
    · rw [hforms, hentries]
      rfl

theorem SectionsChecked.of_cons {item : Item} {rest : List Item}
    (h : SectionsChecked (Item.forms (item :: rest))) :
    SectionsChecked (Item.forms [item]) ∧ SectionsChecked (Item.forms rest) := by
  rw [Item.forms_cons] at h
  exact List.forall_mem_append.1 h

theorem Item.tells_of_readingAll {items : List Item} {read : List Node × List Entry}
    {notes : List Note} (hcheck : SectionsChecked (Item.forms items))
    (h : Item.readingAll items = .ok (read, notes)) : Tells (Item.forms items) read notes := by
  induction items generalizing read notes with
  | nil =>
    cases h
    exact ⟨rfl, rfl, rfl, rfl⟩
  | cons item rest ih =>
    rw [Item.readingAll] at h
    obtain ⟨⟨first, firstNotes⟩, hfirst, h⟩ := except_bind_eq_ok.1 h
    obtain ⟨⟨others, otherNotes⟩, hothers, heq⟩ := except_map_eq_ok.1 h
    cases heq
    obtain ⟨hitem, hrest⟩ := hcheck.of_cons
    rw [Item.forms_cons]
    exact (Item.tells_of_reading hitem hfirst).append (ih hrest hothers)

/-- Items that are not about a section note nothing. -/
theorem Item.notes_eq_nil {items : List Item} {read : List Node × List Entry} {notes : List Note}
    (hnone : (Item.forms items).countP (·.atom == "section-meta") = 0)
    (h : Item.readingAll items = .ok (read, notes)) : notes = [] := by
  induction items generalizing read notes with
  | nil =>
    cases h
    rfl
  | cons item rest ih =>
    rw [Item.readingAll] at h
    obtain ⟨⟨first, firstNotes⟩, hfirst, h⟩ := except_bind_eq_ok.1 h
    obtain ⟨⟨others, otherNotes⟩, hothers, heq⟩ := except_map_eq_ok.1 h
    cases heq
    rw [Item.forms_cons, List.countP_append, Nat.add_eq_zero_iff] at hnone
    rcases Item.reading_cases hfirst with ⟨form, _, _, rfl, hatom, -, -⟩ | ⟨-, rfl, -, -, -⟩
    · simp [Item.forms, hatom] at hnone
    · exact ih hnone.2 hothers

theorem pairsAll_declarations (ids : List Form) (document : Coordinate) (link : String)
    (destination : DocumentPath) (source : Option DocumentPath) :
    Note.pairsAll (some destination) source
        (ids.map fun id => .declaration (trimmed id.parameterText) document link) =
      ids.map fun id => (trimmed id.parameterText, ⟨destination, some link⟩) := by
  induction ids with
  | nil => rfl
  | cons id rest ih => exact congrArg (_ :: ·) ih

/-- Only what is said about a section declares something. -/
theorem declared_eq_nil {forms : List Form} (h : forms.countP (·.atom == "section-meta") = 0)
    (atom : String) : declared atom forms = [] := by
  rw [List.countP_eq_length_filter, List.length_eq_zero_iff] at h
  rw [declared, h]
  rfl

/-- **An id that is noted is declared, and stands for the title.** -/
theorem Item.pairs_of_readingAll {items : List Item} {read : List Node × List Entry}
    {notes : List Note} (hcheck : SectionsChecked (Item.forms items))
    (hone : (Item.forms items).countP (·.atom == "section-meta") ≤ 1)
    (h : Item.readingAll items = .ok (read, notes)) (destination : DocumentPath)
    (source : Option DocumentPath) (id : String) (target : Target) :
    (id, target) ∈ Note.pairsAll (some destination) source notes ↔
      (∃ form ∈ declared "id" (Item.forms items), trimmed form.parameterText = id) ∧
      ∃ name link, read.1.findSome? Node.title? = some (name, link) ∧
        target = ⟨destination, some link⟩ := by
  induction items generalizing read notes with
  | nil =>
    cases h
    simp [Note.pairsAll, Item.forms, declared]
  | cons item rest ih =>
    rw [Item.readingAll] at h
    obtain ⟨⟨first, firstNotes⟩, hfirst, h⟩ := except_bind_eq_ok.1 h
    obtain ⟨⟨others, otherNotes⟩, hothers, heq⟩ := except_map_eq_ok.1 h
    cases heq
    obtain ⟨hitem, hrest⟩ := hcheck.of_cons
    rw [Item.forms_cons, List.countP_append] at hone
    rw [Item.forms_cons, declared_append]
    rcases Item.reading_cases hfirst with
      ⟨form, title, entries, rfl, hatom, hmeta, rfl⟩ | ⟨hnone, rfl, -, htitle, -⟩
    · -- the one section is here, so nothing behind it declares an id
      obtain ⟨name, link, htitle, -, -, rfl⟩ :=
        metaReading_cases (hitem form List.mem_cons_self hatom) hmeta
      have hnone : (Item.forms rest).countP (·.atom == "section-meta") = 0 := by
        have hhere : (Item.forms [.form form]).countP (·.atom == "section-meta") = 1 := by
          simp [Item.forms, hatom]
        omega
      obtain rfl := Item.notes_eq_nil hnone hothers
      have hforms : declared "id" (Item.forms [.form form]) = form.childrenNamed "id" := by
        simp [declared, Item.forms, hatom]
      have hauthors := (authorNotes_spec form (some destination) source).2
      have hfound : ([title] ++ others.1).findSome? Node.title? = some (name, link) := by
        rw [List.singleton_append, List.findSome?_cons, htitle]
      rw [List.append_nil, Note.pairsAll_append, hauthors, List.nil_append, pairsAll_declarations,
        hforms, declared_eq_nil hnone, List.append_nil, hfound, List.mem_map]
      constructor
      · rintro ⟨idForm, hmem, heq⟩
        cases heq
        exact ⟨⟨idForm, hmem, rfl⟩, name, link, rfl, rfl⟩
      · rintro ⟨⟨idForm, hmem, rfl⟩, _, _, ⟨⟩, rfl⟩
        exact ⟨idForm, hmem, rfl⟩
    · have hcount : (Item.forms [item]).countP (·.atom == "section-meta") = 0 := by
        rw [List.countP_eq_length_filter, hnone]
        rfl
      rw [List.nil_append, declared_eq_nil hcount, List.nil_append, List.findSome?_append, htitle,
        Option.none_or]
      exact ih hrest (by omega) hothers

/-- A page makes its title known, whether or not it says anything else. -/
theorem Page.bind_title?_outcome (page : Page) : page.outcome.1.bind Page.title? = page.title? := by
  unfold Page.outcome
  split
  next hempty =>
    rw [Bool.and_eq_true, List.isEmpty_iff] at hempty
    rw [Page.title?, hempty.1]
    rfl
  next => rfl

/-- All that is noted of a page as a whole is that its includes have no place. -/
theorem Page.outcome_notes (page : Page) :
    Note.authorsAll page.outcome.2 = [] ∧
      Note.warningsAll page.outcome.2 =
        if page.isMissingContent then [page.missingContent] else [] := by
  unfold Page.outcome
  split
  next hempty =>
    -- a page that says nothing includes nothing
    rw [Bool.and_eq_true] at hempty
    rw [Page.isMissingContent, hempty.2]
    exact ⟨rfl, rfl⟩
  next =>
    dsimp only
    split
    · exact ⟨rfl, rfl⟩
    · exact ⟨rfl, rfl⟩

theorem Tells.isMissingContent {document : Coordinate} {forms : List Form} {nodes : List Node}
    {entries : List Entry} {notes : List Note} (h : Tells forms (nodes, entries) notes)
    (page : Option Page) : Page.isMissingContent ⟨document.start, nodes, entries⟩ =
      Visit.lacksContent ⟨document, forms, page⟩ := by
  have hincludes : entries.isEmpty = ((declared "include" forms).flatMap Form.children).isEmpty := by
    rw [Bool.eq_iff_iff, List.isEmpty_iff_length_eq_zero, List.isEmpty_iff_length_eq_zero,
      ← h.entries]
  have hcontent : nodes.any Node.isContent = forms.any (·.atom == "content") := h.content
  rw [Page.isMissingContent, Page.hasContent, hincludes, hcontent]
  rfl

/-- **What is noted of a document is what it declares.** -/
theorem Page.noted_of_reading {document : Coordinate} {text : String} {page : Option Page}
    {notes : List Note} (h : Page.reading document text = .ok (page, notes)) :
    ∃ items, documentItems document text = .ok items ∧
      Noted [⟨document, Item.forms items, page⟩] notes := by
  unfold Page.reading at h
  obtain ⟨items, hitems, h⟩ := except_bind_eq_ok.1 h
  refine ⟨items, hitems, ?_⟩
  unfold Page.readingOf at h
  obtain ⟨_, hcheck, h⟩ := except_bind_eq_ok.1 h
  obtain ⟨⟨⟨nodes, entries⟩, readNotes⟩, hread, heq⟩ := except_map_eq_ok.1 h
  cases heq
  have hforms : checkForms Grammar.document.name document.start Grammar.document.root []
      (Item.forms items) = .ok () := by
    rw [Grammar.check_eq] at hcheck
    exact hcheck
  have hsection : governing? Grammar.document.root "section-meta" =
      some ((Grammar.sectionMeta, .atMostOnce), 0) := rfl
  have hone := countP_atom_of_checkForms hsection rfl hforms
  have hsections : SectionsChecked (Item.forms items) := by
    intro form hform hatom
    exact Rule.check_of_checkForms hforms hform (hatom ▸ hsection)
  have htells := Item.tells_of_readingAll hsections hread
  obtain ⟨hnobody, hwarned⟩ := Page.outcome_notes ⟨document.start, nodes, entries⟩
  refine ⟨?_, ?_, ?_⟩
  · rw [Note.authorsAll_append, htells.authors, hnobody, List.append_nil, List.flatMap_singleton]
    rfl
  · rw [Note.warningsAll_append, htells.warnings, hwarned, List.nil_append,
      htells.isMissingContent (Page.outcome ⟨document.start, nodes, entries⟩).1]
    split
    next hlacks => rw [List.filter_cons_of_pos hlacks]; rfl
    next hlacks => rw [List.filter_cons_of_neg hlacks]; rfl
  · intro destination source id target
    have hquiet := (Page.outcome_spec ⟨document.start, nodes, entries⟩ (some destination) source).2
    rw [Note.pairsAll_append, hquiet, List.append_nil,
      Item.pairs_of_readingAll hsections hone hread]
    constructor
    · rintro ⟨⟨form, hform, hid⟩, name, link, htitle, rfl⟩
      refine ⟨_, List.mem_singleton_self _, List.mem_map.2 ⟨form, hform, hid⟩, link, ?_, rfl⟩
      rw [Visit.link?, Page.bind_title?_outcome, Page.title?, htitle]
      rfl
    · rintro ⟨visit, hvisit, hid, link, hlink, rfl⟩
      obtain rfl := List.mem_singleton.1 hvisit
      rw [Visit.link?, Page.bind_title?_outcome] at hlink
      obtain ⟨⟨name, _⟩, htitle, rfl⟩ := Option.map_eq_some_iff.1 hlink
      exact ⟨List.mem_map.1 hid, name, _, htitle, rfl⟩

end Bindery
