import Bindery.Proofs.Compile.Isolation
import Bindery.Proofs.Page.Declarations
import Bindery.Proofs.Section.Frame

/-!
# `Proofs.Compile.Metadata` — what the table knows after a source was read

Authors are written to all scopes there are, warnings to the one that has a list of them, and ids to all scopes where they
are not known. All this happens in scopes that are opened and closed along a tree of includes, and a file can be read many
times on the way. What is left is still simple to tell from the documents, visited one by one with what each includes
right behind it: all their authors in order, a warning for each that has includes and no place for them, and their ids.

## Contents
- `addName`, `Table.AddsAuthors`, `Note.enterAll_addsAuthors`: the authors of the outermost scope.
- `Visits`: the documents of a tree in the order they are visited; `Unfolds.visits`.
- `metadata_collected`: the table after a source was read.
-/

namespace Bindery

variable {σ : Type} [Store σ] {store later : σ} {settings : Settings} {table after : Table}

/-! ## The authors of the outermost scope -/

/-- Names that are added one by one stand there once, in the order they first came. -/
theorem foldl_addName (names known : List String) :
    names.foldl addName known.eraseDups = (known ++ names).eraseDups := by
  induction names generalizing known with
  | nil => rw [List.foldl_nil, List.append_nil]
  | cons name rest ih =>
    rw [List.foldl_cons, ← eraseDups_concat, ih, List.append_assoc, List.singleton_append]

/-- The value that the outermost scope has for the authors. -/
def Table.rootAuthors (table : Table) : Option Value := table.root.get? authorsKey

/-- The outermost scope lists the authors that it did before, and some names more. -/
def Table.AddsAuthors (table : Table) (names : List String) (after : Table) : Prop :=
  ListsAuthors after.rootAuthors ∧
    authorList after.rootAuthors = names.foldl addName (authorList table.rootAuthors)

theorem Table.rootAuthors_congr (h : after.column authorsKey = table.column authorsKey) :
    after.rootAuthors = table.rootAuthors := by
  rw [column_eq, column_eq] at h
  exact (List.cons.inj (List.append_inj_right' h rfl)).1

theorem Table.addsAuthors_appendGlobal (h : ListsAuthors table.rootAuthors) (name : String) :
    table.AddsAuthors [name] (table.appendGlobal authorsKey name) := by
  have hvalue : (table.appendGlobal authorsKey name).rootAuthors =
      some (.list (addName (authorList table.rootAuthors) name)) := by
    show (table.root.appendItem authorsKey name).get? authorsKey = _
    rw [Scope.get?_appendItem_self]
    unfold Table.rootAuthors at h ⊢
    rcases h with hnone | ⟨names, hnames⟩
    · rw [hnone]
      rfl
    · rw [hnames]
      rfl
  unfold Table.AddsAuthors
  rw [hvalue]
  exact ⟨.inr ⟨_, rfl⟩, rfl⟩

theorem Table.addsAuthors_of_column (h : ListsAuthors table.rootAuthors)
    (hcolumn : after.column authorsKey = table.column authorsKey) : table.AddsAuthors [] after := by
  rw [Table.AddsAuthors, Table.rootAuthors_congr hcolumn]
  exact ⟨h, rfl⟩

theorem Table.column_authors_register {id : String} {target : Target} (hid : isId id = true)
    (h : table.register id target = .ok after) :
    after.column authorsKey = table.column authorsKey := by
  unfold Table.register at h
  split at h
  next existing _ =>
    split at h
    · cases h
      rfl
    · cases h
  next =>
    cases h
    exact Table.column_setGlobal_of_ne _ _ (ne_of_isId hid isId_authorsKey).symm

mutual

theorem Note.enter_addsAuthors {table after : Table} (hlists : ListsAuthors table.rootAuthors) :
    (note : Note) → note.Valid → note.enter table = some after → table.AddsAuthors note.authors after
  | .author name, _, henter => by
    cases henter
    exact Table.addsAuthors_appendGlobal hlists name
  | .declaration id document link, hvalid, henter => by
    rw [Note.enter] at henter
    cases hregister : table.register id (sectionTarget document link table) with
    | error existing =>
      rw [hregister] at henter
      cases henter
    | ok registered =>
      rw [hregister] at henter
      cases henter
      exact Table.addsAuthors_of_column hlists (Table.column_authors_register hvalid hregister)
  | .warning given, _, henter => by
    cases henter
    exact Table.addsAuthors_of_column hlists (Table.column_warn_of_ne _ _ (by decide))
  | .within source notes, hvalid, henter => by
    rw [Note.enter] at henter
    obtain ⟨inner, hinner, rfl⟩ := Option.map_eq_some_iff.1 henter
    -- opening a scope and closing it leaves the outermost one alone
    have hentering : ListsAuthors (table.entering source).rootAuthors := hlists
    have hadded : (table.entering source).AddsAuthors (Note.authorsAll notes) inner :=
      Note.enterAll_addsAuthors hentering notes hvalid hinner
    exact hadded

/-- **Entering notes adds their authors to the outermost scope**, however deep they are noted. -/
theorem Note.enterAll_addsAuthors {table after : Table} (hlists : ListsAuthors table.rootAuthors) :
    (notes : List Note) → Note.AllValid notes → Note.enterAll notes table = some after →
      table.AddsAuthors (Note.authorsAll notes) after
  | [], _, henter => by
    cases henter
    exact ⟨hlists, rfl⟩
  | note :: rest, hvalid, henter => by
    rw [Note.enterAll] at henter
    obtain ⟨middle, hmiddle, hrest⟩ := Option.bind_eq_some_iff.1 henter
    obtain ⟨hlisted, hfirst⟩ := Note.enter_addsAuthors hlists note hvalid.1 hmiddle
    obtain ⟨hlast, hothers⟩ := Note.enterAll_addsAuthors hlisted rest hvalid.2 hrest
    refine ⟨hlast, ?_⟩
    rw [hothers, hfirst, Note.authorsAll, List.foldl_append]

end

theorem Table.authors_eq_authorList (hinner : table.inner = []) (h : ListsAuthors table.rootAuthors) :
    table.authors = authorList table.rootAuthors := by
  have hget : table.get? authorsKey = table.rootAuthors := by
    rw [Table.get?, Table.scopes, hinner]
    simp [Table.rootAuthors]
  rw [Table.authors, Table.list, hget]
  rcases h with hnone | ⟨names, hnames⟩
  · rw [hnone]
    rfl
  · rw [hnames]
    rfl

/-! ## Visits -/

/-- The document was read from a store: its directives and its page are those of the text at its path. -/
def Visit.ReadFrom (store : σ) (visit : Visit) : Prop :=
  ∃ text items, Store.read store visit.document.path = .ok text ∧
    documentItems visit.document text = .ok items ∧ visit.forms = Item.forms items ∧
    Page.said visit.document text = .ok visit.page

/-- What an entry of a page leads to: a tree, and the documents that are visited below it. -/
structure Branch where
  entry : Entry
  tree : Option Section
  visits : List Visit

/-- The documents of the tree that starts at a coordinate, in the order they are visited: first the document itself, then for
each of its entries in turn the documents of the tree that this leads to. -/
inductive Visits (store : σ) : Coordinate → Option Section → List Visit → Prop where
  | nothing {visit : Visit} (hread : visit.ReadFrom store) (hpage : visit.page = none) :
      Visits store visit.document none [visit]
  | page {visit : Visit} {page : Page} {branches : List Branch} (hread : visit.ReadFrom store)
      (hpage : visit.page = some page) (hentries : branches.map Branch.entry = page.entries)
      (hbelow : ∀ (i : Nat) (branch : Branch), branches[i]? = some branch →
        Visits store ⟨branch.entry.path.text, visit.document.depth + 1, i + 1⟩ branch.tree
          branch.visits) :
      Visits store visit.document
        (some ⟨page.start, page.nodes, branches.map fun branch => (branch.entry, branch.tree)⟩)
        (visit :: branches.flatMap Branch.visits)

/-- A document that was read was visited, and what was noted of it is what it declares. -/
theorem Reads.exists_visit {document : Coordinate} {page : Option Page} {notes : List Note}
    (h : Reads store document page notes) :
    ∃ visit : Visit, visit.document = document ∧ visit.page = page ∧ visit.ReadFrom store ∧
      Noted [visit] notes := by
  obtain ⟨text, htext, hread⟩ := h
  obtain ⟨items, hitems, hnoted⟩ := Page.noted_of_reading hread
  refine ⟨⟨document, Item.forms items, page⟩, rfl, rfl, ?_, hnoted⟩
  exact ⟨text, items, htext, hitems, rfl, Page.said_eq_ok_iff.2 ⟨notes, hread⟩⟩

/-- What was found at the entries of a page is visited entry by entry, and noted in that order. -/
theorem exists_branches (Leads : Nat → Found → List Visit → Prop) {found : List Found}
    (h : ∀ (i : Nat) (f : Found), found[i]? = some f →
      ∃ visits, Leads i f visits ∧ Noted visits f.notes) :
    ∃ branches : List Branch, branches.map Branch.entry = found.map Found.entry ∧
      (branches.map fun branch => (branch.entry, branch.tree)) = found.map Found.included ∧
      (∀ (i : Nat) (branch : Branch), branches[i]? = some branch →
        ∃ f, found[i]? = some f ∧ f.entry = branch.entry ∧ f.tree = branch.tree ∧
          Leads i f branch.visits) ∧
      Noted (branches.flatMap Branch.visits) (found.map Found.note) := by
  induction found generalizing Leads with
  | nil => exact ⟨[], rfl, rfl, by simp, .nil⟩
  | cons first rest ih =>
    obtain ⟨visits, hleads, hnoted⟩ := h 0 first rfl
    obtain ⟨branches, hentries, hincluded, hbelow, hothers⟩ :=
      ih (fun i => Leads (i + 1)) fun i f hf => h (i + 1) f hf
    refine ⟨⟨first.entry, first.tree, visits⟩ :: branches, ?_, ?_, ?_, ?_⟩
    · rw [List.map_cons, List.map_cons, hentries]
    · rw [List.map_cons, List.map_cons, hincluded]
      rfl
    · intro i branch hbranch
      cases i with
      | zero =>
        cases hbranch
        exact ⟨first, rfl, rfl, rfl, hleads⟩
      | succ i => exact hbelow i branch hbranch
    · rw [List.flatMap_cons]
      exact (hnoted.within first.entry.path).append hothers

/-- **What is noted along an unfolding is what the visited documents declare.** -/
theorem Unfolds.visits {document : Coordinate} {tree : Option Section} {notes : List Note}
    (h : Unfolds store document tree notes) :
    ∃ visits, Visits store document tree visits ∧ Noted visits notes := by
  induction h with
  | nothing hread =>
    obtain ⟨visit, rfl, hpage, hvisit, hnoted⟩ := hread.exists_visit
    exact ⟨[visit], .nothing hvisit hpage, hnoted⟩
  | @page document page notes found hread hentries _ ih =>
    obtain ⟨visit, rfl, hpage, hvisit, hnoted⟩ := hread.exists_visit
    obtain ⟨branches, hsame, hincluded, hbelow, hothers⟩ := exists_branches _ ih
    refine ⟨visit :: branches.flatMap Branch.visits, ?_, hnoted.append hothers⟩
    rw [← hincluded]
    refine .page hvisit hpage (hsame.trans hentries) fun i branch hbranch => ?_
    obtain ⟨f, -, hentry, htree, hleads⟩ := hbelow i branch hbranch
    rw [← hentry, ← htree]
    exact hleads

/-! ## The table -/

theorem parseSource_yields {source : DocumentPath} {destination : Option DocumentPath}
    {tree : Option Section}
    (h : (parseSource settings source destination).Yields store table tree later after) :
    ∃ notes, Unfolds store ⟨source.text, 1, 1⟩ tree notes ∧
      Note.enterAll notes (table.setCurrent source (destination.getD source)) = some after := by
  unfold parseSource at h
  obtain ⟨_, between, middle, hmodify, hresolve⟩ := CompileM.yields_bind.1 h
  obtain ⟨rfl, rfl⟩ := CompileM.yields_modify.1 hmodify
  obtain ⟨-, notes, hunfolds, -, hentered⟩ := resolve_yields_iff.1 hresolve
  exact ⟨notes, hunfolds, hentered⟩

/-- **The table knows what the documents of the tree declare.** After a source was read with a new table, the documents of
the tree it makes can be visited one by one, each before what it includes. The table lists their authors in that order, each
where it first came. It holds one warning for each of them that has includes and no place for these, in that order. And an
id stands for something exactly if one of them declares it, namely for its title in the output. -/
theorem metadata_collected {source : DocumentPath} {destination : Option DocumentPath}
    {tree : Option Section}
    (h : (parseSource settings source destination).Yields store Table.new tree later after) :
    ∃ visits : List Visit, Visits store ⟨source.text, 1, 1⟩ tree visits ∧
      after.authors = (visits.flatMap Visit.authors).eraseDups ∧
      after.warnings = (visits.filter Visit.lacksContent).map Visit.warning ∧
      ∀ id target, after.id? id = some target ↔
        ∃ visit ∈ visits, visit.Declares (destination.getD source) id target := by
  obtain ⟨notes, hunfolds, hentered⟩ := parseSource_yields h
  obtain ⟨visits, hvisits, hnoted⟩ := hunfolds.visits
  have hsound := Table.sound_new.setCurrent source (destination.getD source)
  have hgains := Note.enterAll_gains hsound notes hunfolds.allValid hentered
  have hlists : ListsAuthors (Table.new.setCurrent source (destination.getD source)).rootAuthors :=
    .inl rfl
  obtain ⟨hlisted, hauthors⟩ := Note.enterAll_addsAuthors hlists notes hunfolds.allValid hentered
  refine ⟨visits, hvisits, ?_, ?_, ?_⟩
  · have hinner : after.inner = [] := List.length_eq_zero_iff.1 hgains.depth
    rw [Table.authors_eq_authorList hinner hlisted, hauthors, hnoted.authors]
    exact foldl_addName _ []
  · have hnone : (Table.new.setCurrent source (destination.getD source)).warnings = [] :=
      Table.warnings_congr (Table.column_setCurrent_of_ne _ _ _ (by decide) (by decide))
    rw [hgains.warnings, hnone, hnoted.warnings, List.nil_append]
  · intro id target
    have hnew : (Table.new.setCurrent source (destination.getD source)).id? id = none := by
      rw [Table.sound_new.id?_eq hsound fun key hkey => ?_, Table.id?_new]
      exact Table.column_setCurrent_of_ne _ _ _ (ne_of_isId hkey isId_sourceKey)
        (ne_of_isId hkey isId_destinationKey)
    rw [hgains.ids, hnew, Table.destination?_setCurrent, hnoted.ids]
    simp

/-- A document that includes another one twice, and that in turn one that says nothing. Neither has a place for what it
includes. -/
def repeatedShelf : Shelf where
  files :=
    [("/a.dlisp", "(section-meta (title A) (author Y) (include (P b.dlisp) (Q b.dlisp)))"),
     ("/b.dlisp", "(section-meta (title B) (author X) (id b) (include (1 c)))"), ("/c", "")]
  readOnly := []

/-- Reading the first document of `repeatedShelf`. -/
def repeatedRun : (Except Failure (Option Section) × Table) × Shelf :=
  ((parseSource {} (.resolve "/a.dlisp" "/") (some (.resolve "/o.md" "/"))).exec Table.new).run
    repeatedShelf

/-- A document that is read twice is warned about twice, but its author and its id are there once. -/
theorem metadata_collected_repeatedShelf : ∃ tree after later visits,
    repeatedRun = ((.ok tree, after), later) ∧
    after.authors = ["Y", "X"] ∧
    after.warnings.map (fun warning => warning.location.map (·.document)) =
      [some ⟨"/a.dlisp", 1, 1⟩, some ⟨"/b.dlisp", 2, 1⟩, some ⟨"/b.dlisp", 2, 2⟩] ∧
    after.id? "b" = some ⟨.resolve "/o.md" "/", some "#b"⟩ ∧
    Visits repeatedShelf ⟨(DocumentPath.resolve "/a.dlisp" "/").text, 1, 1⟩ tree visits ∧
    after.authors = (visits.flatMap Visit.authors).eraseDups ∧
    after.warnings = (visits.filter Visit.lacksContent).map Visit.warning ∧
    ∀ id target, after.id? id = some target ↔
      ∃ visit ∈ visits, visit.Declares (.resolve "/o.md" "/") id target := by
  have hfacts : repeatedRun.1.1.toOption.isSome = true ∧
      repeatedRun.1.2.authors = ["Y", "X"] ∧
      repeatedRun.1.2.warnings.map (fun warning => warning.location.map (·.document)) =
        [some ⟨"/a.dlisp", 1, 1⟩, some ⟨"/b.dlisp", 2, 1⟩, some ⟨"/b.dlisp", 2, 2⟩] ∧
      repeatedRun.1.2.id? "b" = some ⟨.resolve "/o.md" "/", some "#b"⟩ := by
    decide +kernel
  obtain ⟨⟨⟨result, after⟩, later⟩, hrun⟩ : ∃ run, repeatedRun = run := ⟨_, rfl⟩
  rw [hrun] at hfacts
  obtain ⟨hread, hauthors, hwarnings, hid⟩ := hfacts
  cases result with
  | error failure => cases hread
  | ok tree =>
    obtain ⟨visits, hvisits, hcollected⟩ := metadata_collected hrun
    exact ⟨tree, after, later, visits, hrun, hauthors, hwarnings, hid, hvisits, hcollected⟩

end Bindery
