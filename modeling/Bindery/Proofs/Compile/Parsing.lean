import Bindery.Compile
import Bindery.Proofs.Page.Entering
import Bindery.Proofs.Section.Unfolding

/-!
# `Proofs.Compile.Parsing` — reading the documents of a project

The documents of a project are read one after the other with one table. All that one leaves for the next are its ids and
its warnings, and of these only ids can be in the way. So a project can be read exactly if each of its documents can be
completed and no two of its ids clash, and this does not depend on the order they are listed in.

## Contents
- `Study`: a document of a project, its tree and its notes; `Study.Completes`.
- `registerIds_gains`, `exists_registerIds`: making the ids of a project known.
- `parseAll_gains`, `exists_parseAll`: reading its documents.
-/

namespace Bindery

variable {σ : Type} [Store σ] {store later : σ} {settings : Settings} {table after : Table}

/-- An unfolding declares nothing but ids. -/
theorem Unfolds.allValid {document : Coordinate} {tree : Option Section} {notes : List Note}
    (h : Unfolds store document tree notes) : Note.AllValid notes := by
  induction h with
  | nothing hread =>
    obtain ⟨text, -, hread⟩ := hread
    exact (Page.reading_spec hread none none).1
  | page hread hentries hbelow ih =>
    obtain ⟨text, -, hread⟩ := hread
    refine (Page.reading_spec hread none none).1.append (Note.allValid_iff.2 fun note hnote => ?_)
    obtain ⟨f, hf, rfl⟩ := List.mem_map.1 hnote
    obtain ⟨i, hi⟩ := List.mem_iff_getElem?.1 hf
    exact ih i f hi

/-! ## The scope of a document -/

theorem Table.opens_setCurrent (h : table.Sound) (source destination : DocumentPath) :
    table.Opens (table.push.setCurrent source destination) :=
  ((Table.opens_push h).set_path isId_sourceKey (by decide) source).set_path
    isId_destinationKey (by decide) destination

theorem Table.destination?_setCurrent (table : Table) (source destination : DocumentPath) :
    (table.setCurrent source destination).destination? = some destination := by
  rw [Table.destination?, Table.path?, Table.setCurrent, Table.get?_set_self]

theorem Table.source?_setCurrent (table : Table) (source destination : DocumentPath) :
    (table.setCurrent source destination).source? = some source := by
  have hcolumn : (table.setCurrent source destination).column Table.sourceKey =
      (table.set Table.sourceKey (.path source)).column Table.sourceKey :=
    Table.column_set_of_ne _ _ (by decide)
  rw [Table.source?, Table.path?_congr hcolumn, Table.path?, Table.get?_set_self]

/-! ## One document -/

/-- A document of a project, the tree that it makes and what is noted on the way. -/
structure Study where
  document : ProjectDocument
  tree : Option Section
  notes : List Note

namespace Study

/-- The ids that a document declares, with what they stand for. -/
def pairs (study : Study) : List (String × Target) :=
  Note.pairsAll (some study.document.output) (some study.document.source) study.notes

/-- The warnings that a document gives. -/
def warnings (study : Study) : List Warning := Note.warningsAll study.notes

/-- The document as it is handed on to be written. -/
def parsed (study : Study) : Parsed := ⟨study.document, study.tree, study.warnings⟩

/-- The tree is that of the document's files, and the settings admit it. -/
structure Completes (store : σ) (settings : Settings) (study : Study) : Prop where
  unfolds : Unfolds store ⟨study.document.source.text, 1, 1⟩ study.tree study.notes
  admits : Admits settings (settings.maxIncludeDepth - 1) [study.document.source] study.tree

end Study

theorem parseOne_yields_iff {document : ProjectDocument} {parsed : Parsed} :
    (parseOne settings document).Yields store table parsed later after ↔
      later = store ∧ ∃ tree notes, Study.Completes store settings ⟨document, tree, notes⟩ ∧
        Note.enterAll notes (table.setCurrent document.source document.output) = some after ∧
        parsed = ⟨document, tree, after.warnings.drop table.warnings.length⟩ := by
  unfold parseOne parseSource
  rw [CompileM.yields_bind]
  constructor
  · rintro ⟨_, _, _, hget, hrest⟩
    obtain ⟨rfl, rfl, rfl⟩ := CompileM.yields_get.1 hget
    obtain ⟨tree, between, middle, hparse, hrest⟩ := CompileM.yields_bind.1 hrest
    obtain ⟨_, _, _, hget, hpure⟩ := CompileM.yields_bind.1 hrest
    obtain ⟨rfl, rfl, rfl⟩ := CompileM.yields_get.1 hget
    obtain ⟨rfl, rfl, rfl⟩ := CompileM.yields_pure.1 hpure
    obtain ⟨_, _, _, hmodify, hresolve⟩ := CompileM.yields_bind.1 hparse
    obtain ⟨rfl, rfl⟩ := CompileM.yields_modify.1 hmodify
    obtain ⟨rfl, notes, hunfolds, hadmits, hentered⟩ := resolve_yields_iff.1 hresolve
    exact ⟨rfl, tree, notes, ⟨hunfolds, hadmits⟩, hentered, rfl⟩
  · rintro ⟨rfl, tree, notes, ⟨hunfolds, hadmits⟩, hentered, rfl⟩
    refine ⟨table, later, table, CompileM.yields_get.2 ⟨rfl, rfl, rfl⟩, ?_⟩
    refine CompileM.yields_bind.2 ⟨tree, later, after, ?_, ?_⟩
    · refine CompileM.yields_bind.2 ⟨(), later, _, CompileM.yields_modify.2 ⟨rfl, rfl⟩, ?_⟩
      exact resolve_yields_iff.2 ⟨rfl, notes, hunfolds, hadmits, hentered⟩
    · refine CompileM.yields_bind.2 ⟨after, later, after, CompileM.yields_get.2 ⟨rfl, rfl, rfl⟩, ?_⟩
      exact CompileM.yields_pure.2 ⟨rfl, rfl, rfl⟩

/-- What is noted in the scope of a document. -/
theorem Study.Completes.gains (hsound : table.Sound) {study : Study}
    (h : study.Completes store settings) {inner : Table}
    (hentered : Note.enterAll study.notes
      (table.push.setCurrent study.document.source study.document.output) = some inner) :
    (table.push.setCurrent study.document.source study.document.output).Gains study.pairs
      study.warnings inner := by
  have hopens := Table.opens_setCurrent hsound study.document.source study.document.output
  have hgains := Note.enterAll_gains hopens.sound _ h.unfolds.allValid hentered
  rwa [Table.destination?_setCurrent, Table.source?_setCurrent] at hgains

/-- The warnings after reading a document, less those before it, are its own. -/
theorem Study.Completes.drop_warnings (hsound : table.Sound) {study : Study} {inner : Table}
    (h : (table.push.setCurrent study.document.source study.document.output).Gains study.pairs
      study.warnings inner) :
    inner.warnings.drop table.push.warnings.length = study.warnings := by
  have hopens := Table.opens_setCurrent hsound study.document.source study.document.output
  rw [h.warnings, hopens.warnings, Table.warnings_push, List.drop_left]

/-- A document that was read has been completed, and leaves its ids and its warnings. -/
theorem parseOne_gains (hsound : table.Sound) {document : ProjectDocument} {parsed : Parsed}
    (h : (CompileM.inScope (parseOne settings document)).Yields store table parsed later after) :
    later = store ∧ ∃ study : Study, study.document = document ∧ study.Completes store settings ∧
      parsed = study.parsed ∧ table.Gains study.pairs study.warnings after := by
  obtain ⟨inner, hparse, rfl⟩ := CompileM.yields_inScope.1 h
  obtain ⟨rfl, tree, notes, hcompletes, hentered, rfl⟩ := parseOne_yields_iff.1 hparse
  have hgains := hcompletes.gains hsound hentered
  refine ⟨rfl, ⟨document, tree, notes⟩, rfl, hcompletes, ?_, ?_⟩
  · rw [Study.parsed, ← Study.Completes.drop_warnings hsound hgains]
  · exact (Table.opens_setCurrent hsound _ _).close hgains

/-- A document that can be completed is read where none of its ids clash. -/
theorem exists_parseOne (hsound : table.Sound) {study : Study}
    (h : study.Completes store settings) (hpairs : table.Consistent study.pairs) :
    ∃ after, (CompileM.inScope (parseOne settings study.document)).Yields store table study.parsed
      store after ∧ table.Gains study.pairs study.warnings after := by
  have hopens := Table.opens_setCurrent hsound study.document.source study.document.output
  obtain ⟨inner, hentered⟩ : ∃ inner, Note.enterAll study.notes
      (table.push.setCurrent study.document.source study.document.output) = some inner := by
    refine Note.exists_enterAll hopens.sound _ h.unfolds.allValid ?_
    rw [Table.destination?_setCurrent, Table.source?_setCurrent]
    exact hopens.consistent_iff.2 hpairs
  have hgains := h.gains hsound hentered
  refine ⟨_, CompileM.yields_inScope.2 ⟨inner, ?_, rfl⟩, hopens.close hgains⟩
  refine parseOne_yields_iff.2 ⟨rfl, study.tree, study.notes, h, hentered, ?_⟩
  rw [Study.Completes.drop_warnings hsound hgains]
  rfl

/-! ## All documents -/

/-- What is read and what is not, with the first document taken apart from the others. -/
theorem parseAll_cons_run_iff {document : ProjectDocument} {rest : List ProjectDocument}
    {results : List Parsed × List Failure} :
    (parseAll settings (document :: rest) table).run store = ((results, after), later) ↔
      ∃ result middle between others,
        ((CompileM.inScope (parseOne settings document)).exec table).run store =
          ((result, middle), between) ∧
        (parseAll settings rest middle).run between = ((others, after), later) ∧
        results = addResult result others := by
  rw [parseAll, FileM.run_bind]
  rcases ((CompileM.inScope (parseOne settings document)).exec table).run store with
    ⟨⟨result, middle⟩, between⟩
  dsimp only
  rw [FileM.run_bind]
  rcases hrest : (parseAll settings rest middle).run between with ⟨⟨others, last⟩, final⟩
  constructor
  · intro h
    refine ⟨result, middle, between, others, rfl, ?_⟩
    cases result with
    | error failure =>
      cases h
      exact ⟨hrest, rfl⟩
    | ok first =>
      cases h
      exact ⟨hrest, rfl⟩
  · rintro ⟨_, _, _, _, ⟨⟩, hothers, rfl⟩
    cases hrest.symm.trans hothers
    cases result <;> rfl

/-- All documents are read if the first is and the others are. -/
theorem parseAll_cons_eq_iff {document : ProjectDocument} {rest : List ProjectDocument}
    {parsed : List Parsed} :
    (parseAll settings (document :: rest) table).run store = (((parsed, []), after), later) ↔
      ∃ first others between middle,
        (CompileM.inScope (parseOne settings document)).Yields store table first between middle ∧
        (parseAll settings rest middle).run between = (((others, []), after), later) ∧
        parsed = first :: others := by
  rw [parseAll_cons_run_iff]
  constructor
  · rintro ⟨_, middle, between, _, hfirst, hrest, hresults⟩
    obtain ⟨first, others, rfl, rfl, rfl⟩ := addResult_eq_nil_iff.1 hresults.symm
    exact ⟨first, others, between, middle, hfirst, hrest, rfl⟩
  · rintro ⟨first, others, between, middle, hfirst, hrest, rfl⟩
    exact ⟨.ok first, middle, between, (others, []), hfirst, hrest, rfl⟩

/-- **Documents that were all read have been completed, and leave their ids and their warnings.** -/
theorem parseAll_gains (hsound : table.Sound) {documents : List ProjectDocument}
    {parsed : List Parsed}
    (h : (parseAll settings documents table).run store = (((parsed, []), after), later)) :
    later = store ∧ ∃ studies : List Study, studies.map Study.document = documents ∧
      (∀ study ∈ studies, study.Completes store settings) ∧
      parsed = studies.map Study.parsed ∧
      table.Gains (studies.flatMap Study.pairs) (studies.flatMap Study.warnings) after := by
  induction documents generalizing table store parsed with
  | nil =>
    cases h
    exact ⟨rfl, [], rfl, by simp, rfl, .refl hsound⟩
  | cons document rest ih =>
    obtain ⟨first, others, between, middle, hfirst, hothers, rfl⟩ := parseAll_cons_eq_iff.1 h
    obtain ⟨rfl, study, rfl, hcompletes, rfl, hgains⟩ := parseOne_gains hsound hfirst
    obtain ⟨rfl, studies, rfl, hall, rfl, hmore⟩ := ih hgains.sound hothers
    -- what the first document gained is there when the others are read
    refine ⟨rfl, study :: studies, rfl, ?_, rfl, ?_⟩
    · intro other hother
      rcases List.mem_cons.1 hother with rfl | hother
      · exact hcompletes
      · exact hall other hother
    · exact hgains.trans hmore

/-- **Documents that can be completed are all read where none of their ids clash.** -/
theorem exists_parseAll (hsound : table.Sound) {studies : List Study}
    (h : ∀ study ∈ studies, study.Completes store settings)
    (hpairs : table.Consistent (studies.flatMap Study.pairs)) :
    ∃ after, (parseAll settings (studies.map Study.document) table).run store =
        (((studies.map Study.parsed, []), after), store) ∧
      table.Gains (studies.flatMap Study.pairs) (studies.flatMap Study.warnings) after := by
  induction studies generalizing table with
  | nil => exact ⟨table, rfl, .refl hsound⟩
  | cons study rest ih =>
    rw [List.flatMap_cons] at hpairs
    obtain ⟨middle, hfirst, hgains⟩ := exists_parseOne hsound (h study List.mem_cons_self)
      (hpairs.mono (List.subset_append_left _ _))
    obtain ⟨after, hothers, hmore⟩ := ih hgains.sound
      (fun other hother => h other (List.mem_cons_of_mem _ hother)) (hgains.consistent_iff.2 hpairs)
    refine ⟨after, parseAll_cons_eq_iff.2 ?_, hgains.trans hmore⟩
    exact ⟨study.parsed, rest.map Study.parsed, store, middle, hfirst, hothers, rfl⟩

/-! ## The ids of the project itself -/

/-- The id of a document, if it has one, and what it stands for. -/
def ProjectDocument.pair? (document : ProjectDocument) : Option (String × Target) :=
  document.id.map fun id => (id, ⟨document.output, none⟩)

theorem ProjectDocument.pair?_eq_none {document : ProjectDocument} (h : document.id = none) :
    document.pair? = none := by
  rw [ProjectDocument.pair?, h, Option.map_none]

theorem ProjectDocument.pair?_eq_some {document : ProjectDocument} {id : String}
    (h : document.id = some id) : document.pair? = some (id, ⟨document.output, none⟩) := by
  rw [ProjectDocument.pair?, h, Option.map_some]

/-- The documents of a project have nothing but ids. -/
def ValidIds (documents : List ProjectDocument) : Prop :=
  ∀ document ∈ documents, ∀ id, document.id = some id → isId id = true

theorem ValidIds.tail {document : ProjectDocument} {rest : List ProjectDocument}
    (h : ValidIds (document :: rest)) : ValidIds rest :=
  fun other hother => h other (List.mem_cons_of_mem document hother)

theorem registerIds_gains (hsound : table.Sound) {documents : List ProjectDocument}
    (hvalid : ValidIds documents) (h : registerIds documents table = ([], after)) :
    table.Gains (documents.filterMap ProjectDocument.pair?) [] after := by
  induction documents generalizing table with
  | nil =>
    cases h
    exact .refl hsound
  | cons document rest ih =>
    rw [registerIds] at h
    cases hid : document.id with
    | none =>
      -- a document without an id leaves the table as it is
      rw [hid] at h
      rw [List.filterMap_cons_none (ProjectDocument.pair?_eq_none hid)]
      exact ih hsound hvalid.tail h
    | some id =>
      rw [hid] at h
      dsimp only at h
      rw [List.filterMap_cons_some (ProjectDocument.pair?_eq_some hid)]
      cases hregister : table.register id ⟨document.output, none⟩ with
      | error existing =>
        rw [hregister] at h
        cases h
      | ok middle =>
        rw [hregister] at h
        have hgains := Table.register_gains hsound
          (hvalid document List.mem_cons_self id hid) hregister
        exact hgains.trans (ih hgains.sound hvalid.tail h)

theorem exists_registerIds (hsound : table.Sound) {documents : List ProjectDocument}
    (hvalid : ValidIds documents)
    (hpairs : table.Consistent (documents.filterMap ProjectDocument.pair?)) :
    ∃ after, registerIds documents table = ([], after) := by
  induction documents generalizing table with
  | nil => exact ⟨table, rfl⟩
  | cons document rest ih =>
    rw [registerIds]
    cases hid : document.id with
    | none =>
      rw [List.filterMap_cons_none (ProjectDocument.pair?_eq_none hid)] at hpairs
      exact ih hsound hvalid.tail hpairs
    | some id =>
      rw [List.filterMap_cons_some (ProjectDocument.pair?_eq_some hid)] at hpairs
      obtain ⟨middle, hregister⟩ := Table.exists_register
        (hpairs.mono (List.cons_subset_cons _ (List.nil_subset _)))
      have hgains := Table.register_gains hsound
        (hvalid document List.mem_cons_self id hid) hregister
      dsimp only
      rw [hregister]
      exact ih hgains.sound hvalid.tail (hgains.consistent_iff.2 hpairs)

end Bindery
