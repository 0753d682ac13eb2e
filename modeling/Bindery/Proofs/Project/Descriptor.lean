import Bindery.Project
import Bindery.Proofs.Compile.Parsing
import Bindery.Proofs.Path.Canonical

/-!
# `Proofs.Project.Descriptor` — project files are no documents

A project file and a document are split into items in the same way, but no items follow both grammars: a project file
has one list of documents, and a document has none. So a file that describes a project cannot be included anywhere, and
another one in its place makes no difference to any document.

## Contents
- `Project.ofText_eq_ok`: what a project file that can be read consists of; `Project.ofText_ne_project`: how another fails.
- `Project.validIds`, `Project.canonical_output`: its ids are ids, and its outputs are simplified paths.
- `Project.not_reads`: it cannot be read as a document.
- `Unfolds.of_reads`: an unfolding in one store is one in every store where its documents say the same.
-/

namespace Bindery

open Source

variable {σ : Type} [Store σ] {store : σ}

/-! ## What a project file consists of -/

theorem Project.ofText_eq_ok {path : DocumentPath} {text : String} {project : Project}
    (h : Project.ofText path text = .ok project) :
    ∃ items, documentItems ⟨path.text, 1, 1⟩ text = .ok items ∧
      Grammar.project.check (Coordinate.start ⟨path.text, 1, 1⟩) items = .ok () ∧
      readDocuments path ((Item.forms items).flatMap (·.childrenNamed "document")) =
        .ok project.documents := by
  unfold Project.ofText at h
  obtain ⟨document, hdocument, h⟩ := except_bind_eq_ok.1 h
  obtain ⟨parts, hparts, h⟩ := except_bind_eq_ok.1 h
  obtain ⟨tokens, htokens, h⟩ := except_bind_eq_ok.1 h
  obtain ⟨items, hitems, h⟩ := except_bind_eq_ok.1 h
  obtain rfl : document = ⟨path.text, 1, 1⟩ := Except.ok.inj hdocument.symm
  rw [except_mapError_eq_ok] at htokens hitems
  have hread : documentItems ⟨path.text, 1, 1⟩ text = .ok items := by
    rw [Source.split, if_neg (by simp), except_mapError_eq_ok] at hparts
    unfold documentItems documentTokens
    rw [hparts]
    show (tokenize parts).bind Item.ofTokens = _
    rw [htokens]
    exact hitems
  split at h
  · cases h
  · obtain ⟨_, hcheck, h⟩ := except_bind_eq_ok.1 h
    obtain ⟨documents, hdocuments, h⟩ := except_bind_eq_ok.1 h
    rw [except_mapError_eq_ok] at hcheck hdocuments
    cases h
    exact ⟨items, hread, hcheck, hdocuments⟩

theorem mapError_toFailure_ne_project {x : Except Fault α} {outputs : List Output}
    {failures : List Failure} :
    x.mapError Fault.toFailure ≠ .error (.project outputs failures) := by
  cases x <;> nofun

/-- A project file that cannot be read fails as a file, not as a project. -/
theorem Project.ofText_ne_project (path : DocumentPath) (text : String) {outputs : List Output}
    {failures : List Failure} : Project.ofText path text ≠ .error (.project outputs failures) := by
  intro h
  unfold Project.ofText at h
  rcases except_bind_eq_error.1 h with hmake | ⟨document, -, h⟩
  · exact nomatch hmake
  rcases except_bind_eq_error.1 h with hsplit | ⟨parts, -, h⟩
  · unfold Source.split at hsplit
    split at hsplit
    · exact nomatch hsplit
    · exact mapError_toFailure_ne_project hsplit
  rcases except_bind_eq_error.1 h with htokens | ⟨tokens, -, h⟩
  · exact mapError_toFailure_ne_project htokens
  rcases except_bind_eq_error.1 h with hitems | ⟨items, -, h⟩
  · exact mapError_toFailure_ne_project hitems
  split at h
  · exact nomatch h
  rcases except_bind_eq_error.1 h with hcheck | ⟨_, -, h⟩
  · exact mapError_toFailure_ne_project hcheck
  rcases except_bind_eq_error.1 h with hdocuments | ⟨documents, -, h⟩
  · exact mapError_toFailure_ne_project hdocuments
  · exact nomatch h

/-- Each document of a project was read from a form. -/
theorem Project.exists_readDocument {path : DocumentPath} {text : String} {project : Project}
    (h : Project.ofText path text = .ok project) {document : ProjectDocument}
    (hmem : document ∈ project.documents) : ∃ form, readDocument path form = .ok document := by
  obtain ⟨items, -, -, hdocuments⟩ := Project.ofText_eq_ok h
  generalize (Item.forms items).flatMap (·.childrenNamed "document") = forms at hdocuments
  generalize project.documents = documents at hdocuments hmem
  induction forms generalizing documents with
  | nil =>
    cases hdocuments
    cases hmem
  | cons form rest ih =>
    obtain ⟨first, hfirst, hdocuments⟩ := except_bind_eq_ok.1 hdocuments
    obtain ⟨others, hothers, hdocuments⟩ := except_bind_eq_ok.1 hdocuments
    cases hdocuments
    rcases List.mem_cons.1 hmem with rfl | hmem
    · exact ⟨form, hfirst⟩
    · exact ih others hothers hmem

theorem Project.validIds {path : DocumentPath} {text : String} {project : Project}
    (h : Project.ofText path text = .ok project) : ValidIds project.documents := by
  intro document hmem id hid
  obtain ⟨form, hform⟩ := Project.exists_readDocument h hmem
  obtain ⟨found, hfound, rfl⟩ := except_map_eq_ok.1 hform
  unfold readDocumentId at hfound
  split at hfound
  · cases hfound
    cases hid
  · obtain ⟨given, hgiven, rfl⟩ := except_map_eq_ok.1 hfound
    cases hid
    exact isId_of_readId hgiven

theorem Project.canonical_output {path : DocumentPath} {text : String} {project : Project}
    (h : Project.ofText path text = .ok project) {document : ProjectDocument}
    (hmem : document ∈ project.documents) : Path.Canonical document.output.parts := by
  obtain ⟨form, hform⟩ := Project.exists_readDocument h hmem
  obtain ⟨_, -, rfl⟩ := except_map_eq_ok.1 hform
  exact DocumentPath.canonical_resolve _ _

/-! ## It is no document -/

/-- Every form that was checked is governed by some rule. -/
theorem governing?_isSome_of_checkForms {parent : String} {location : Location}
    {rules : List (Rule × Occurrence)} {used : List Nat} {forms : List Form}
    (h : checkForms parent location rules used forms = .ok ()) {form : Form} (hform : form ∈ forms) :
    (governing? rules form.atom).isSome = true := by
  obtain ⟨_, _, _, hgoverned, -⟩ := (checkForms_eq_ok_iff_fitsAfter.1 h).governed form hform
  rw [hgoverned]
  rfl

/-- The forms of a project and of a document have no atoms in common. -/
theorem governing?_document_of_project {atom : String}
    (h : (governing? Grammar.project.root atom).isSome = true) :
    governing? Grammar.document.root atom = none := by
  by_cases hatom : "documents" = atom
  · subst hatom
    rfl
  · have hother : ("documents" == atom) = false := beq_false_of_ne hatom
    have hnone : governing? Grammar.project.root atom = none := by
      simp only [governing?, Grammar.project, Grammar.listedDocuments, List.zipIdx_cons, List.zipIdx_nil,
        List.find?_cons, List.find?_nil, Rule.exactly, Matcher.accepts, hother]
    rw [hnone] at h
    cases h

/-- A project has a form. -/
theorem exists_form_of_check_project {start : Location} {items : List Item}
    (h : Grammar.project.check start items = .ok ()) : ∃ form, form ∈ Item.forms items ∧
      (governing? Grammar.project.root form.atom).isSome = true := by
  rw [Grammar.check_eq] at h
  obtain ⟨_, -, h⟩ := except_bind_eq_ok.1 h
  cases hforms : Item.forms items with
  | nil =>
    rw [hforms] at h
    cases h
  | cons form rest =>
    rw [hforms] at h
    exact ⟨form, List.mem_cons_self, governing?_isSome_of_checkForms h List.mem_cons_self⟩

/-- **A file that describes a project cannot be read as a document.** -/
theorem Project.not_reads {path : DocumentPath} {text : String} {project : Project}
    (h : Project.ofText path text = .ok project)
    (htext : Store.read store path.text = .ok text) {document : Coordinate}
    (hpath : document.path = path.text) {page : Option Page} {notes : List Note} :
    ¬Reads store document page notes := by
  rintro ⟨text', htext', hread⟩
  rw [hpath] at htext'
  cases htext.symm.trans htext'
  obtain ⟨items, hitems, hcheck, -⟩ := Project.ofText_eq_ok h
  obtain ⟨form, hform, hgoverned⟩ := exists_form_of_check_project hcheck
  -- the document would have the same forms, and one of them is none of a document's
  unfold Page.reading at hread
  rw [documentItems_displace ⟨path.text, 1, 1⟩ document hpath, hitems] at hread
  obtain ⟨moved, hmoved, hread⟩ := except_bind_eq_ok.1 hread
  cases hmoved
  obtain ⟨_, hdocument, -⟩ := except_bind_eq_ok.1 hread
  rw [Grammar.check_eq] at hdocument
  obtain ⟨_, -, hforms⟩ := except_bind_eq_ok.1 hdocument
  rw [Item.forms_displace] at hforms
  have hfound := governing?_isSome_of_checkForms hforms (List.mem_map_of_mem hform)
  rw [Form.atom_displace, governing?_document_of_project hgoverned] at hfound
  cases hfound

/-! ## Another one in its place -/

/-- An unfolding in one store is one in every store where all documents that can be read say the same. -/
theorem Unfolds.of_reads {other : σ}
    (hreads : ∀ document page notes, Reads store document page notes →
      Reads other document page notes)
    {document : Coordinate} {tree : Option Section} {notes : List Note}
    (h : Unfolds store document tree notes) : Unfolds other document tree notes := by
  induction h with
  | nothing hread => exact .nothing (hreads _ _ _ hread)
  | page hread hentries _ ih => exact .page (hreads _ _ _ hread) hentries ih

/-- A document says the same whatever project is described at some other path. -/
theorem Project.reads_of_agree {other : σ} {path : DocumentPath} {text : String} {project : Project}
    (h : Project.ofText path text = .ok project) (htext : Store.read store path.text = .ok text)
    (hagree : ∀ p, p ≠ path.text → Store.read store p = Store.read other p)
    {document : Coordinate} {page : Option Page} {notes : List Note}
    (hread : Reads store document page notes) : Reads other document page notes := by
  by_cases hpath : document.path = path.text
  · exact absurd hread (Project.not_reads h htext hpath)
  · obtain ⟨found, hfound, hread⟩ := hread
    exact ⟨found, (hagree _ hpath).symm.trans hfound, hread⟩

end Bindery
