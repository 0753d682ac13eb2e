import Bindery.Proofs.Compile.Accounting

/-!
# `Proofs.Compile.Outputs` — what is in the store after compiling

A source that was compiled reports its documents, and what was written are their texts, one after the other. Nothing keeps a
project from giving one output twice: both documents are reported then, and the text of the later one stands. Apart from
that every document that is reported is there, and nothing else has changed.

## Contents
- `Outputs`: documents that were written, and the writes; `Outputs.lastWritten?_eq`, `Outputs.lastWritten?_eq_none`.
- `compileProject_outputs`, `compileDocument_outputs`, `compile_outputs`: compiling writes what it reports.
- `twinShelf`, `outputs_overwritten`: a document that is reported and is not there.
- `outputs_hold`: the store after compiling.
-/

namespace Bindery

variable {σ : Type} [Store σ] {store later : σ} {settings : Settings}

/-! ## Documents and their writes -/

/-- Documents that were written, and the writes. Files are stored under the texts of paths: no two destinations have the
same. -/
structure Outputs (documents : List Compiled) (writes : List (String × String)) : Prop where
  exists_path : ∀ document ∈ documents, ∃ path, document.destination = some path
  eq_of_text : ∀ first ∈ documents, ∀ second ∈ documents, ∀ path other,
    first.destination = some path → second.destination = some other → path.text = other.text →
      path = other
  writes_eq : writes = documents.filterMap Compiled.write?

namespace Outputs

variable {documents : List Compiled} {writes : List (String × String)}

/-- What was written last to the destination of a document is its text, unless a later one has that destination, too. -/
theorem lastWritten?_eq (h : Outputs documents writes) {earlier others : List Compiled}
    {document : Compiled} (hsplit : documents = earlier ++ document :: others) {path : DocumentPath}
    (hpath : document.destination = some path)
    (hothers : ∀ other ∈ others, other.destination ≠ some path) :
    lastWritten? path.text writes = some document.text := by
  have hmem : document ∈ documents := by simp [hsplit]
  have hwrite : document.write? = some (path.text, document.text) := by
    rw [Compiled.write?, hpath, Option.map_some]
  have hnone : lastWritten? path.text (others.filterMap Compiled.write?) = none := by
    refine lastWritten?_eq_none fun write hmem' htext => ?_
    obtain ⟨other, hother, hsome⟩ := List.mem_filterMap.1 hmem'
    obtain ⟨path', hpath', rfl⟩ := Option.map_eq_some_iff.1 hsome
    -- the other document would have this destination
    have heq := h.eq_of_text other (by simp [hsplit, hother]) document hmem path' path hpath' hpath htext
    exact hothers other hother (heq ▸ hpath')
  rw [h.writes_eq, hsplit, List.filterMap_append, List.filterMap_cons_some hwrite, lastWritten?_append,
    lastWritten?, hnone, if_pos rfl, Option.none_or, Option.some_or]

/-- Nothing was written to what is no destination. -/
theorem lastWritten?_eq_none (h : Outputs documents writes) {text : String}
    (hnone : ∀ document ∈ documents, ∀ path, document.destination = some path → path.text ≠ text) :
    lastWritten? text writes = none := by
  refine Bindery.lastWritten?_eq_none fun write hmem => ?_
  rw [h.writes_eq] at hmem
  obtain ⟨document, hdocument, hsome⟩ := List.mem_filterMap.1 hmem
  obtain ⟨path, hpath, rfl⟩ := Option.map_eq_some_iff.1 hsome
  exact hnone document hdocument path hpath

end Outputs

/-! ## Compiling writes what it reports -/

theorem compileProject_outputs {path : DocumentPath} {documents : List Compiled}
    (h : (compileProject settings path false).run store = (.ok documents, later)) :
    Outputs documents ((compileProject settings path false).writes store) := by
  rcases compileProject_cases_of_file path store with ⟨text, project, hread, hproject⟩ |
    ⟨failure, -, hfailure⟩
  · obtain ⟨hrun, -, hwrites⟩ := compileProject_of_ofText settings false hread hproject
    rw [h] at hrun
    cases hclashes : clashes project.documents with
    | cons clash others =>
      have hids := eq_mk_of_fst_eq (registerIds_new_fst project.documents)
      rw [hclashes] at hids
      rw [compileDocuments_of_clash settings false hids] at hrun
      cases hrun
    | nil =>
      obtain ⟨hresult, hdocuments⟩ := compileDocuments_fates settings false store hclashes
      rw [← hrun] at hresult
      obtain ⟨-, rfl⟩ := projectResult_eq_ok_iff.1 hresult.symm
      refine ⟨fun document hmem => ?_, fun first hfirst second hsecond p q hp hq htext => ?_, ?_⟩
      · obtain ⟨described, -, -, hdestination⟩ := exists_document_of_mem_successes hmem
        exact ⟨described.output, hdestination⟩
      · obtain ⟨_, hmem, -, hdestination⟩ := exists_document_of_mem_successes hfirst
        obtain ⟨_, hmem', -, hdestination'⟩ := exists_document_of_mem_successes hsecond
        cases hp.symm.trans hdestination
        cases hq.symm.trans hdestination'
        exact DocumentPath.text_injective (Project.canonical_output hproject hmem)
          (Project.canonical_output hproject hmem') htext
      · exact hwrites.trans hdocuments
  · rw [hfailure] at h
    cases h

theorem compileDocument_outputs {source path : DocumentPath} {table : Table} {compiled : Compiled}
    (h : (((compileDocument settings source (some path) false).exec table).run store).1.1 =
      .ok compiled) :
    Outputs [compiled]
      (((compileDocument settings source (some path) false).exec table).writes store) := by
  obtain ⟨events, hdelivers, hevents⟩ :=
    compileDocument_delivers settings source (some path) false table store
  have hreads := (parseSource_readsTo settings source (some path) table).writes_eq_nil store
  rw [h] at hdelivers
  rw [FileM.writes_eq] at hreads
  have hdestination := laidDocument_destination hdelivers.laid_eq_ok
  refine ⟨fun document hmem => ?_, fun first hfirst second hsecond p q hp hq _ => ?_, ?_⟩
  · cases List.mem_singleton.1 hmem
    exact ⟨path, hdestination⟩
  · cases List.mem_singleton.1 hfirst
    cases List.mem_singleton.1 hsecond
    exact Option.some.inj (hp.symm.trans hq)
  · rw [FileM.writes_eq, hevents, List.filterMap_append, hreads, hdelivers.writes_eq]
    simp [Compiled.write?, hdestination, Except.toOption]

/-- **Whatever kind of source is compiled, what is written is what is reported.** -/
theorem compile_outputs {source : DocumentPath} {destination : Option DocumentPath}
    {documents : List Compiled}
    (h : (compile settings source destination false).run store = (.ok documents, later)) :
    Outputs documents ((compile settings source destination false).writes store) := by
  by_cases hkind : source.kind = .project
  · cases destination with
    | some path =>
      obtain ⟨failure, hfailure⟩ := compile_project_some settings path hkind
      rw [hfailure] at h
      cases h
    | none =>
      rw [compile_project_none settings false hkind] at h ⊢
      exact compileProject_outputs h
  · cases destination with
    | none =>
      obtain ⟨failure, hfailure⟩ := compile_document_none settings hkind
      rw [hfailure] at h
      cases h
    | some path =>
      rw [compile_of_document settings hkind (.inl rfl)] at h ⊢
      rw [FileM.run_bind] at h
      obtain ⟨compiled, hcompiled, rfl⟩ := except_map_eq_ok.1 (congrArg Prod.fst h)
      rw [FileM.writes_bind, FileM.writes_pure, List.append_nil]
      exact compileDocument_outputs hcompiled

/-! ## The store afterwards -/

/-- A shelf with a project that gives one output twice, in two spellings. -/
def twinShelf : Shelf where
  files :=
    [("/p.dlproj",
      "(documents (document (source a) (output x)) (document (source b) (output ./x)))"),
     ("/a", "A"), ("/b", "B")]
  readOnly := []

/-- Both documents of the project are reported with one destination, where the text of the first is not found. -/
theorem exists_run_twinShelf : ∃ first second later,
    (compile {} (.resolve "/p.dlproj" "/") none false).run twinShelf = (.ok [first, second], later) ∧
    first.destination = some (.resolve "/x" "/") ∧ second.destination = some (.resolve "/x" "/") ∧
    Store.read later (DocumentPath.resolve "/x" "/").text ≠ .ok first.text := by
  have hfacts : ((compile {} (.resolve "/p.dlproj" "/") none false).run twinShelf).1.toOption.map
        (List.map fun document => (document.destination, decide (
          (Store.read ((compile {} (.resolve "/p.dlproj" "/") none false).run twinShelf).2
            (DocumentPath.resolve "/x" "/").text).toOption = some document.text))) =
      some [(some (.resolve "/x" "/"), false), (some (.resolve "/x" "/"), true)] := by
    decide +kernel
  obtain ⟨documents, hok, hdocuments⟩ := exists_ok_of_map hfacts
  obtain ⟨first, _, rfl, hfirst, hothers⟩ := List.map_eq_cons_iff.1 hdocuments
  obtain ⟨second, rfl, hsecond⟩ := List.map_eq_singleton_iff.1 hothers
  obtain ⟨hpath, hlost⟩ := Prod.mk.inj hfirst
  refine ⟨first, second, _, eq_mk_of_fst_eq hok, hpath, (Prod.mk.inj hsecond).1, fun hread => ?_⟩
  rw [hread] at hlost
  exact absurd rfl (of_decide_eq_false hlost)

/-- **A document can be reported and not be there**: a later one of the same project took its place. -/
theorem outputs_overwritten : ∃ documents later, ∃ document ∈ documents, ∃ path,
    (compile {} (.resolve "/p.dlproj" "/") none false).run twinShelf = (.ok documents, later) ∧
    document.destination = some path ∧ Store.read later path.text ≠ .ok document.text := by
  obtain ⟨first, second, later, hrun, hfirst, -, hlost⟩ := exists_run_twinShelf
  exact ⟨[first, second], later, first, List.mem_cons_self, _, hrun, hfirst, hlost⟩

/-- **What is in the store after a source was compiled.** Every document that is reported has a destination. It is there
unless a later one has the same destination, so that of the documents with one destination the last is there. Where no
document goes, nothing has changed.

This is about stores that keep files by the texts of their paths, as a shelf does. A disk is none of them: there two paths
can lead to one file, as `/x.md` and `/../x.md` do. -/
theorem outputs_hold [LawfulStore σ] {source : DocumentPath} {destination : Option DocumentPath}
    {documents : List Compiled}
    (h : (compile settings source destination false).run store = (.ok documents, later)) :
    (∀ document ∈ documents, ∃ path, document.destination = some path) ∧
    (∀ earlier document others path, documents = earlier ++ document :: others →
      document.destination = some path → (∀ other ∈ others, other.destination ≠ some path) →
        Store.read later path.text = .ok document.text) ∧
    ∀ text, (∀ document ∈ documents, ∀ path, document.destination = some path → path.text ≠ text) →
      Store.read later text = Store.read store text := by
  have houtputs := compile_outputs h
  have hread (text : String) := FileM.read_run (compile settings source destination false) store text
  rw [h] at hread
  refine ⟨houtputs.exists_path, fun earlier document others path hsplit hpath hothers => ?_,
    fun text hnone => ?_⟩
  · rw [hread, houtputs.lastWritten?_eq hsplit hpath hothers]
  · rw [hread, houtputs.lastWritten?_eq_none hnone]

/-- Of two documents with one destination the second is there, and their sources are as they were. -/
theorem outputs_hold_twinShelf : ∃ first second later,
    (compile {} (.resolve "/p.dlproj" "/") none false).run twinShelf = (.ok [first, second], later) ∧
    first.destination = second.destination ∧
    Store.read later (DocumentPath.resolve "/x" "/").text = .ok second.text ∧
    Store.read later "/a" = Store.read twinShelf "/a" := by
  obtain ⟨first, second, later, hrun, hfirst, hsecond, -⟩ := exists_run_twinShelf
  obtain ⟨-, hthere, hsame⟩ := outputs_hold hrun
  refine ⟨first, second, later, hrun, hfirst.trans hsecond.symm,
    hthere [first] second [] _ rfl hsecond nofun, hsame "/a" fun document hmem path hpath => ?_⟩
  have hx : path = .resolve "/x" "/" := by
    rcases List.mem_cons.1 hmem with rfl | hmem
    · exact Option.some.inj (hpath.symm.trans hfirst)
    · cases List.mem_singleton.1 hmem
      exact Option.some.inj (hpath.symm.trans hsecond)
  rw [hx]
  decide +kernel

end Bindery
