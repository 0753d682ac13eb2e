import Bindery.Proofs.Compile.Stages
import Bindery.Proofs.Compile.Writing
import Bindery.Storage.Shelf

/-!
# `Proofs.Compile.Order` — the order of a project's documents does not matter

A project comes through exactly if each of its documents can be completed, no two of all its ids clash, and each document
can be laid out with all these ids and written. None of this speaks of an order. What becomes of a document depends on
its source and its output alone, once it is settled which ids there are.

## Contents
- `ProjectDocument.key`: what a project says of a document, apart from where it says so.
- `Study.allPairs_subset`: projects that list the same documents have the same ids.
- `compileProject_of_perm`: projects that list the same documents come to the same outputs.
-/

namespace Bindery

variable {σ : Type} [Store σ] {store later : σ} {settings : Settings} {test : Bool}

/-! ## What a project says of a document -/

/-- What a project says of a document: its source, its output and its id. -/
def ProjectDocument.key (document : ProjectDocument) :
    DocumentPath × DocumentPath × Option String :=
  (document.source, document.output, document.id)

theorem ProjectDocument.pair?_of_key {document other : ProjectDocument}
    (h : document.key = other.key) : document.pair? = other.pair? := by
  have houtput : document.output = other.output := congrArg (·.2.1) h
  have hid : document.id = other.id := congrArg (·.2.2) h
  rw [ProjectDocument.pair?, ProjectDocument.pair?, houtput, hid]

namespace Study

/-- What a project says of the document of a study. -/
def key (study : Study) : DocumentPath × DocumentPath × Option String := study.document.key

/-- A document makes one tree and notes one thing, whatever else a project says of it. -/
theorem Completes.unique {study other : Study} (h : study.Completes store settings)
    (hother : other.Completes store settings) (hkey : study.key = other.key) :
    study.tree = other.tree ∧ study.notes = other.notes := by
  have hsource : study.document.source = other.document.source := congrArg (·.1) hkey
  have hunfolds := h.unfolds
  rw [hsource] at hunfolds
  exact hunfolds.unique hother.unfolds

theorem Completes.pairs_eq {study other : Study} (h : study.Completes store settings)
    (hother : other.Completes store settings) (hkey : study.key = other.key) :
    study.pairs = other.pairs := by
  have hsource : study.document.source = other.document.source := congrArg (·.1) hkey
  have houtput : study.document.output = other.document.output := congrArg (·.2.1) hkey
  rw [Study.pairs, Study.pairs, hsource, houtput, (h.unique hother hkey).2]

/-- All ids of a project: those that it gives to its documents, and those that these declare. -/
def allPairs (studies : List Study) : List (String × Target) :=
  (studies.map Study.document).filterMap ProjectDocument.pair? ++ studies.flatMap Study.pairs

/-- **Projects that list the same documents have the same ids.** -/
theorem allPairs_subset {studies others : List Study}
    (h : ∀ study ∈ studies, study.Completes store settings)
    (hothers : ∀ study ∈ others, study.Completes store settings)
    (hkeys : studies.map key ⊆ others.map key) : allPairs studies ⊆ allPairs others := by
  intro pair hpair
  rcases List.mem_append.1 hpair with hpair | hpair
  · obtain ⟨document, hdocument, heq⟩ := List.mem_filterMap.1 hpair
    obtain ⟨study, hstudy, rfl⟩ := List.mem_map.1 hdocument
    obtain ⟨other, hother, hkey⟩ := List.mem_map.1 (hkeys (List.mem_map_of_mem hstudy))
    refine List.mem_append_left _ (List.mem_filterMap.2 ?_)
    exact ⟨other.document, List.mem_map_of_mem hother,
      (ProjectDocument.pair?_of_key hkey).trans heq⟩
  · obtain ⟨study, hstudy, hpair⟩ := List.mem_flatMap.1 hpair
    obtain ⟨other, hother, hkey⟩ := List.mem_map.1 (hkeys (List.mem_map_of_mem hstudy))
    refine List.mem_append_right _ (List.mem_flatMap.2 ⟨other, hother, ?_⟩)
    rwa [(hothers other hother).pairs_eq (h study hstudy) hkey]

/-- Documents each of which can be completed have studies. -/
theorem exists_of_documents {documents : List ProjectDocument}
    (h : ∀ document ∈ documents, ∃ tree notes, Completes store settings ⟨document, tree, notes⟩) :
    ∃ studies : List Study, studies.map Study.document = documents ∧
      ∀ study ∈ studies, study.Completes store settings := by
  induction documents with
  | nil => exact ⟨[], rfl, by simp⟩
  | cons document rest ih =>
    obtain ⟨tree, notes, hfirst⟩ := h document List.mem_cons_self
    obtain ⟨studies, rfl, hstudies⟩ := ih fun other hother => h other (List.mem_cons_of_mem _ hother)
    refine ⟨⟨document, tree, notes⟩ :: studies, rfl, fun study hstudy => ?_⟩
    rcases List.mem_cons.1 hstudy with rfl | hstudy
    · exact hfirst
    · exact hstudies study hstudy

/-- A document can be completed if one of which a project says the same can. -/
theorem exists_of_keys {studies : List Study} {documents : List ProjectDocument}
    (h : ∀ study ∈ studies, study.Completes store settings)
    (hkeys : documents.map ProjectDocument.key ⊆ studies.map key) :
    ∃ others : List Study, others.map Study.document = documents ∧
      ∀ study ∈ others, study.Completes store settings := by
  refine exists_of_documents fun document hdocument => ?_
  obtain ⟨study, hstudy, hkey⟩ := List.mem_map.1 (hkeys (List.mem_map_of_mem hdocument))
  have hsource : study.document.source = document.source := congrArg (·.1) hkey
  obtain ⟨hunfolds, hadmits⟩ := h study hstudy
  rw [hsource] at hunfolds hadmits
  exact ⟨study.tree, study.notes, hunfolds, hadmits⟩

theorem map_key_eq {studies : List Study} {documents : List ProjectDocument}
    (h : studies.map Study.document = documents) :
    studies.map key = documents.map ProjectDocument.key := by
  rw [← h, List.map_map]
  rfl

end Study

/-! ## What becomes of a document -/

/-- What the unfolding of each source is, if there is one. -/
theorem exists_unfolding (store : σ) :
    ∃ found : DocumentPath → Option Section × List Note, ∀ path tree notes,
      Unfolds store ⟨path.text, 1, 1⟩ tree notes → found path = (tree, notes) := by
  have : Nonempty (Option Section × List Note) := ⟨(none, [])⟩
  refine ⟨fun path => Classical.epsilon fun found => Unfolds store ⟨path.text, 1, 1⟩ found.1 found.2,
    fun path tree notes h => ?_⟩
  have hfound := Classical.epsilon_spec
    (p := fun found : Option Section × List Note =>
      Unfolds store ⟨path.text, 1, 1⟩ found.1 found.2) ⟨(tree, notes), h⟩
  obtain ⟨htree, hnotes⟩ := hfound.unique h
  exact Prod.ext htree hnotes

/-- What becomes of a document, with what a table knows, depends on what its project says of it. -/
theorem exists_outcome (store : σ) (settings : Settings) (table : Table) :
    ∃ outcome : DocumentPath × DocumentPath × Option String → Except Fault Compiled,
      ∀ study : Study, study.Completes store settings →
        study.parsed.laidOut table = outcome study.key := by
  obtain ⟨found, hfound⟩ := exists_unfolding store
  refine ⟨fun key => laidOutAs table key.1 key.2.1 (found key.1).1
    (Note.warningsAll (found key.1).2), fun study hstudy => ?_⟩
  have hpair := hfound _ _ _ hstudy.unfolds
  show laidOutAs _ _ _ _ _ = laidOutAs table study.document.source study.document.output
    (found study.document.source).1 (Note.warningsAll (found study.document.source).2)
  rw [hpair]
  rfl

/-- Results that are all there are the values of a function. -/
theorem exists_of_map_eq_map_ok {f : α → Except ε β} {xs : List α} {ys : List β} (default : β)
    (h : xs.map f = ys.map .ok) : ∃ g : α → β, ys = xs.map g ∧ ∀ x ∈ xs, f x = .ok (g x) := by
  refine ⟨fun x => (f x).toOption.getD default, ?_, fun x hx => ?_⟩
  · have hvalues := congrArg (List.map fun result => result.toOption.getD default) h
    simpa [List.map_map, Function.comp_def, Except.toOption] using hvalues.symm
  · obtain ⟨y, -, hy⟩ := List.mem_map.1 (h ▸ List.mem_map_of_mem hx)
    show f x = .ok ((f x).toOption.getD default)
    rw [← hy]
    rfl

/-! ## Projects as a whole -/

/-- What a project that came through consists of. -/
theorem compileDocuments_studies {documents : List ProjectDocument} (hvalid : ValidIds documents)
    {compiled : List Compiled}
    (h : (compileDocuments settings test documents).run store = (.ok compiled, later)) :
    ∃ (studies : List Study) (table : Table), studies.map Study.document = documents ∧
      (∀ study ∈ studies, study.Completes store settings) ∧
      Table.new.Gains (Study.allPairs studies) (studies.flatMap Study.warnings) table ∧
      studies.map (fun study => study.parsed.laidOut table) = compiled.map .ok ∧
      (test = false → ∀ study ∈ studies, ∃ (before : σ) (text : String),
        WrittenFrom store before ∧
          (Store.write before study.document.output.text text).isOk = true) := by
  obtain ⟨registered, parsed, table, between, hids, hparse, hwrite⟩ := compileDocuments_eq_iff.1 h
  have hregistered := registerIds_gains Table.sound_new hvalid hids
  obtain ⟨rfl, studies, rfl, hstudies, rfl, hgains⟩ := parseAll_gains hregistered.sound hparse
  obtain ⟨hlaid, hwrites⟩ := laidOut_of_writeAll hwrite
  rw [List.map_map] at hlaid
  refine ⟨studies, table, rfl, hstudies, hregistered.trans hgains, hlaid, ?_⟩
  intro htest study hstudy
  exact hwrites htest study.parsed (List.mem_map_of_mem hstudy)

/-- A project comes through if its documents can be completed, its ids do not clash, and its documents can be laid out and
written. -/
theorem exists_compileDocuments {studies : List Study}
    (hvalid : ValidIds (studies.map Study.document))
    (hstudies : ∀ study ∈ studies, study.Completes store settings)
    (hpairs : Table.new.Consistent (Study.allPairs studies)) :
    ∃ table, Table.new.Gains (Study.allPairs studies) (studies.flatMap Study.warnings) table ∧
      ∀ compiled : List Compiled,
        studies.map (fun study => study.parsed.laidOut table) = compiled.map .ok →
        (test = false → ∀ study ∈ studies, ∀ (before : σ) (text : String),
          WrittenFrom store before →
            (Store.write before study.document.output.text text).isOk = true) →
        ∃ later, (compileDocuments settings test (studies.map Study.document)).run store =
          (.ok compiled, later) := by
  obtain ⟨registered, hids⟩ := exists_registerIds Table.sound_new hvalid
    (hpairs.mono (List.subset_append_left _ _))
  have hregistered := registerIds_gains Table.sound_new hvalid hids
  obtain ⟨table, hparse, hgains⟩ := exists_parseAll hregistered.sound hstudies
    (hregistered.consistent_iff.2 hpairs)
  refine ⟨table, hregistered.trans hgains, fun compiled hlaid hwrites => ?_⟩
  have hwritable : test = false → ∀ p ∈ studies.map Study.parsed, ∀ (before : σ) (text : String),
      WrittenFrom store before →
        (Store.write before p.document.output.text text).isOk = true := by
    intro htest p hp
    obtain ⟨study, hstudy, rfl⟩ := List.mem_map.1 hp
    exact hwrites htest study hstudy
  obtain ⟨last, hwrite⟩ := exists_writeAll ((List.map_map).trans hlaid) hwritable
  exact ⟨last, compileDocuments_eq_iff.2
    ⟨registered, studies.map Study.parsed, table, store, hids, hparse, hwrite⟩⟩

/-- Two tables that gained the same ids know the same ids. -/
theorem id?_eq_of_gains {table other : Table} {pairs pairs' : List (String × Target)}
    {given given' : List Warning} (h : Table.new.Gains pairs given table)
    (hother : Table.new.Gains pairs' given' other) (hsub : pairs ⊆ pairs') (hsub' : pairs' ⊆ pairs)
    (id : String) : table.id? id = other.id? id := by
  refine Option.ext fun target => ?_
  rw [h.ids, hother.ids, Table.id?_new]
  exact or_congr_right ⟨fun hmem => hsub hmem, fun hmem => hsub' hmem⟩

theorem Study.Completes.of_reads {other : σ}
    (hreads : ∀ document page notes, Reads store document page notes →
      Reads other document page notes) {study : Study} (h : study.Completes store settings) :
    study.Completes other settings :=
  ⟨h.unfolds.of_reads hreads, h.admits⟩

/-- Lists that say the same of their documents come to the same outputs, document by document. -/
theorem compileDocuments_of_perm {other : σ} {documents documents' : List ProjectDocument}
    {compiled : List Compiled} (hvalid : ValidIds documents) (hvalid' : ValidIds documents')
    (hperm : (documents.map ProjectDocument.key).Perm (documents'.map ProjectDocument.key))
    (hreads : ∀ document page notes, Reads store document page notes →
      Reads other document page notes)
    (hwritable : ∀ before before', WrittenFrom store before → WrittenFrom other before' →
      ∀ p t t', (Store.write before p t).isOk = (Store.write before' p t').isOk)
    (h : (compileDocuments settings test documents).run store = (.ok compiled, later)) :
    ∃ (outcome : DocumentPath × DocumentPath × Option String → Compiled) (later' : σ),
      compiled = (documents.map ProjectDocument.key).map outcome ∧
      (compileDocuments settings test documents').run other =
        (.ok ((documents'.map ProjectDocument.key).map outcome), later') := by
  obtain ⟨studies, table, rfl, hstudies, hgains, hlaid, hwrites⟩ :=
    compileDocuments_studies hvalid h
  -- the documents of the second list are completed like those of the first
  obtain ⟨others, rfl, hothers⟩ : ∃ others : List Study, others.map Study.document = documents' ∧
      ∀ study ∈ others, study.Completes store settings := by
    refine Study.exists_of_keys hstudies ?_
    rw [Study.map_key_eq rfl]
    exact hperm.symm.subset
  rw [← Study.map_key_eq rfl, ← Study.map_key_eq rfl] at hperm ⊢
  have hpairs : Study.allPairs studies ⊆ Study.allPairs others :=
    Study.allPairs_subset hstudies hothers hperm.subset
  have hpairs' : Study.allPairs others ⊆ Study.allPairs studies :=
    Study.allPairs_subset hothers hstudies hperm.symm.subset
  obtain ⟨table', hgains', hcompile⟩ := exists_compileDocuments hvalid'
    (fun study hstudy => (hothers study hstudy).of_reads hreads)
    (hgains.consistent.mono hpairs')
  have hids : ∀ id, table'.id? id = table.id? id := id?_eq_of_gains hgains' hgains hpairs' hpairs
  -- what becomes of a document is the same with either table
  obtain ⟨result, hresult⟩ := exists_outcome store settings table
  have hvalues : (studies.map Study.key).map result = compiled.map .ok := by
    rw [← hlaid, List.map_map]
    exact List.map_congr_left fun study hstudy => (hresult study (hstudies study hstudy)).symm
  obtain ⟨outcome, hcompiled, houtcome⟩ :=
    exists_of_map_eq_map_ok (Compiled.mk ⟨[]⟩ none "" []) hvalues
  have hlaid' : others.map (fun study => study.parsed.laidOut table') =
      ((others.map Study.key).map outcome).map .ok := by
    rw [List.map_map, List.map_map]
    refine List.map_congr_left fun study hstudy => ?_
    show laidOutAs _ _ _ _ _ = Except.ok (outcome study.key)
    rw [laidOutAs_congr hids]
    exact (hresult study (hothers study hstudy)).trans
      (houtcome study.key (hperm.symm.subset (List.mem_map_of_mem hstudy)))
  obtain ⟨later', hlater⟩ := hcompile _ hlaid' fun htest study hstudy before t hbefore => by
    obtain ⟨first, hfirst, hkey⟩ :=
      List.mem_map.1 (hperm.symm.subset (List.mem_map_of_mem hstudy))
    obtain ⟨before', t', hbefore', hok⟩ := hwrites htest first hfirst
    have houtput : first.document.output = study.document.output := congrArg (·.2.1) hkey
    rw [houtput] at hok
    rw [← hwritable before' before hbefore' hbefore _ t' t]
    exact hok
  exact ⟨outcome, later', hcompiled, hlater⟩

/-- **Projects that list the same documents come to the same outputs**, each with the same text and warnings. The two
stores differ in the project file only, and whether a file can be written depends on its path. -/
theorem compileProject_of_perm {other : σ} {path : DocumentPath} {text text' : String}
    {project project' : Project} {compiled : List Compiled}
    (htext : Store.read store path.text = .ok text)
    (htext' : Store.read other path.text = .ok text')
    (hproject : Project.ofText path text = .ok project)
    (hproject' : Project.ofText path text' = .ok project')
    (hperm : (project.documents.map ProjectDocument.key).Perm
      (project'.documents.map ProjectDocument.key))
    (hagree : ∀ p, p ≠ path.text → Store.read store p = Store.read other p)
    (hwritable : ∀ before before', WrittenFrom store before → WrittenFrom other before' →
      ∀ p t t', (Store.write before p t).isOk = (Store.write before' p t').isOk)
    (h : (compileProject settings path test).run store = (.ok compiled, later)) :
    ∃ compiled' later', (compileProject settings path test).run other = (.ok compiled', later') ∧
      compiled.Perm compiled' ∧
      ∃ outcome : DocumentPath × DocumentPath × Option String → Compiled,
        compiled = project.documents.map (fun document => outcome document.key) ∧
        compiled' = project'.documents.map (fun document => outcome document.key) := by
  obtain ⟨_, _, htext₂, hproject₂, h⟩ := compileProject_eq_iff.1 h
  cases htext.symm.trans htext₂
  cases hproject.symm.trans hproject₂
  obtain ⟨outcome, later', rfl, hlater⟩ := compileDocuments_of_perm (Project.validIds hproject)
    (Project.validIds hproject') hperm
    (fun _ _ _ hread => Project.reads_of_agree hproject htext hagree hread) hwritable h
  refine ⟨_, later', compileProject_eq_iff.2 ⟨text', project', htext', hproject', hlater⟩, ?_⟩
  refine ⟨hperm.map outcome, outcome, ?_, ?_⟩
  · rw [List.map_map]
    rfl
  · rw [List.map_map]
    rfl

/-- A shelf with a project file and two documents, the first of which has a link to the second. -/
def linkedShelf (listing : String) : Shelf where
  files := [("/p.dlproj", listing), ("/a", "<!--(dl (get-path b))-->"), ("/b", "B")]
  readOnly := []

/-- The two documents in the order of their names. -/
def forwardListing : String :=
  "(documents (document (source a) (output c)) (document (source b) (output d) (id b)))"

/-- The two documents the other way round. -/
def backwardListing : String :=
  "(documents (document (source b) (output d) (id b)) (document (source a) (output c)))"

/-- The two documents, listed at the given columns. -/
def linkedProject (linking linked : Nat) : List ProjectDocument :=
  [⟨.resolve "/a" "/", .resolve "/c" "/", none, ⟨⟨"/p.dlproj", 1, 1⟩, ⟨1, linking⟩⟩⟩,
   ⟨.resolve "/b" "/", .resolve "/d" "/", some "b", ⟨⟨"/p.dlproj", 1, 1⟩, ⟨1, linked⟩⟩⟩]

/-- What a shelf refuses to write stays the same when it is written to. -/
theorem readOnly_of_writtenFrom {shelf after : Shelf} (h : WrittenFrom shelf after) :
    after.readOnly = shelf.readOnly := by
  induction h with
  | unchanged => rfl
  | @write before after path text _ hwrite ih =>
    have hput : (if before.readOnly.contains path then _ else .ok (before.put path text)) =
        Except.ok after := hwrite
    split at hput
    · cases hput
    · cases hput
      exact ih

theorem write_isOk_of_writtenFrom {listing listing' : String} {before before' : Shelf}
    (h : WrittenFrom (linkedShelf listing) before) (h' : WrittenFrom (linkedShelf listing') before')
    (p t t' : String) : (Store.write before p t).isOk = (Store.write before' p t').isOk := by
  have hwrite (shelf : Shelf) (t : String) (hnone : shelf.readOnly = []) :
      (Store.write shelf p t).isOk = true := by
    show (if shelf.readOnly.contains p then _ else _ : Except SaveRefusal Shelf).isOk = true
    rw [hnone]
    rfl
  rw [hwrite before t (readOnly_of_writtenFrom h), hwrite before' t' (readOnly_of_writtenFrom h')]

theorem read_linkedShelf {listing listing' p : String} (hp : p ≠ "/p.dlproj") :
    Store.read (linkedShelf listing) p = Store.read (linkedShelf listing') p := by
  have hget (listing : String) : (linkedShelf listing).get? p =
      Shelf.get? ⟨(linkedShelf listing).files.tail, []⟩ p := by
    simp [Shelf.get?, Shelf.textAt?, linkedShelf, Ne.symm hp]
  have hsame : (linkedShelf listing).get? p = (linkedShelf listing').get? p := by
    rw [hget, hget]
    rfl
  simp only [Store.read, hsame]

/-- Two documents that are listed the other way round come to the same outputs, though one has a link to the other. -/
theorem compileProject_linkedShelf : ∃ compiled compiled' later later',
    (compileProject {} (.resolve "/p.dlproj" "/") false).run (linkedShelf forwardListing) =
      (.ok compiled, later) ∧
    compiled.map (·.source.text) = ["/a", "/b"] ∧
    (compileProject {} (.resolve "/p.dlproj" "/") false).run (linkedShelf backwardListing) =
      (.ok compiled', later') ∧
    compiled.Perm compiled' := by
  have hpath : (DocumentPath.resolve "/p.dlproj" "/").text = "/p.dlproj" := by decide +kernel
  have hread (listing : String) :
      Store.read (linkedShelf listing) (DocumentPath.resolve "/p.dlproj" "/").text =
        .ok listing := by
    rw [hpath]
    rfl
  have hforward : Project.ofText (.resolve "/p.dlproj" "/") forwardListing =
      .ok ⟨.resolve "/p.dlproj" "/", linkedProject 12 45⟩ :=
    ok_of_toOption (by decide +kernel)
  have hbackward : Project.ofText (.resolve "/p.dlproj" "/") backwardListing =
      .ok ⟨.resolve "/p.dlproj" "/", (linkedProject 52 12).reverse⟩ :=
    ok_of_toOption (by decide +kernel)
  have hfound : ((compileDocuments {} false (linkedProject 12 45)).run
      (linkedShelf forwardListing)).1.toOption.map (List.map (·.source.text)) =
        some ["/a", "/b"] := by
    decide +kernel
  generalize hrun : (compileDocuments {} false (linkedProject 12 45)).run
    (linkedShelf forwardListing) = run at hfound
  obtain ⟨result, later⟩ := run
  obtain ⟨compiled, rfl, hsources⟩ := exists_ok_of_map hfound
  have hcompiled := compileProject_eq_iff.2 ⟨_, _, hread _, hforward, hrun⟩
  obtain ⟨compiled', later', hcompiled', hperm, -⟩ := compileProject_of_perm (hread _) (hread _)
    hforward hbackward (.swap _ _ _) (fun p hp => read_linkedShelf (hpath ▸ hp))
    (fun _ _ => write_isOk_of_writtenFrom) hcompiled
  exact ⟨compiled, compiled', later, later', hcompiled, hsources, hcompiled', hperm⟩

end Bindery
