import Bindery.Proofs.Compile.Growth
import Bindery.Proofs.Compile.Order

/-!
# `Proofs.Compile.Isolation` — the documents of a project share nothing but ids

The documents of a project are read with one table, in which the ids and the warnings of all of them pile up, also of those
that fail. The warnings of each are cut out of the pile by a count. All the same a document that comes through says what it
would say on its own, and gives the warnings that it would give; only its links depend on the others.

## Contents
- `Study.Completes.exists_alone`: a document that was read can be read on its own.
- `exists_laidOut_of_writeAll`: a document that came through was laid out, whichever of the others failed.
- `reported`: the documents that a project reports as compiled; `compileProject_of_no_file`, `compileDocuments_stages`: its
  stages.
- `documents_isolated`: what a document of a project comes to is what it comes to on its own, but for its links.
-/

namespace Bindery

variable {σ : Type} [Store σ] {store later : σ} {settings : Settings} {test : Bool}
  {table : Table}

/-! ## A document on its own -/

theorem Table.Sound.setCurrent (h : table.Sound) (source destination : DocumentPath) :
    (table.setCurrent source destination).Sound :=
  (h.set_path isId_sourceKey (by decide) source).set_path isId_destinationKey (by decide) destination

theorem Table.column_setCurrent_of_ne (table : Table) (source destination : DocumentPath)
    {key : String} (hsource : key ≠ sourceKey) (hdestination : key ≠ destinationKey) :
    (table.setCurrent source destination).column key = table.column key := by
  rw [Table.setCurrent, column_set_of_ne _ _ hdestination, column_set_of_ne _ _ hsource]

theorem Table.Sound.consistent_setCurrent_iff (h : table.Sound) (source destination : DocumentPath)
    {pairs : List (String × Target)} :
    (table.setCurrent source destination).Consistent pairs ↔ table.Consistent pairs := by
  have hids := h.id?_eq (h.setCurrent source destination) fun id hid =>
    column_setCurrent_of_ne table source destination (ne_of_isId hid isId_sourceKey)
      (ne_of_isId hid isId_destinationKey)
  simp only [Consistent, hids]

/-- A document whose ids do not clash with each other is read on its own, and gives its warnings then. -/
theorem Study.Completes.exists_alone {study : Study} (h : study.Completes store settings)
    (hpairs : Table.new.Consistent study.pairs) :
    ∃ own, (parseSource settings study.document.source (some study.document.output)).Yields
        store Table.new study.tree store own ∧ own.warnings = study.warnings := by
  let start := Table.new.setCurrent study.document.source study.document.output
  have hsound : start.Sound := Table.sound_new.setCurrent _ _
  -- a new table knows no ids, so that those of the document could clash with each other only
  have hconsistent : start.Consistent
      (Note.pairsAll start.destination? start.source? study.notes) := by
    rw [Table.destination?_setCurrent, Table.source?_setCurrent]
    exact (Table.sound_new.consistent_setCurrent_iff _ _).2 hpairs
  obtain ⟨own, hown⟩ := Note.exists_enterAll hsound _ h.unfolds.allValid hconsistent
  have hgains := Note.enterAll_gains hsound _ h.unfolds.allValid hown
  refine ⟨own, ?_, ?_⟩
  · refine CompileM.yields_bind.2 ⟨(), store, start, CompileM.yields_modify.2 ⟨rfl, rfl⟩, ?_⟩
    exact resolve_yields_iff.2 ⟨rfl, study.notes, h.unfolds, h.admits, hown⟩
  · have hnone : start.warnings = [] :=
      Table.warnings_congr (Table.column_setCurrent_of_ne _ _ _ (by decide) (by decide))
    rw [hgains.warnings, hnone]
    rfl

/-- What is read of a document is added at the end of the warnings there are. -/
theorem isPrefix_warnings_parseOne (store : σ) (settings : Settings) {start : Table}
    (hsound : start.Sound) (document : ProjectDocument) :
    start.push.warnings <+:
      (((parseOne settings document).exec start.push).run store).1.2.warnings := by
  have hopens := Table.opens_setCurrent hsound document.source document.output
  rw [Table.warnings_push, ← hopens.warnings]
  exact (parseOne_grows store settings hopens.sound).isPrefix_warnings

/-! ## Documents that come through -/

theorem exists_laidOut_of_writeAll {parsed : List Parsed} {compiled : List Compiled}
    {unwritten : List Failure}
    (h : (writeAll table test parsed).run store = ((compiled, unwritten), later))
    {c : Compiled} (hc : c ∈ compiled) : ∃ p ∈ parsed, p.laidOut table = .ok c := by
  induction parsed generalizing store compiled unwritten with
  | nil =>
    cases h
    cases hc
  | cons first rest ih =>
    obtain ⟨result, between, ⟨others, failures⟩, hfirst, hrest, hresults⟩ :=
      writeAll_cons_run_iff.1 h
    have hmem : c ∈ (addResult result (others, failures)).1 := hresults ▸ hc
    rcases mem_addResult_iff.1 hmem with rfl | hc
    · exact ⟨first, List.mem_cons_self, (writeOne_eq_iff.1 hfirst).1⟩
    · obtain ⟨p, hp, hlaid⟩ := ih hrest hc
      exact ⟨p, List.mem_cons_of_mem _ hp, hlaid⟩

/-- A document that is laid out says who it is, and its text is what its tree renders to. -/
theorem laidOutAs_eq_ok_iff {source output : DocumentPath} {tree : Option Section}
    {warnings : List Warning} {c : Compiled} :
    laidOutAs table source output tree warnings = .ok c ↔
      render (table.push.setCurrent source output) tree = .ok c.text ∧
        c.source = source ∧ c.destination = some output ∧ c.warnings = warnings := by
  unfold laidOutAs
  rw [except_map_eq_ok]
  constructor
  · rintro ⟨text, hrender, rfl⟩
    exact ⟨hrender, rfl, rfl, rfl⟩
  · rintro ⟨hrender, rfl, hdestination, rfl⟩
    exact ⟨c.text, hrender, by rw [← hdestination]⟩

/-! ## Projects -/

/-- The documents that a project reports as compiled, whether it failed or not. -/
def reported : Except Failure (List Compiled) → List Output
  | .ok compiled => compiled.filterMap Compiled.output?
  | .error (.project outputs _) => outputs
  | .error _ => []

theorem reported_projectResult (compiled : List Compiled) (failures : List Failure) :
    reported (projectResult compiled failures) = compiled.filterMap Compiled.output? := by
  cases failures <;> rfl

/-- A project whose file cannot be read reports no documents and writes none. -/
theorem compileProject_of_no_file {path : DocumentPath} {result : Except Failure (List Compiled)}
    (hnone : ∀ text project, Store.read store path.text = .ok text →
      Project.ofText path text ≠ .ok project)
    (h : (compileProject settings path test).run store = (result, later)) :
    reported result = [] ∧ later = store := by
  rcases compileProject_cases_of_file path store with ⟨text, project, htext, hproject⟩ |
    ⟨failure, hother, hfailure⟩
  · exact absurd hproject (hnone text project htext)
  · rw [hfailure] at h
    cases h
    refine ⟨?_, rfl⟩
    cases failure with
    | project outputs failures => exact absurd rfl (hother outputs failures)
    | code message path line column => rfl
    | general message path => rfl

/-- Documents whose ids do not clash are read and then written. -/
theorem compileDocuments_stages {documents : List ProjectDocument} {registered : Table}
    (hids : registerIds documents Table.new = ([], registered))
    {result : Except Failure (List Compiled)}
    (h : (compileDocuments settings test documents).run store = (result, later)) :
    ∃ parsed unread table between compiled unwritten,
      (parseAll settings documents registered).run store = (((parsed, unread), table), between) ∧
      (writeAll table test parsed).run between = ((compiled, unwritten), later) ∧
      result = projectResult compiled (unread ++ unwritten) := by
  rw [compileDocuments_of_registerIds settings test hids, FileM.run_bind] at h
  rcases hparse : (parseAll settings documents registered).run store with
    ⟨⟨⟨parsed, unread⟩, table⟩, between⟩
  rw [hparse, FileM.run_bind] at h
  rcases hwrite : (writeAll table test parsed).run between with ⟨⟨compiled, unwritten⟩, last⟩
  rw [hwrite] at h
  cases h
  exact ⟨parsed, unread, table, between, compiled, unwritten, rfl, hwrite, rfl⟩

/-- A document that came through can be read on its own, and comes to the same but for its links. -/
theorem exists_alone_of_writeAll {documents : List ProjectDocument} {registered : Table}
    (hsound : registered.Sound) {parsed : List Parsed} {unread : List Failure} {between : σ}
    (hparse : (parseAll settings documents registered).run store =
      (((parsed, unread), table), between)) {compiled : List Compiled} {unwritten : List Failure}
    (hwrite : (writeAll table test parsed).run between = ((compiled, unwritten), later))
    {c : Compiled} (hc : c ∈ compiled) :
    ∃ document ∈ documents, c.source = document.source ∧ c.destination = some document.output ∧
      ∃ tree own, (parseSource settings document.source (some document.output)).Yields
          store Table.new tree store own ∧
        c.warnings = own.warnings ∧
        ∀ other : Table, (∀ id, other.id? id = table.id? id) →
          render (other.push.setCurrent document.source document.output) tree = .ok c.text := by
  -- the document was laid out, so it had been read, and so it can be read on its own
  obtain ⟨p, hp, hlaid⟩ := exists_laidOut_of_writeAll hwrite hc
  obtain ⟨-, -, hstudies⟩ := parseAll_grows hsound hparse
  obtain ⟨study, hmem, hcompletes, hpairs, rfl⟩ := hstudies p hp
  obtain ⟨own, hown, hwarnings⟩ := hcompletes.exists_alone hpairs
  obtain ⟨-, hsource, hdestination, hsame⟩ := laidOutAs_eq_ok_iff.1 hlaid
  refine ⟨study.document, hmem, hsource, hdestination, study.tree, own, hown,
    hsame.trans hwarnings.symm, fun other hother => ?_⟩
  -- a table with the same ids lays the document out in the same way
  exact (laidOutAs_eq_ok_iff.1 ((laidOutAs_congr hother _ _ _ _).trans hlaid)).1

/-- **The documents of a project share nothing but ids.** A project whose file cannot be read reports no documents and
writes none, and one whose ids clash comes to the clashes and writes nothing. Otherwise its documents are read and then
written, and it comes to those that came through or else to its failures. Whichever failed, each document that came through
can be read on its own with a new table; its warnings are those of that reading, and its text is what that reading renders
to with any table that knows the ids of the project. When the turn of a document has come, no warning that was there is
lost by reading it, also if it fails then. -/
theorem documents_isolated {path : DocumentPath} {result : Except Failure (List Compiled)}
    (h : (compileProject settings path test).run store = (result, later)) :
    ((∀ text project, Store.read store path.text = .ok text → Project.ofText path text ≠ .ok project) →
      reported result = [] ∧ later = store) ∧
    ∀ text project, Store.read store path.text = .ok text → Project.ofText path text = .ok project →
      ∀ clashes registered, registerIds project.documents Table.new = (clashes, registered) →
      (clashes ≠ [] → result = .error (.project [] clashes) ∧ later = store) ∧
      (clashes = [] → ∃ parsed unread table compiled unwritten,
        (parseAll settings project.documents registered).run store =
          (((parsed, unread), table), store) ∧
        (writeAll table test parsed).run store = ((compiled, unwritten), later) ∧
        result = projectResult compiled (unread ++ unwritten) ∧
        (∀ c ∈ compiled, ∃ document ∈ project.documents,
          c.source = document.source ∧ c.destination = some document.output ∧
          ∃ tree own, (parseSource settings document.source (some document.output)).Yields
              store Table.new tree store own ∧
            c.warnings = own.warnings ∧
            ∀ other : Table, (∀ id, other.id? id = table.id? id) →
              render (other.push.setCurrent document.source document.output) tree = .ok c.text) ∧
        ∀ earlier document others, project.documents = earlier ++ document :: others →
          ∀ seen start reached,
            (parseAll settings earlier registered).run store = ((seen, start), reached) →
            ∀ read inner last,
              ((parseOne settings document).exec start.push).run reached = ((read, inner), last) →
              start.push.warnings <+: inner.warnings) := by
  refine ⟨fun hnone => compileProject_of_no_file hnone h, ?_⟩
  intro text project htext hproject clashes registered hids
  rw [(compileProject_of_ofText settings test htext hproject).1] at h
  refine ⟨fun hclashes => ?_, ?_⟩
  · obtain ⟨clash, rest, rfl⟩ := List.exists_cons_of_ne_nil hclashes
    rw [compileDocuments_of_clash settings test hids] at h
    cases h
    exact ⟨rfl, rfl⟩
  rintro rfl
  obtain ⟨parsed, unread, table, between, compiled, unwritten, hparse, hwrite, hresult⟩ :=
    compileDocuments_stages hids h
  have hsound := (registerIds_gains Table.sound_new (Project.validIds hproject) hids).sound
  obtain ⟨rfl, -, -⟩ := parseAll_grows hsound hparse
  refine ⟨parsed, unread, table, compiled, unwritten, hparse, hwrite, hresult,
    fun c hc => exists_alone_of_writeAll hsound hparse hwrite hc, ?_⟩
  rintro earlier document others - ⟨found, missed⟩ start reached hearlier read inner last hone
  -- the documents before it, also those that failed, left a sound table
  obtain ⟨-, hgrows, -⟩ := parseAll_grows hsound hearlier
  have hwarnings := isPrefix_warnings_parseOne reached settings hgrows.sound document
  rwa [hone] at hwarnings

/-- A shelf with a project of three documents. The first declares an id and is warned about before it fails for want of a
file, the second has a link to that id, and the third is warned about, too. -/
def troubledShelf : Shelf where
  files :=
    [("/p.dlproj",
      "(documents (document (source a) (output x)) (document (source b) (output y))" ++
        " (document (source c) (output z)))"),
     ("/a", "<!--(dl (section-meta (title A) (id a) (include (Part missing))))-->"),
     ("/b", "<!--(dl (get-path a))-->"),
     ("/c", "<!--(dl (section-meta (title C) (include (Part e))))-->"),
     ("/e", "E")]
  readOnly := []

/-- The second and the third document come through though the first fails, and give the warnings that they would give
on their own. -/
theorem documents_isolated_troubledShelf : ∃ compiled failures later,
    (compileProject {} (.resolve "/p.dlproj" "/") false).run troubledShelf =
      (projectResult compiled failures, later) ∧
    compiled.filterMap Compiled.output? = [⟨"/b", "/y"⟩, ⟨"/c", "/z"⟩] ∧
    ∀ c ∈ compiled, ∃ output tree own, c.destination = some output ∧
      (parseSource {} c.source (some output)).Yields troubledShelf Table.new tree troubledShelf own ∧
      c.warnings = own.warnings := by
  obtain ⟨⟨result, later⟩, hrun⟩ : ∃ run, (compileProject {} (.resolve "/p.dlproj" "/") false).run
    troubledShelf = run := ⟨_, rfl⟩
  have hreported : reported result = [⟨"/b", "/y"⟩, ⟨"/c", "/z"⟩] := by
    have hresult : ((compileProject {} (.resolve "/p.dlproj" "/") false).run troubledShelf).1 =
        result := congrArg Prod.fst hrun
    rw [← hresult]
    decide +kernel
  obtain ⟨hunreadable, hreadable⟩ := documents_isolated hrun
  -- documents are reported, so the file was read, and the ids do not clash
  have hfile : ∃ text project, Store.read troubledShelf (DocumentPath.resolve "/p.dlproj" "/").text =
      .ok text ∧ Project.ofText (.resolve "/p.dlproj" "/") text = .ok project := by
    apply Classical.byContradiction
    intro hfile
    have hnone := hunreadable fun text project htext hproject => hfile ⟨text, project, htext, hproject⟩
    rw [hnone.1] at hreported
    cases hreported
  obtain ⟨text, project, htext, hproject⟩ := hfile
  rcases hids : registerIds project.documents Table.new with ⟨clashes, registered⟩
  obtain ⟨hclash, hagree⟩ := hreadable text project htext hproject clashes registered hids
  have hclashes : clashes = [] := by
    apply Classical.byContradiction
    intro hclashes
    rw [(hclash hclashes).1] at hreported
    cases hreported
  obtain ⟨_, unread, _, compiled, unwritten, -, -, rfl, hdocuments, -⟩ := hagree hclashes
  rw [reported_projectResult] at hreported
  refine ⟨compiled, unread ++ unwritten, later, hrun, hreported, fun c hc => ?_⟩
  obtain ⟨document, -, hsource, hdestination, tree, own, hown, hwarnings, -⟩ := hdocuments c hc
  rw [← hsource] at hown
  exact ⟨document.output, tree, own, hdestination, hown, hwarnings⟩

end Bindery
