import Bindery.Proofs.Compile.Accounting

/-!
# `Proofs.Compile.Validation` — checking a source predicts compiling it

A source that is only checked goes the same way as one that is compiled up to the last step, in which nothing is written.
What comes later does not depend on that: no document is read after the first has been written, and laying one out takes
nothing from the store. So what is found by checking is what compiling comes to, also where the output of one document is
the source of another, unless a write is refused.

## Contents
- `compile_test_readsTo`: checking only reads.
- `writeAll_validates`, `compileDocuments_validates`, `compileProject_validates`: the stages of a project.
- `compileDocument_validates`: a document on its own.
- `checking_predicts`: sources of any kind.
-/

namespace Bindery

variable {σ : Type} [Store σ] {settings : Settings}

/-! ## Checking only reads -/

theorem writeOne_test_readsTo (table : Table) (parsed : Parsed) :
    (writeOne table true parsed).ReadsTo fun _ => True := by
  unfold writeOne
  dsimp only
  split
  · exact FileM.readsTo_pure trivial
  · rw [if_pos rfl]
    exact FileM.readsTo_pure trivial

theorem writeAll_test_readsTo (table : Table) (parsed : List Parsed) :
    (writeAll table true parsed).ReadsTo fun _ => True := by
  induction parsed with
  | nil => exact FileM.readsTo_pure trivial
  | cons first rest ih =>
    rw [writeAll]
    refine (writeOne_test_readsTo table first).bind fun result _ => ?_
    refine ih.bind fun _ _ => ?_
    cases result <;> exact FileM.readsTo_pure trivial

theorem compileDocuments_test_readsTo (settings : Settings) (documents : List ProjectDocument) :
    (compileDocuments settings true documents).ReadsTo fun _ => True := by
  rcases hids : registerIds documents Table.new with ⟨clashes, registered⟩
  cases clashes with
  | cons clash others =>
    rw [compileDocuments_of_clash settings true hids]
    exact FileM.readsTo_pure trivial
  | nil =>
    rw [compileDocuments_of_registerIds settings true hids]
    refine (parseAll_readsTo settings documents registered).bind fun read _ => ?_
    exact (writeAll_test_readsTo read.2 read.1.1).bind fun _ _ => FileM.readsTo_pure trivial

theorem compileProject_test_readsTo (settings : Settings) (path : DocumentPath) :
    (compileProject settings path true).ReadsTo fun _ => True := by
  unfold compileProject
  refine (FileM.readsTo_load (fun _ => trivial) path []).bind fun result _ => ?_
  cases result with
  | error failure => exact FileM.readsTo_pure trivial
  | ok text =>
    dsimp only
    cases Project.ofText path text with
    | error failure => exact FileM.readsTo_pure trivial
    | ok project => exact compileDocuments_test_readsTo settings project.documents

theorem finishDocument_test_readsTo (source : DocumentPath) (destination : Option DocumentPath)
    (before : Nat) (read : Except Failure (Option Section) × Table) :
    (finishDocument source destination true before read).ReadsTo fun _ => True := by
  obtain ⟨failure | tree, table⟩ := read
  · exact FileM.readsTo_pure trivial
  · rw [finishDocument]
    cases render table tree with
    | error fault => exact FileM.readsTo_pure trivial
    | ok text => cases destination <;> exact FileM.readsTo_pure trivial

/-- **A source that is only checked is only read.** -/
theorem compile_test_readsTo (settings : Settings) (source : DocumentPath)
    (destination : Option DocumentPath) :
    (compile settings source destination true).ReadsTo fun _ => True := by
  by_cases hkind : source.kind = .project
  · cases destination with
    | some path =>
      obtain ⟨failure, hfailure⟩ := compile_project_some settings path hkind
      rw [hfailure]
      exact FileM.readsTo_pure trivial
    | none =>
      rw [compile_project_none settings true hkind]
      exact compileProject_test_readsTo settings source
  · rw [compile_of_document settings hkind (.inr rfl), exec_compileDocument]
    have hdocument := (parseSource_readsTo settings source destination Table.new).bind fun read _ =>
      finishDocument_test_readsTo source destination Table.new.warnings.length read
    exact hdocument.bind fun _ _ => FileM.readsTo_pure trivial

/-! ## Checking and compiling come to the same -/

/-- Documents are laid out in the same way whatever the store holds, so that the writes before make no difference. -/
theorem writeAll_validates {table : Table} {parsed : List Parsed} {store : σ}
    (hnone : ∀ event ∈ (writeAll table false parsed).events store, event.isRefusal = false)
    (other : σ) :
    ((writeAll table true parsed).run other).1 = ((writeAll table false parsed).run store).1 := by
  induction parsed generalizing store other with
  | nil => rfl
  | cons first rest ih =>
    rw [events_writeAll_cons] at hnone
    have hchecked := (writeOne_delivers table true first other).result_eq_of_test
    have hwritten := (writeOne_delivers table false first store).result_eq fun event hevent =>
      hnone event (List.mem_append_left _ hevent)
    have hrest := ih (fun event hevent => hnone event (List.mem_append_right _ hevent))
      ((writeOne table true first).run other).2
    rw [run_writeAll_cons, run_writeAll_cons, hchecked, hwritten, hrest]

theorem compileDocuments_validates {documents : List ProjectDocument} {store : σ}
    (hnone : ∀ event ∈ (compileDocuments settings false documents).events store,
      event.isRefusal = false) :
    ((compileDocuments settings true documents).run store).1 =
      ((compileDocuments settings false documents).run store).1 := by
  rcases hids : registerIds documents Table.new with ⟨clashes, registered⟩
  cases clashes with
  | cons clash others =>
    rw [compileDocuments_of_clash settings true hids, compileDocuments_of_clash settings false hids]
  | nil =>
    have hstore := (parseAll_readsTo settings documents registered).run_snd store
    rw [compileDocuments_of_registerIds settings false hids, FileM.events_bind, FileM.events_bind,
      hstore] at hnone
    have hwritten := writeAll_validates (fun event hevent =>
      hnone event (List.mem_append_right _ (List.mem_append_left _ hevent))) store
    rw [compileDocuments_of_registerIds settings true hids,
      compileDocuments_of_registerIds settings false hids]
    simp only [FileM.run_bind, FileM.run_pure, hstore, hwritten]

theorem compileProject_validates {path : DocumentPath} {store : σ}
    (hnone : ∀ event ∈ (compileProject settings path false).events store, event.isRefusal = false) :
    ((compileProject settings path true).run store).1 =
      ((compileProject settings path false).run store).1 := by
  rcases compileProject_cases_of_file path store with ⟨text, project, hread, hproject⟩ |
    ⟨failure, -, hfailure⟩
  · obtain ⟨hchecked, -⟩ := compileProject_of_ofText settings true hread hproject
    obtain ⟨hcompiled, hevents, -⟩ := compileProject_of_ofText settings false hread hproject
    rw [hevents] at hnone
    rw [hchecked, hcompiled]
    exact compileDocuments_validates fun event hevent =>
      hnone event (List.mem_cons_of_mem _ hevent)
  · rw [hfailure, hfailure]

theorem compileDocument_validates {source : DocumentPath} {destination : Option DocumentPath}
    {table : Table} {store : σ}
    (hnone : ∀ event ∈ ((compileDocument settings source destination false).exec table).events store,
      event.isRefusal = false) :
    (((compileDocument settings source destination true).exec table).run store).1.1 =
      (((compileDocument settings source destination false).exec table).run store).1.1 := by
  obtain ⟨_, hchecked, -⟩ := compileDocument_delivers settings source destination true table store
  obtain ⟨events, hcompiled, hevents⟩ :=
    compileDocument_delivers settings source destination false table store
  rw [hevents] at hnone
  have hlaid := hcompiled.result_eq fun event hevent => hnone event (List.mem_append_right _ hevent)
  rw [hchecked.result_eq_of_test, hlaid]

/-- **Checking predicts compiling.** To check a source reads files and does nothing else, so that the store stays as it is.
Unless a destination is missing, compiling the source on the same store comes to the same documents or to the same failure,
if no write is refused. -/
theorem checking_predicts (settings : Settings) (source : DocumentPath)
    (destination : Option DocumentPath) (store : σ) :
    (∀ event ∈ (compile settings source destination true).events store,
      ∃ path chain, event = .read path chain) ∧
    (compile settings source destination true).writes store = [] ∧
    ((compile settings source destination true).run store).2 = store ∧
    (source.kind = .project ∨ destination.isSome = true →
      (∀ event ∈ (compile settings source destination false).events store,
        event.isRefusal = false) →
      ((compile settings source destination true).run store).1 =
        ((compile settings source destination false).run store).1) := by
  have hreads := compile_test_readsTo settings source destination
  refine ⟨fun event hevent => hreads.eq_read store hevent, hreads.writes_eq_nil store,
    hreads.run_snd store, fun hcase hnone => ?_⟩
  by_cases hkind : source.kind = .project
  · cases destination with
    | some path =>
      obtain ⟨failure, hfailure⟩ := compile_project_some settings path hkind
      rw [hfailure, hfailure]
    | none =>
      rw [compile_project_none settings false hkind] at hnone
      rw [compile_project_none settings true hkind, compile_project_none settings false hkind]
      exact compileProject_validates hnone
  · have hsome := hcase.resolve_left hkind
    rw [compile_of_document settings hkind (.inl hsome), FileM.events_bind] at hnone
    have hsame := compileDocument_validates fun event hevent =>
      hnone event (List.mem_append_left _ hevent)
    rw [compile_of_document settings hkind (.inl hsome), compile_of_document settings hkind (.inl hsome),
      FileM.run_bind, FileM.run_bind, FileM.run_pure, FileM.run_pure, hsame]

/-- A shelf with a project in which the output of the first document is the source of the second. -/
def chainedShelf : Shelf where
  files :=
    [("/p.dlproj",
      "(documents (document (source a) (output b)) (document (source b) (output c)))"),
     ("/a", "A"), ("/b", "B")]
  readOnly := []

/-- Both documents come through when they are checked, and compiling them comes to the same although it overwrites the
source of the second. -/
theorem checking_predicts_chainedShelf :
    (∀ event ∈ (compile {} (.resolve "/p.dlproj" "/") none false).events chainedShelf,
      event.isRefusal = false) ∧
    reported ((compile {} (.resolve "/p.dlproj" "/") none true).run chainedShelf).1 =
      [⟨"/a", "/b"⟩, ⟨"/b", "/c"⟩] ∧
    ((compile {} (.resolve "/p.dlproj" "/") none true).run chainedShelf).1 =
      ((compile {} (.resolve "/p.dlproj" "/") none false).run chainedShelf).1 := by
  have hfacts : (∀ event ∈ (compile {} (.resolve "/p.dlproj" "/") none false).events chainedShelf,
        event.isRefusal = false) ∧
      reported ((compile {} (.resolve "/p.dlproj" "/") none true).run chainedShelf).1 =
        [⟨"/a", "/b"⟩, ⟨"/b", "/c"⟩] := by
    decide +kernel
  have hkind : (DocumentPath.resolve "/p.dlproj" "/").kind = .project := by decide +kernel
  obtain ⟨-, -, -, hsame⟩ := checking_predicts {} (.resolve "/p.dlproj" "/") none chainedShelf
  exact ⟨hfacts.1, hfacts.2, hsame (.inl hkind) hfacts.1⟩

end Bindery
