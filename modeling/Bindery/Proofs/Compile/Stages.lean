import Bindery.Proofs.Project.Descriptor
import Bindery.Proofs.Storage.Events

/-!
# `Proofs.Compile.Stages` — the stages of compiling

What the parts of a compilation are, one after the other: a source is taken as a project or as a document, a project file is
read, the ids of its documents are made known, the documents are read, and those that could be read are written. It is said
here once, for runs that succeed and for others, so that no later proof opens a compilation.

## Contents
- `compileDocuments_of_clash`, `compileDocuments_of_registerIds`, `compileDocuments_eq_iff`: the documents of a project.
- `compileProject_of_ofText`, `compileProject_cases_of_file`, `compileProject_eq_iff`: its file.
- `compile_project_none`, `compile_of_document`: what a source is compiled as.
-/

namespace Bindery

variable {σ : Type} [Store σ] {store later : σ} {settings : Settings} {test : Bool}

/-! ## The documents of a project -/

theorem projectResult_eq_ok_iff {compiled result : List Compiled} {failures : List Failure} :
    projectResult compiled failures = .ok result ↔ failures = [] ∧ compiled = result := by
  unfold projectResult
  cases failures <;> simp

/-- If ids of documents clash, that is all that is found out. -/
theorem compileDocuments_of_clash (settings : Settings) (test : Bool) {documents : List ProjectDocument}
    {clash : Failure} {others : List Failure} {registered : Table}
    (h : registerIds documents Table.new = (clash :: others, registered)) :
    compileDocuments settings test documents = pure (.error (.project [] (clash :: others))) := by
  rw [compileDocuments, h]
  rfl

/-- If no ids of documents clash, all are read, and then those that could be read are written. -/
theorem compileDocuments_of_registerIds (settings : Settings) (test : Bool)
    {documents : List ProjectDocument} {registered : Table}
    (h : registerIds documents Table.new = ([], registered)) :
    compileDocuments settings test documents =
      parseAll settings documents registered >>= fun read =>
        writeAll read.2 test read.1.1 >>= fun written =>
          pure (projectResult written.1 (read.1.2 ++ written.2)) := by
  rw [compileDocuments, h]
  rfl

/-- A project comes through exactly if its ids do not clash, all documents are read, and all are written. -/
theorem compileDocuments_eq_iff {documents : List ProjectDocument} {compiled : List Compiled} :
    (compileDocuments settings test documents).run store = (.ok compiled, later) ↔
      ∃ registered parsed table between,
        registerIds documents Table.new = ([], registered) ∧
        (parseAll settings documents registered).run store = (((parsed, []), table), between) ∧
        (writeAll table test parsed).run between = ((compiled, []), later) := by
  rcases hids : registerIds documents Table.new with ⟨clashes, registered⟩
  cases clashes with
  | cons clash rest =>
    rw [compileDocuments_of_clash settings test hids]
    constructor
    · intro h
      cases h
    · rintro ⟨_, _, _, _, ⟨⟩, -⟩
  | nil =>
    rw [compileDocuments_of_registerIds settings test hids, FileM.run_bind]
    rcases hparse : (parseAll settings documents registered).run store with
      ⟨⟨⟨parsed, unread⟩, table⟩, between⟩
    dsimp only
    rw [FileM.run_bind]
    rcases hwrite : (writeAll table test parsed).run between with ⟨⟨written, unwritten⟩, last⟩
    show (projectResult written (unread ++ unwritten), last) = (.ok compiled, later) ↔ _
    rw [Prod.mk.injEq, projectResult_eq_ok_iff, List.append_eq_nil_iff]
    constructor
    · rintro ⟨⟨⟨rfl, rfl⟩, rfl⟩, rfl⟩
      exact ⟨registered, parsed, table, between, rfl, hparse, hwrite⟩
    · rintro ⟨_, _, _, _, ⟨⟩, hparse', hwrite'⟩
      cases hparse.symm.trans hparse'
      cases hwrite.symm.trans hwrite'
      exact ⟨⟨⟨rfl, rfl⟩, rfl⟩, rfl⟩

/-! ## The file of a project -/

/-- A project file that could be read is followed by its documents. -/
theorem compileProject_of_ofText (settings : Settings) (test : Bool) {path : DocumentPath} {text : String}
    {project : Project} (htext : Store.read store path.text = .ok text)
    (hproject : Project.ofText path text = .ok project) :
    (compileProject settings path test).run store =
        (compileDocuments settings test project.documents).run store ∧
      (compileProject settings path test).events store =
        .read path.text [] :: (compileDocuments settings test project.documents).events store ∧
      (compileProject settings path test).writes store =
        (compileDocuments settings test project.documents).writes store := by
  obtain ⟨hevent, ⟨found, hfound, hload⟩ | ⟨refusal, _, hrefusal, -⟩⟩ := FileM.load_cases path [] store
  · cases htext.symm.trans hfound
    have hwrites : (FileM.load path []).writes store = [] := by
      rw [FileM.writes_eq, hevent]
      rfl
    rw [compileProject, FileM.run_bind, FileM.events_bind, FileM.writes_bind, hload, hevent, hwrites]
    dsimp only
    rw [hproject]
    exact ⟨rfl, rfl, rfl⟩
  · exact nomatch htext.symm.trans hrefusal

/-- A project file can be read, or else that is all that is found out. -/
theorem compileProject_cases_of_file (path : DocumentPath) (store : σ) :
    (∃ text project, Store.read store path.text = .ok text ∧ Project.ofText path text = .ok project) ∨
      ∃ failure, (∀ outputs failures, failure ≠ .project outputs failures) ∧ ∀ settings test,
        (compileProject settings path test).run store = (.error failure, store) := by
  obtain ⟨-, ⟨text, htext, hload⟩ | ⟨_, message, -, hload⟩⟩ := FileM.load_cases path [] store
  · cases hproject : Project.ofText path text with
    | error failure =>
      refine .inr ⟨failure, fun outputs failures heq => ?_, fun settings test => ?_⟩
      · rw [heq] at hproject
        exact Project.ofText_ne_project path text hproject
      · rw [compileProject, FileM.run_bind, hload]
        dsimp only
        rw [hproject]
        exact FileM.run_pure _ store
    | ok project => exact .inl ⟨text, project, htext, hproject⟩
  · refine .inr ⟨.general message (some path.text), nofun, fun settings test => ?_⟩
    rw [compileProject, FileM.run_bind, hload]
    exact FileM.run_pure _ store

theorem compileProject_eq_iff {path : DocumentPath} {compiled : List Compiled} :
    (compileProject settings path test).run store = (.ok compiled, later) ↔
      ∃ text project, Store.read store path.text = .ok text ∧
        Project.ofText path text = .ok project ∧
        (compileDocuments settings test project.documents).run store = (.ok compiled, later) := by
  constructor
  · intro h
    rcases compileProject_cases_of_file path store with ⟨text, project, htext, hproject⟩ |
      ⟨failure, -, hfailure⟩
    · rw [(compileProject_of_ofText settings test htext hproject).1] at h
      exact ⟨text, project, htext, hproject, h⟩
    · rw [hfailure] at h
      cases h
  · rintro ⟨text, project, htext, hproject, h⟩
    rw [(compileProject_of_ofText settings test htext hproject).1]
    exact h

/-! ## Sources of any kind -/

theorem compile_project_none (settings : Settings) {source : DocumentPath} (test : Bool)
    (hkind : source.kind = .project) :
    compile settings source none test = compileProject settings source test := by
  unfold compile
  rw [hkind]

/-- A project is refused a destination, whether it is compiled or only checked. -/
theorem compile_project_some (settings : Settings) {source : DocumentPath} (path : DocumentPath)
    (hkind : source.kind = .project) :
    ∃ failure, ∀ test, compile settings source (some path) test = pure (.error failure) := by
  unfold compile
  rw [hkind]
  exact ⟨_, fun _ => rfl⟩

/-- Without a destination a document can only be checked. -/
theorem compile_document_none (settings : Settings) {source : DocumentPath}
    (hkind : source.kind ≠ .project) :
    ∃ failure, compile settings source none false = pure (.error failure) := by
  unfold compile
  cases hsource : source.kind with
  | project => exact absurd hsource hkind
  | markdown => exact ⟨_, rfl⟩
  | directives => exact ⟨_, rfl⟩

/-- A source that is no project is compiled as a document with a new table. -/
theorem compile_of_document (settings : Settings) {source : DocumentPath}
    {destination : Option DocumentPath} {test : Bool} (hkind : source.kind ≠ .project)
    (hcase : destination.isSome = true ∨ test = true) :
    compile settings source destination test =
      (compileDocument settings source destination test).exec Table.new >>= fun result =>
        pure (result.1.map fun compiled => [compiled]) := by
  have hgo : ¬ (destination.isNone && !test) = true := by
    rcases hcase with hsome | rfl
    · obtain ⟨path, rfl⟩ := Option.isSome_iff_exists.1 hsome
      simp
    · simp
  unfold compile
  split
  next hproject => exact absurd hproject hkind
  next hproject => exact absurd hproject hkind
  next => rw [if_neg hgo]

end Bindery
