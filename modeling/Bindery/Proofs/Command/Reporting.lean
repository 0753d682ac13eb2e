import Bindery.Command
import Bindery.Proofs.Compile.Outputs

/-!
# `Proofs.Command.Reporting` — a run says what it has written

A run that came through names its documents. A run that failed has only its failure to go by, and of all failures only that
of a project lists documents. Both come to the same: the lines of a run name the files that were written, in the order of
the writes. For this a document on its own must not fail as a project does, and a project must list what was written and
nothing else, whichever of its documents failed.

## Contents
- `FailsAlone`, `compileDocument_failsAlone`: how a document fails.
- `Reports`, `compile_reports`: what is written is what is reported.
- `Command.output_conclude`: the lines of a run by its result.
- `Command.run_reports_writes`: the lines and the exit status of a run.
-/

namespace Bindery

variable {σ : Type} [Store σ] {store : σ} {settings : Settings}

/-! ## How a document fails -/

/-- Whether a failure is that of a project, which tells what was written. -/
def Failure.isProject : Failure → Bool
  | .project _ _ => true
  | _ => false

/-- A result that is no failure of a project. -/
def FailsAlone : Except Failure α → Prop
  | .ok _ => True
  | .error failure => failure.isProject = false

theorem failsAlone_mapError (result : Except Fault α) : FailsAlone (result.mapError Fault.toFailure) := by
  cases result with
  | error fault => rfl
  | ok a => trivial

theorem FailsAlone.map {result : Except Failure α} (h : FailsAlone result) (f : α → β) :
    FailsAlone (result.map f) := by
  cases result with
  | error failure => exact h
  | ok a => trivial

theorem reported_eq_nil {failure : Failure} (h : failure.isProject = false) :
    reported (.error failure) = [] := by
  cases failure with
  | project outputs failures => cases h
  | code message path line column => rfl
  | general message path => rfl

theorem Project.ofText_failsAlone (path : DocumentPath) (text : String) :
    FailsAlone (Project.ofText path text) := by
  cases hproject : Project.ofText path text with
  | ok project => trivial
  | error failure =>
    cases failure with
    | project outputs failures => exact absurd hproject (Project.ofText_ne_project path text)
    | code message path line column => rfl
    | general message path => rfl

theorem Page.ofText_failsAlone (document : Coordinate) (text : String) (table : Table) :
    FailsAlone (Page.ofText document text table).1 := by
  unfold Page.ofText Source.split
  split
  next failure hsplit =>
    split at hsplit
    next => cases hsplit; rfl
    next =>
      have halone := failsAlone_mapError (Source.splitText document (Text.unifyNewlines text.toList))
      rw [hsplit] at halone
      exact halone
  next parts _ =>
    cases Source.tokenize parts with
    | error fault => rfl
    | ok tokens => exact failsAlone_mapError _

/-- Compiling writes nothing and does not fail as a project does. -/
def CompileM.FailsAlone (compiling : CompileM α) : Prop :=
  ∀ table : Table, (compiling.exec table).ReadsTo fun result => Bindery.FailsAlone result.1

theorem CompileM.FailsAlone.bind {x : CompileM α} {f : α → CompileM β} (h : x.FailsAlone)
    (hf : ∀ a, (f a).FailsAlone) : (x >>= f).FailsAlone := by
  intro table
  rw [exec_bind]
  refine (h table).bind ?_
  rintro ⟨failure | a, middle⟩ hfirst
  · exact FileM.readsTo_pure hfirst
  · exact hf a middle

theorem CompileM.inherited_failsAlone :
    CompileM.Inherited fun _ compiling => compiling.FailsAlone where
  pure _ _ := trivial
  fault _ _ := rfl
  load _ _ _ answer := by
    cases answer with
    | ok text => trivial
    | error refusal => rfl
  page document text table := Page.ofText_failsAlone document text table
  bind h hf := h.bind hf
  within source h table := (h (table.entering source)).bind fun _ hinner => FileM.readsTo_pure hinner

theorem save_failsAlone (path : DocumentPath) (text : String) (store : σ) :
    FailsAlone ((FileM.save path text).run store).1 := by
  unfold FileM.save
  rw [FileM.run]
  cases Store.write store path.text text with
  | ok after => trivial
  | error refusal =>
    cases refusal with
    | file cause => rfl
    | directory cause =>
      show (Failure.ofRefusal cause).isProject = false
      unfold Failure.ofRefusal
      split <;> rfl

theorem finishDocument_failsAlone (source : DocumentPath) (destination : Option DocumentPath)
    (test : Bool) (before : Nat) {read : Except Failure (Option Section) × Table}
    (h : FailsAlone read.1) (store : σ) :
    FailsAlone ((finishDocument source destination test before read).run store).1.1 := by
  obtain ⟨failure | tree, table⟩ := read
  · exact h
  · rw [finishDocument]
    cases render table tree with
    | error fault => rfl
    | ok text =>
      cases destination with
      | none => trivial
      | some path =>
        cases test with
        | true => trivial
        | false =>
          simp only [FileM.run_bind, FileM.run_pure]
          exact (save_failsAlone path text store).map _

/-- **A document on its own does not fail as a project does.** -/
theorem compileDocument_failsAlone (settings : Settings) (source : DocumentPath)
    (destination : Option DocumentPath) (test : Bool) (table : Table) (store : σ) :
    FailsAlone (((compileDocument settings source destination test).exec table).run store).1.1 := by
  have hread : FailsAlone (((parseSource settings source destination).exec table).run store).1.1 :=
    (CompileM.inherited_failsAlone.resolve settings source _).run_fst store
  rw [exec_compileDocument, FileM.run_bind]
  exact finishDocument_failsAlone source destination test table.warnings.length hread _

/-! ## What is written and what is reported -/

/-- The writes of a run are what its result reports, and it came through exactly if as much was written as was wanted. -/
structure Reports (wanted : Option Nat) (writes : List (String × String))
    (result : Except Failure (List Compiled)) : Prop where
  paths_eq : writes.map Prod.fst = (reported result).map Output.destination
  isOk_iff : (∃ documents, result = .ok documents) ↔ wanted = some writes.length

/-- A run that fails before it comes to any document. -/
theorem Reports.of_error {failure : Failure} (h : failure.isProject = false) :
    Reports none [] (.error failure) where
  paths_eq := by rw [reported_eq_nil h]; rfl
  isOk_iff := by simp

/-- Documents that came through are reported where they are written. -/
theorem map_fst_write?_eq (documents : List Compiled) :
    (documents.filterMap Compiled.write?).map Prod.fst =
      (documents.filterMap Compiled.output?).map Output.destination := by
  rw [List.map_filterMap, List.map_filterMap]
  refine congrArg (List.filterMap · documents) (funext fun document => ?_)
  unfold Compiled.write? Compiled.output?
  cases document.destination <;> rfl

/-- **The documents of a project**: whichever of them fail, and in which stage, the others are written and reported. -/
theorem compileDocuments_reports (settings : Settings) (documents : List ProjectDocument) (store : σ) :
    Reports (some documents.length) ((compileDocuments settings false documents).writes store)
      ((compileDocuments settings false documents).run store).1 := by
  cases hclashes : clashes documents with
  | cons clash others =>
    have hids := eq_mk_of_fst_eq (registerIds_new_fst documents)
    rw [hclashes] at hids
    rw [compileDocuments_of_clash settings false hids]
    refine ⟨rfl, ?_⟩
    have hsome : documents.length ≠ 0 := by
      intro hnone
      rw [List.length_eq_zero_iff.1 hnone] at hclashes
      cases hclashes
    simpa using hsome
  | nil =>
    obtain ⟨hresult, hwrites⟩ := compileDocuments_fates settings false store hclashes
    rw [hresult, hwrites]
    refine ⟨?_, ?_⟩
    · rw [reported_projectResult]
      exact map_fst_write?_eq _
    · have hlength := Fate.length_successes_add_length_failures
        (projectFates settings false store documents)
      have hwritten := congrArg List.length
        (map_fst_write?_eq (Fate.successes (projectFates settings false store documents)))
      rw [List.length_map, List.length_map, length_outputs_projectFates] at hwritten
      rw [length_projectFates] at hlength
      simp only [projectResult_eq_ok_iff, exists_and_left, exists_eq', and_true, Bool.false_eq_true,
        if_false, hwritten, Option.some.injEq, ← List.length_eq_zero_iff]
      omega

/-- How many documents a project lists, if its file can be read. -/
def listed? (store : σ) (path : DocumentPath) : Option Nat :=
  match Store.read store path.text with
  | .error _ => none
  | .ok text =>
    match Project.ofText path text with
    | .error _ => none
    | .ok project => some project.documents.length

theorem compileProject_reports (settings : Settings) (path : DocumentPath) (store : σ) :
    Reports (listed? store path) ((compileProject settings path false).writes store)
      ((compileProject settings path false).run store).1 := by
  have hloaded := (FileM.readsTo_load (fun _ => trivial) path []).writes_eq_nil store
  unfold listed?
  obtain ⟨-, ⟨text, htext, hload⟩ | ⟨_, message, hrefusal, hload⟩⟩ := FileM.load_cases path [] store
  · rw [htext]
    dsimp only
    cases hproject : Project.ofText path text with
    | error failure =>
      rw [compileProject, FileM.run_bind, FileM.writes_bind, hload, hloaded]
      dsimp only
      rw [hproject]
      have halone := Project.ofText_failsAlone path text
      rw [hproject] at halone
      exact .of_error halone
    | ok project =>
      obtain ⟨hrun, -, hwrites⟩ := compileProject_of_ofText settings false htext hproject
      rw [hrun, hwrites]
      exact compileDocuments_reports settings project.documents store
  · rw [hrefusal, compileProject, FileM.run_bind, FileM.writes_bind, hload, hloaded]
    exact .of_error rfl

theorem compileDocument_reports (settings : Settings) (source path : DocumentPath) (table : Table)
    (store : σ) :
    Reports (some 1) (((compileDocument settings source (some path) false).exec table).writes store)
      ((((compileDocument settings source (some path) false).exec table).run store).1.1.map
        fun compiled => [compiled]) := by
  obtain ⟨events, hdelivers, hevents⟩ :=
    compileDocument_delivers settings source (some path) false table store
  have hreads := (parseSource_readsTo settings source (some path) table).writes_eq_nil store
  have halone := compileDocument_failsAlone settings source (some path) false table store
  rw [FileM.writes_eq] at hreads
  rw [FileM.writes_eq, hevents, List.filterMap_append, hreads, hdelivers.writes_eq]
  generalize (((compileDocument settings source (some path) false).exec table).run store).1.1 = result
    at hdelivers halone
  cases result with
  | error failure =>
    have hnone : reported (.error failure) = [] := reported_eq_nil halone
    exact ⟨congrArg (List.map Output.destination) hnone.symm, by simp [Except.map, Except.toOption]⟩
  | ok compiled =>
    have hdestination := laidDocument_destination hdelivers.laid_eq_ok
    constructor
    · simp [Except.map, Except.toOption, reported, Compiled.write?, Compiled.output?, hdestination]
    · simp [Except.map, Except.toOption, Compiled.write?, hdestination]

/-- How many documents a source comes to, if that can be told. -/
def wanted? (store : σ) (source : DocumentPath) (destination : Option DocumentPath) : Option Nat :=
  match source.kind, destination with
  | .project, none => listed? store source
  | .project, some _ => none
  | _, none => none
  | _, some _ => some 1

/-- **What is written is what is reported**, for sources of any kind, whatever fails. -/
theorem compile_reports (settings : Settings) (source : DocumentPath)
    (destination : Option DocumentPath) (store : σ) :
    Reports (wanted? store source destination)
      ((compile settings source destination false).writes store)
      ((compile settings source destination false).run store).1 := by
  by_cases hkind : source.kind = .project
  · unfold wanted? compile
    rw [hkind]
    cases destination with
    | none => exact compileProject_reports settings source store
    | some path => exact .of_error rfl
  · cases destination with
    | none =>
      unfold wanted? compile
      cases hsource : source.kind with
      | project => exact absurd hsource hkind
      | markdown => exact .of_error rfl
      | directives => exact .of_error rfl
    | some path =>
      have hwanted : wanted? store source (some path) = some 1 := by
        unfold wanted?
        cases hsource : source.kind with
        | project => exact absurd hsource hkind
        | markdown => rfl
        | directives => rfl
      rw [hwanted, compile_of_document settings hkind (.inl rfl), FileM.run_bind, FileM.writes_bind,
        FileM.writes_pure, List.append_nil]
      exact compileDocument_reports settings source path Table.new store

/-! ## A run of the program -/

namespace Command

variable {libraries : Libraries}

/-- A line of the output, with its end. -/
def Line.text? : Line → Option String
  | .output text => some (text ++ "\n")
  | .notice _ => none

theorem Outcome.output_eq (outcome : Outcome) :
    outcome.output = String.join (outcome.lines.filterMap Line.text?) := by
  unfold Outcome.output
  refine congrArg (fun f => String.join (outcome.lines.filterMap f)) (funext fun line => ?_)
  cases line <;> rfl

/-- What a run says of a file that it wrote. -/
def writtenLine (path : String) : String := path ++ " compiled." ++ "\n"

/-- Warnings are no output. -/
theorem text?_compiledLines {document : Compiled} {path : DocumentPath}
    (h : document.destination = some path) :
    (compiledLines false document).filterMap Line.text? = [writtenLine path.text] := by
  have hwarnings : (document.warnings.map fun warning => Line.notice warning.display).filterMap
      Line.text? = [] := by
    rw [List.filterMap_map, List.filterMap_eq_nil_iff]
    exact fun _ _ => rfl
  rw [compiledLines, h, List.filterMap_append, hwarnings]
  rfl

theorem text?_flatMap_compiledLines {documents : List Compiled}
    (h : ∀ document ∈ documents, ∃ path, document.destination = some path) :
    (documents.flatMap (compiledLines false)).filterMap Line.text? =
      (documents.filterMap Compiled.output?).map fun output => writtenLine output.destination := by
  induction documents with
  | nil => rfl
  | cons document rest ih =>
    obtain ⟨path, hpath⟩ := h document List.mem_cons_self
    have houtput : document.output? = some ⟨document.source.text, path.text⟩ := by
      rw [Compiled.output?, hpath]
      rfl
    rw [List.flatMap_cons, List.filterMap_append, text?_compiledLines hpath,
      ih fun other hother => h other (List.mem_cons_of_mem _ hother),
      List.filterMap_cons_some houtput]
    rfl

/-- **The lines of a run are what its result reports**, on success and on failure. -/
theorem output_conclude {result : Except Failure (List Compiled)}
    (h : ∀ documents, result = .ok documents →
      ∀ document ∈ documents, ∃ path, document.destination = some path) :
    (conclude libraries false result).output =
      String.join ((reported result).map fun output => writtenLine output.destination) := by
  rw [Outcome.output_eq]
  refine congrArg String.join ?_
  cases result with
  | ok documents => exact text?_flatMap_compiledLines (h documents rfl)
  | error failure =>
    show (outputLines false failure ++ [Line.notice (libraries.json failure.toJson)]).filterMap Line.text? = _
    rw [List.filterMap_append]
    cases failure with
    | project outputs failures =>
      show (outputs.map _).filterMap Line.text? ++ [] = _
      rw [List.append_nil, List.filterMap_map]
      exact congrFun List.filterMap_eq_map' outputs
    | code message path line column => rfl
    | general message path => rfl

variable (libraries)

/-- The settings that a run goes by. -/
def chosenSettings (directory : String) (options : Options) : FileM (Except Failure Settings) :=
  match options.settings with
  | some path => Settings.load libraries.settings (Path.join directory path)
  | none => Settings.discover libraries.settings directory

theorem compileOptions_eq (directory : String) (options : Options) :
    compileOptions libraries directory options = chosenSettings libraries directory options >>= fun
      | .error failure => pure (.error failure)
      | .ok settings =>
        compile settings (.resolve options.source directory)
          (options.destination.map (DocumentPath.resolve · directory)) options.test := by
  unfold compileOptions chosenSettings
  cases options.settings <;> rfl

theorem ofAnswer_failsAlone (reading : String → Except String Settings) (path : String)
    (answer : Except Refusal String) : FailsAlone (Settings.ofAnswer reading path answer) := by
  cases answer with
  | error refusal => rfl
  | ok text =>
    rw [Settings.ofAnswer]
    cases Settings.ofText reading text with
    | error refused => rfl
    | ok settings => trivial

/-- Finding the settings only reads, and does not fail as a project does. -/
theorem chosenSettings_readsTo (directory : String) (options : Options) :
    (chosenSettings libraries directory options).ReadsTo FailsAlone := by
  unfold chosenSettings
  cases options.settings with
  | some path => exact fun answer => ofAnswer_failsAlone _ _ answer
  | none =>
    intro answer
    cases answer with
    | ok text => exact ofAnswer_failsAlone _ _ (.ok text)
    | error refusal =>
      show FailsAlone (if _ then _ else _)
      split
      · exact ofAnswer_failsAlone _ _ (.error refusal)
      · trivial

/-- How many documents a run is to write, if its settings can be found and that can be told. -/
def asked? (store : σ) (directory : String) (options : Options) : Option Nat :=
  match ((chosenSettings libraries directory options).run store).1 with
  | .error _ => none
  | .ok _ =>
    wanted? store (.resolve options.source directory)
      (options.destination.map (DocumentPath.resolve · directory))

/-- A run that writes has settings, and compiles by them on the store that it found. -/
theorem compileOptions_cases (directory : String) {options : Options} (htest : options.test = false)
    (store : σ) :
    (∃ failure, ((chosenSettings libraries directory options).run store).1 = .error failure ∧
      ((compileOptions libraries directory options).run store).1 = .error failure ∧
      (compileOptions libraries directory options).writes store = []) ∨
    ∃ settings, ((chosenSettings libraries directory options).run store).1 = .ok settings ∧
      (compileOptions libraries directory options).run store =
        (compile settings (.resolve options.source directory)
          (options.destination.map (DocumentPath.resolve · directory)) false).run store ∧
      (compileOptions libraries directory options).writes store =
        (compile settings (.resolve options.source directory)
          (options.destination.map (DocumentPath.resolve · directory)) false).writes store := by
  have hreads := chosenSettings_readsTo libraries directory options
  rw [compileOptions_eq, FileM.run_bind, FileM.writes_bind, hreads.writes_eq_nil store,
    hreads.run_snd store, htest]
  cases ((chosenSettings libraries directory options).run store).1 with
  | error failure => exact .inl ⟨failure, rfl, rfl, rfl⟩
  | ok settings => exact .inr ⟨settings, rfl, rfl, rfl⟩

theorem compileOptions_reports (directory : String) {options : Options} (htest : options.test = false)
    (store : σ) :
    Reports (asked? libraries store directory options) ((compileOptions libraries directory options).writes store)
      ((compileOptions libraries directory options).run store).1 := by
  have hreads := chosenSettings_readsTo libraries directory options
  unfold asked?
  rcases compileOptions_cases libraries directory htest store with ⟨failure, hsettings, hrun, hwrites⟩ |
    ⟨settings, hsettings, hrun, hwrites⟩
  · have halone := hreads.run_fst store
    rw [hsettings] at halone ⊢
    rw [hrun, hwrites]
    exact .of_error halone
  · rw [hsettings, hrun, hwrites]
    exact compile_reports settings _ _ store

/-- What comes through in a run that writes has a destination. -/
theorem exists_destination_of_compileOptions {directory : String} {options : Options}
    (htest : options.test = false) {documents : List Compiled}
    (h : ((compileOptions libraries directory options).run store).1 = .ok documents) :
    ∀ document ∈ documents, ∃ path, document.destination = some path := by
  rcases compileOptions_cases libraries directory htest store with ⟨failure, -, hrun, -⟩ |
    ⟨settings, -, hrun, -⟩
  · exact nomatch hrun.symm.trans h
  · rw [hrun] at h
    exact (compile_outputs (eq_mk_of_fst_eq h)).exists_path

/-- **A run says what it has written**, whatever reads its arguments and its settings and writes its JSON. Of arguments
that name a source and do not only ask to check it: the output of the run has one line for each file that was written, in
the order of the writes, and no other. The exit status is 0 if the run comes through and 1 if anything fails. It is 0
exactly if as many files were written as were asked for: the one of a document, or all that a project lists. -/
theorem run_reports_writes (directory : String) {arguments : List String} {options : Options}
    (harguments : libraries.arguments arguments = .ok options) (htest : options.test = false)
    (store : σ) {outcome : Outcome}
    (houtcome : ((run libraries directory arguments).run store).1 = outcome)
    {writes : List (String × String)}
    (hwrites : (run libraries directory arguments).writes store = writes) :
    outcome.output = String.join (writes.map fun write => write.1 ++ " compiled." ++ "\n") ∧
    (outcome.status = 0 ∨ outcome.status = 1) ∧
    (outcome.status = 0 ↔
      ∃ documents, ((compileOptions libraries directory options).run store).1 = .ok documents) ∧
    (outcome.status = 0 ↔ asked? libraries store directory options = some writes.length) := by
  have hreports := compileOptions_reports libraries directory htest store
  have hrun : run libraries directory arguments =
      compileOptions libraries directory options >>= fun result =>
        pure (conclude libraries false result) := by
    rw [run, harguments, ← htest]
  rw [hrun, FileM.run_bind, FileM.run_pure] at houtcome
  rw [hrun, FileM.writes_bind, FileM.writes_pure, List.append_nil] at hwrites
  have hstatus : (outcome.status = 0 ∨ outcome.status = 1) ∧ (outcome.status = 0 ↔
      ∃ documents, ((compileOptions libraries directory options).run store).1 = .ok documents) := by
    rw [← houtcome]
    cases ((compileOptions libraries directory options).run store).1 <;> simp [conclude]
  rw [hwrites] at hreports
  refine ⟨?_, hstatus.1, hstatus.2, hstatus.2.trans hreports.isOk_iff⟩
  rw [← houtcome, output_conclude fun documents h =>
    exists_destination_of_compileOptions libraries htest h]
  have hpaths := congrArg (fun paths => String.join (paths.map writtenLine)) hreports.paths_eq
  simp only [List.map_map] at hpaths
  exact hpaths.symm

/-- Of three documents one is written and named, and the run fails. -/
theorem run_reports_writes_mixedShelf : ∃ options outcome writes,
    Options.ofArguments ["-s", "p.dlproj"] = .ok options ∧ options.test = false ∧
    ((run .usual "/" ["-s", "p.dlproj"]).run mixedShelf).1 = outcome ∧
    (run .usual "/" ["-s", "p.dlproj"]).writes mixedShelf = writes ∧
    writes.map Prod.fst = ["/z"] ∧ outcome.output = "/z compiled.\n" ∧
    asked? .usual mixedShelf "/" options = some 3 ∧ outcome.status = 1 := by
  obtain ⟨options, harguments⟩ : ∃ options, Options.ofArguments ["-s", "p.dlproj"] = .ok options :=
    ⟨_, rfl⟩
  have hfacts : (Options.ofArguments ["-s", "p.dlproj"]).toOption.map (fun options =>
        (options.test, asked? .usual mixedShelf "/" options)) = some (false, some 3) ∧
      ((run .usual "/" ["-s", "p.dlproj"]).writes mixedShelf).map Prod.fst = ["/z"] := by
    decide +kernel
  obtain ⟨hoptions, hpaths⟩ := hfacts
  rw [harguments] at hoptions
  obtain ⟨htest, hasked⟩ := Prod.mk.inj (Option.some.inj hoptions)
  obtain ⟨houtput, hstatus, -, hasked_iff⟩ :=
    run_reports_writes .usual "/" harguments htest mixedShelf rfl rfl
  refine ⟨options, _, _, harguments, htest, rfl, rfl, hpaths, ?_, hasked, ?_⟩
  · have hlines := congrArg (fun paths => String.join (paths.map writtenLine)) hpaths
    simp only [List.map_map] at hlines
    exact houtput.trans hlines
  · have hlength := congrArg List.length hpaths
    rw [List.length_map] at hlength
    rw [hasked, hlength] at hasked_iff
    exact hstatus.resolve_left fun hzero => nomatch hasked_iff.1 hzero

end Command

end Bindery
