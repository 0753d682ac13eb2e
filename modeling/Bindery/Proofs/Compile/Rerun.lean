import Bindery.Proofs.Compile.Outputs

/-!
# `Proofs.Compile.Rerun` — compiling again changes nothing

What a computation does is told by the answers it gets, and which files it asks for is found out on the way. On another
store that gives the same texts for all files that were read, and takes all that was written, it goes the same way again.
After a run that did not write to a file it had read, the store it leaves is such a store: what was read is still there,
and what was written can be written again. So a source that does not read its own outputs is compiled to the same
documents again, and the store stays as it is.

## Contents
- `Accepts`, `SteadyStore`: stores that keep taking what they took; shelves are steady.
- `FileM.loaded`: the files that a computation reads; `FileM.repeats`: the same answers lead the same way.
- `FileM.run_again`: a computation that does not read what it writes, run twice.
- `not_isRefusal_of_compile`: a source that came through was refused nothing.
- `compile_again`: sources of any kind.
-/

namespace Bindery

/-! ## Stores that keep taking what they took -/

section Stores

variable {σ : Type} [Store σ] {store later : σ}

/-- Texts can be written to the path, now and whatever else is written before. -/
def Accepts (store : σ) (path : String) : Prop :=
  ∀ before text, WrittenFrom store before → (Store.write before path text).isOk = true

theorem Accepts.of_writtenFrom {path : String} (h : Accepts store path)
    (hlater : WrittenFrom store later) : Accepts later path :=
  fun before text hbefore => h before text (hlater.trans hbefore)

theorem Accepts.exists_write {path : String} (h : Accepts store path) (text : String) :
    ∃ after, Store.write store path text = .ok after := by
  have hok := h store text .unchanged
  cases hwrite : Store.write store path text with
  | ok after => exact ⟨after, rfl⟩
  | error refusal =>
    rw [hwrite] at hok
    cases hok

end Stores

/-- A store that gives back what was written to it. What was written once can be written again, and a store in which all
files are as they were is the store that there was. -/
class SteadyStore (σ : Type) [Store σ] : Prop extends LawfulStore σ where
  accepts_of_write {store after : σ} {path text : String} :
    Store.write store path text = .ok after → Accepts after path
  eq_of_read {store later : σ} : WrittenFrom store later →
    (∀ path, Store.read later path = Store.read store path) → later = store

namespace Shelf

/-- Files and what can come of them: each text may have changed where it is found under its path, which no file before
it has, and files under new paths may stand behind them. `seen` are the paths of the files before. -/
inductive Revised : List String → List (String × String) → List (String × String) → Prop where
  | nil {seen : List String} {added : List (String × String)} (hadded : ∀ file ∈ added, file.1 ∉ seen) :
      Revised seen [] added
  | hidden {seen : List String} {path text : String} {files revised : List (String × String)}
      (hseen : path ∈ seen) (hrest : Revised seen files revised) :
      Revised seen ((path, text) :: files) ((path, text) :: revised)
  | found {seen : List String} {path text text' : String} {files revised : List (String × String)}
      (hseen : path ∉ seen) (hrest : Revised (path :: seen) files revised) :
      Revised seen ((path, text) :: files) ((path, text') :: revised)

theorem Revised.refl (seen : List String) (files : List (String × String)) :
    Revised seen files files := by
  induction files generalizing seen with
  | nil => exact .nil (by simp)
  | cons file rest ih =>
    by_cases hseen : file.1 ∈ seen
    · exact .hidden hseen (ih seen)
    · exact .found hseen (ih (file.1 :: seen))

theorem Revised.putFile {seen : List String} {files revised : List (String × String)}
    (h : Revised seen files revised) {path : String} (hpath : path ∉ seen) (text : String) :
    Revised seen files (Shelf.putFile path text revised) := by
  induction h with
  | @nil seen added hadded =>
    refine .nil fun file hfile => ?_
    induction added with
    | nil =>
      cases List.mem_singleton.1 hfile
      exact hpath
    | cons first rest ih =>
      obtain ⟨hfirst, hrest⟩ := List.forall_mem_cons.1 hadded
      rw [Shelf.putFile] at hfile
      split at hfile
      · rcases List.mem_cons.1 hfile with rfl | hfile
        · exact hpath
        · exact hrest file hfile
      · rcases List.mem_cons.1 hfile with rfl | hfile
        · exact hfirst
        · exact ih hrest hfile
  | @hidden seen other _ _ _ hseen _ ih =>
    have hne : other ≠ path := by
      rintro rfl
      exact hpath hseen
    rw [Shelf.putFile, if_neg hne]
    exact .hidden hseen (ih hpath)
  | @found seen other _ _ _ _ hseen hrest ih =>
    by_cases heq : other = path
    · subst heq
      rw [Shelf.putFile, if_pos rfl]
      exact .found hseen hrest
    · rw [Shelf.putFile, if_neg heq]
      exact .found hseen (ih (by simp [hpath, Ne.symm heq]))

/-- Files that are found as they were are what they were. -/
theorem Revised.eq {seen : List String} {files revised : List (String × String)}
    (h : Revised seen files revised)
    (hsame : ∀ path, path ∉ seen → textAt? path revised = textAt? path files) : revised = files := by
  induction h with
  | @nil seen added hadded =>
    cases added with
    | nil => rfl
    | cons file rest =>
      -- a file that was added would be found, and there was none
      have hfound := hsame file.1 (hadded file List.mem_cons_self)
      rw [textAt?_cons_self] at hfound
      cases hfound
  | @hidden seen path text files revised hseen _ ih =>
    have hrest : revised = files := by
      refine ih fun other hother => ?_
      have hne : path ≠ other := by
        rintro rfl
        exact hother hseen
      have hcons := hsame other hother
      rwa [textAt?_cons_of_ne hne, textAt?_cons_of_ne hne] at hcons
    rw [hrest]
  | @found seen path text text' files revised hseen _ ih =>
    have htext := hsame path hseen
    rw [textAt?_cons_self, textAt?_cons_self] at htext
    have hrest : revised = files := by
      refine ih fun other hother => ?_
      obtain ⟨hne, hnew⟩ : other ≠ path ∧ other ∉ seen := by simpa using hother
      have hcons := hsame other hnew
      rwa [textAt?_cons_of_ne (Ne.symm hne), textAt?_cons_of_ne (Ne.symm hne)] at hcons
    rw [Option.some.inj htext, hrest]

theorem revised_of_writtenFrom {shelf after : Shelf} (h : WrittenFrom shelf after) :
    Revised [] shelf.files after.files := by
  induction h with
  | unchanged => exact .refl [] shelf.files
  | @write before after path text _ hwrite ih =>
    rw [write_eq_ok hwrite]
    exact ih.putFile List.not_mem_nil text

theorem textAt?_eq_of_read {shelf after : Shelf} {path : String}
    (h : Store.read after path = Store.read shelf path) :
    textAt? path after.files = textAt? path shelf.files := by
  have hread (shelf : Shelf) : (Store.read shelf path).toOption = textAt? path shelf.files := by
    cases htext : textAt? path shelf.files <;> simp only [Store.read, get?, htext] <;> rfl
  rw [← hread, ← hread, h]

instance : SteadyStore Shelf where
  accepts_of_write {shelf after path text} h before text' hbefore := by
    have hfree : ¬ shelf.readOnly.contains path = true := by
      intro hlocked
      have hput : (if shelf.readOnly.contains path then _ else .ok (shelf.put path text)) =
          Except.ok after := h
      rw [if_pos hlocked] at hput
      cases hput
    have hsame : before.readOnly = shelf.readOnly := by
      rw [readOnly_of_writtenFrom hbefore, write_eq_ok h]
      rfl
    show (if before.readOnly.contains path then _ else .ok (before.put path text') :
      Except SaveRefusal Shelf).isOk = true
    rw [hsame, if_neg hfree]
    rfl
  eq_of_read {shelf later} h hsame := by
    have hfiles := (revised_of_writtenFrom h).eq fun path _ => textAt?_eq_of_read (hsame path)
    have hlocked := readOnly_of_writtenFrom h
    cases later
    cases shelf
    simp_all

end Shelf

/-! ## The same answers lead the same way -/

/-- The path of a file that was read. -/
def Event.loaded? : Event → Option String
  | .read path _ => some path
  | _ => none

namespace FileM

variable {σ : Type} [Store σ] {store later other : σ}

/-- The paths of the files that a computation reads, in order. -/
def loaded (x : FileM α) (store : σ) : List String := (x.events store).filterMap Event.loaded?

theorem writtenFrom_run (x : FileM α) (store : σ) : WrittenFrom store (x.run store).2 := by
  induction x generalizing store with
  | done value => exact .unchanged
  | read path chain next ih => exact ih _ store
  | write path text next ih =>
    rw [run]
    cases hwrite : Store.write store path text with
    | ok after => exact (WrittenFrom.write .unchanged hwrite).trans (ih _ after)
    | error refusal => exact ih _ store

/-- A computation goes the same way on a store that gives the same texts for what it read, and accepts what it wrote. -/
theorem repeats [LawfulStore σ] {x : FileM α}
    (hnone : ∀ event ∈ x.events store, event.isRefusal = false)
    (hapart : ∀ write ∈ x.writes store, write.1 ∉ x.loaded store)
    (hread : ∀ path ∈ x.loaded store, Store.read other path = Store.read store path)
    (haccepts : ∀ write ∈ x.writes store, Accepts other write.1) :
    (x.run other).1 = (x.run store).1 ∧ x.events other = x.events store := by
  unfold loaded at hapart hread
  induction x generalizing store other with
  | done value => exact ⟨rfl, rfl⟩
  | read path chain next ih =>
    simp only [events, writes, run, List.filterMap_cons, Event.loaded?, List.mem_cons] at *
    have hanswer : Store.read other path = Store.read store path := hread path (.inl rfl)
    obtain ⟨hrun, hevents⟩ := ih (Store.read store path)
      (fun event hevent => hnone event (.inr hevent))
      (fun write hwrite hmem => hapart write hwrite (.inr hmem))
      (fun path hpath => hread path (.inr hpath)) haccepts
    rw [hanswer]
    exact ⟨hrun, by rw [hevents]⟩
  | write path text next ih =>
    cases hwrite : Store.write store path text with
    | error refusal =>
      -- a refused write is among the events
      simp only [events, hwrite, List.mem_cons] at hnone
      cases hnone _ (.inl rfl)
    | ok after =>
      simp only [events, writes, run, hwrite, List.filterMap_cons, Event.loaded?, List.mem_cons]
        at hnone hapart hread haccepts ⊢
      have haccept : Accepts other path := haccepts (path, text) (.inl rfl)
      obtain ⟨after', hwrite'⟩ := haccept.exists_write text
      have hfrom : WrittenFrom other after' := .write .unchanged hwrite'
      -- what is read later is not what is written here, so that both stores still agree on it
      have hread' : ∀ p ∈ ((next (.ok ())).events after).filterMap Event.loaded?,
          Store.read after' p = Store.read after p := by
        intro p hp
        have hne : p ≠ path := by
          rintro rfl
          exact hapart (p, text) (.inl rfl) hp
        rw [LawfulStore.read_write_of_ne hwrite' hne, LawfulStore.read_write_of_ne hwrite hne]
        exact hread p hp
      obtain ⟨hrun, hevents⟩ := ih (.ok ())
        (fun event hevent => hnone event (.inr hevent))
        (fun write hmem => hapart write (.inr hmem)) hread'
        (fun write hmem => (haccepts write (.inr hmem)).of_writtenFrom hfrom)
      rw [hwrite']
      refine ⟨hrun, ?_⟩
      dsimp only
      rw [hevents]

/-- What a computation has written can be written again when it is done. -/
theorem accepts_of_mem_writes [SteadyStore σ] {x : FileM α} {write : String × String}
    (h : write ∈ x.writes store) : Accepts (x.run store).2 write.1 := by
  induction x generalizing store with
  | done value => cases h
  | read path chain next ih => exact ih _ h
  | write path text next ih =>
    rw [writes] at h
    rw [run]
    cases hwrite : Store.write store path text with
    | error refusal =>
      rw [hwrite] at h
      exact ih _ h
    | ok after =>
      rw [hwrite] at h
      rcases List.mem_cons.1 h with rfl | h
      · exact (SteadyStore.accepts_of_write hwrite).of_writtenFrom (writtenFrom_run _ after)
      · exact ih _ h

/-- **A computation that does not read what it writes, and is refused nothing, can be run again**: it comes to the same
value by the same events, and the store stays as the first run left it. -/
theorem run_again [SteadyStore σ] {x : FileM α} {value : α} (h : x.run store = (value, later))
    (hnone : ∀ event ∈ x.events store, event.isRefusal = false)
    (hapart : ∀ write ∈ x.writes store, write.1 ∉ x.loaded store) :
    x.run later = (value, later) ∧ x.events later = x.events store := by
  have hlater : (x.run store).2 = later := congrArg Prod.snd h
  have hkept : ∀ path ∈ x.loaded store, Store.read later path = Store.read store path := by
    intro path hpath
    have hunwritten : lastWritten? path (x.writes store) = none := by
      refine lastWritten?_eq_none fun write hwrite heq => ?_
      rw [← heq] at hpath
      exact hapart write hwrite hpath
    rw [← hlater, read_run, hunwritten]
  have haccepts : ∀ write ∈ x.writes store, Accepts later write.1 := by
    intro write hwrite
    rw [← hlater]
    exact accepts_of_mem_writes hwrite
  obtain ⟨hvalue, hevents⟩ := repeats hnone hapart hkept haccepts
  have hwrites : x.writes later = x.writes store := by rw [writes_eq, writes_eq, hevents]
  -- what the second run writes last to a path is what the first run wrote last to it
  have hsame : (x.run later).2 = later := by
    refine SteadyStore.eq_of_read (writtenFrom_run x later) fun path => ?_
    rw [read_run, hwrites]
    cases hlast : lastWritten? path (x.writes store) with
    | none => rfl
    | some text =>
      rw [← hlater, read_run, hlast]
  refine ⟨?_, hevents⟩
  rw [h] at hvalue
  exact Prod.ext hvalue hsame

end FileM

/-! ## Sources that came through -/

variable {σ : Type} [Store σ] {store later : σ} {settings : Settings} {test : Bool}

theorem FileM.ReadsTo.not_isRefusal {P : α → Prop} {x : FileM α} (h : x.ReadsTo P) (store : σ)
    {event : Event} (hevent : event ∈ x.events store) : event.isRefusal = false := by
  obtain ⟨path, chain, rfl⟩ := h.eq_read store hevent
  rfl

theorem Delivers.not_isRefusal {laid : Except Failure Compiled} {compiled : Compiled}
    {events : List Event} (h : Delivers test store laid (.ok compiled) later events) {event : Event}
    (hevent : event ∈ events) : event.isRefusal = false := by
  cases h with
  | checked hlaid htest => cases hevent
  | written hlaid htest hpath hwrite =>
    cases List.mem_singleton.1 hevent
    rfl

theorem not_isRefusal_of_writeAll {table : Table} {parsed : List Parsed} {compiled : List Compiled}
    (h : (writeAll table test parsed).run store = ((compiled, []), later)) {event : Event}
    (hevent : event ∈ (writeAll table test parsed).events store) : event.isRefusal = false := by
  induction parsed generalizing store compiled with
  | nil => cases hevent
  | cons first rest ih =>
    obtain ⟨document, others, between, hfirst, hrest, -⟩ := writeAll_cons_eq_iff.1 h
    have hdelivers := writeOne_delivers table test first store
    rw [events_writeAll_cons] at hevent
    rw [hfirst] at hdelivers hevent
    rcases List.mem_append.1 hevent with hevent | hevent
    · exact hdelivers.not_isRefusal hevent
    · exact ih hrest hevent

theorem not_isRefusal_of_compileProject {path : DocumentPath} {documents : List Compiled}
    (h : (compileProject settings path test).run store = (.ok documents, later)) {event : Event}
    (hevent : event ∈ (compileProject settings path test).events store) : event.isRefusal = false := by
  obtain ⟨text, project, htext, hproject, h⟩ := compileProject_eq_iff.1 h
  obtain ⟨registered, parsed, table, between, hids, hparse, hwrite⟩ := compileDocuments_eq_iff.1 h
  have hreads := parseAll_readsTo settings project.documents registered
  rw [(compileProject_of_ofText settings test htext hproject).2.1,
    compileDocuments_of_registerIds settings test hids, FileM.events_bind, hparse,
    FileM.events_bind, FileM.events_pure, List.append_nil] at hevent
  rcases List.mem_cons.1 hevent with rfl | hevent
  · rfl
  rcases List.mem_append.1 hevent with hevent | hevent
  · exact hreads.not_isRefusal store hevent
  · exact not_isRefusal_of_writeAll hwrite hevent

theorem not_isRefusal_of_compileDocument {source : DocumentPath} {destination : Option DocumentPath}
    {table : Table} {compiled : Compiled}
    (h : (((compileDocument settings source destination test).exec table).run store).1.1 =
      .ok compiled) {event : Event}
    (hevent : event ∈ ((compileDocument settings source destination test).exec table).events store) :
    event.isRefusal = false := by
  obtain ⟨events, hdelivers, hevents⟩ :=
    compileDocument_delivers settings source destination test table store
  rw [h] at hdelivers
  rw [hevents] at hevent
  rcases List.mem_append.1 hevent with hevent | hevent
  · exact (parseSource_readsTo settings source destination table).not_isRefusal store hevent
  · exact hdelivers.not_isRefusal hevent

/-- **A source that came through was refused nothing.** -/
theorem not_isRefusal_of_compile {source : DocumentPath} {destination : Option DocumentPath}
    {documents : List Compiled}
    (h : (compile settings source destination test).run store = (.ok documents, later))
    {event : Event} (hevent : event ∈ (compile settings source destination test).events store) :
    event.isRefusal = false := by
  by_cases hkind : source.kind = .project
  · cases destination with
    | some path =>
      obtain ⟨failure, hfailure⟩ := compile_project_some settings path hkind
      rw [hfailure] at h
      cases h
    | none =>
      rw [compile_project_none settings test hkind] at h hevent
      exact not_isRefusal_of_compileProject h hevent
  · by_cases hcase : destination.isSome = true ∨ test = true
    · rw [compile_of_document settings hkind hcase] at h hevent
      rw [FileM.run_bind] at h
      rw [FileM.events_bind, FileM.events_pure, List.append_nil] at hevent
      obtain ⟨compiled, hcompiled, -⟩ := except_map_eq_ok.1 (congrArg Prod.fst h)
      exact not_isRefusal_of_compileDocument hcompiled hevent
    · obtain ⟨hnone, htest⟩ := not_or.1 hcase
      cases Option.not_isSome_iff_eq_none.1 hnone
      cases Bool.eq_false_iff.2 htest
      obtain ⟨failure, hfailure⟩ := compile_document_none settings hkind
      rw [hfailure] at h
      cases h

/-- **Compiling again changes nothing.** If a source came through, and no file that was read for it was written, it comes
to the same documents when it is compiled once more. The same is read and the same is written, and the store stays as it
is.

This is about stores that keep files by the texts of their paths, as a shelf does. On a disk a file that was read can be
written by another path to it. -/
theorem compile_again [SteadyStore σ] {source : DocumentPath} {destination : Option DocumentPath}
    {documents : List Compiled}
    (h : (compile settings source destination false).run store = (.ok documents, later))
    (hapart : ∀ write ∈ (compile settings source destination false).writes store,
      write.1 ∉ (compile settings source destination false).loaded store) :
    (compile settings source destination false).run later = (.ok documents, later) ∧
      (compile settings source destination false).writes later =
        (compile settings source destination false).writes store ∧
      (compile settings source destination false).events later =
        (compile settings source destination false).events store := by
  have hnone : ∀ event ∈ (compile settings source destination false).events store,
      event.isRefusal = false := fun _ hevent => not_isRefusal_of_compile h hevent
  obtain ⟨hrun, hevents⟩ := FileM.run_again h hnone hapart
  refine ⟨hrun, ?_, hevents⟩
  rw [FileM.writes_eq, FileM.writes_eq, hevents]

/-- A shelf with a project that gives one output twice; the first of its documents includes another. -/
def settledShelf : Shelf where
  files :=
    [("/p.dlproj",
      "(documents (document (source a.md) (output x)) (document (source b.md) (output x)))"),
     ("/a.md", "<!-- (dl (section-meta (title A) (include (part c.md))) (content)) -->"),
     ("/b.md", "B"), ("/c.md", "C")]
  readOnly := []

/-- Four files are read and one is written twice. Both runs report the same, though each writes a text that the next write
replaces. -/
theorem compile_again_settledShelf : ∃ documents later,
    (compile {} (.resolve "/p.dlproj" "/") none false).run settledShelf = (.ok documents, later) ∧
    documents.map (·.source.text) = ["/a.md", "/b.md"] ∧
    (compile {} (.resolve "/p.dlproj" "/") none false).loaded settledShelf =
      ["/p.dlproj", "/a.md", "/c.md", "/b.md"] ∧
    ((compile {} (.resolve "/p.dlproj" "/") none false).writes settledShelf).map Prod.fst =
      ["/x", "/x"] ∧
    (compile {} (.resolve "/p.dlproj" "/") none false).run later = (.ok documents, later) ∧
    (compile {} (.resolve "/p.dlproj" "/") none false).writes later =
      (compile {} (.resolve "/p.dlproj" "/") none false).writes settledShelf := by
  have hfacts : ((compile {} (.resolve "/p.dlproj" "/") none false).run settledShelf).1.toOption.map
        (List.map fun document => document.source.text) = some ["/a.md", "/b.md"] ∧
      (compile {} (.resolve "/p.dlproj" "/") none false).loaded settledShelf =
        ["/p.dlproj", "/a.md", "/c.md", "/b.md"] ∧
      ((compile {} (.resolve "/p.dlproj" "/") none false).writes settledShelf).map Prod.fst =
        ["/x", "/x"] := by
    decide +kernel
  obtain ⟨hsome, hloaded, hwritten⟩ := hfacts
  obtain ⟨documents, hok, hsources⟩ := exists_ok_of_map hsome
  have hapart : ∀ write ∈ (compile {} (.resolve "/p.dlproj" "/") none false).writes settledShelf,
      write.1 ∉ (compile {} (.resolve "/p.dlproj" "/") none false).loaded settledShelf := by
    intro write hwrite
    have hpath : write.1 = "/x" := by
      have hmem : write.1 ∈ ["/x", "/x"] := hwritten ▸ List.mem_map_of_mem hwrite
      simpa using hmem
    rw [hloaded, hpath]
    decide
  have hrun := eq_mk_of_fst_eq hok
  obtain ⟨hagain, hwrites, -⟩ := compile_again hrun hapart
  exact ⟨documents, _, hrun, hsources, hloaded, hwritten, hagain, hwrites⟩

end Bindery
