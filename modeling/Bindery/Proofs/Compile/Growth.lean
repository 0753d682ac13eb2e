import Bindery.Proofs.Compile.Parsing
import Bindery.Proofs.Section.Evolution

/-!
# `Proofs.Compile.Growth` — tables grow, whatever fails

A document that cannot be read leaves traces all the same: the ids and the warnings up to its fault. So what the next
document finds in the table is not told by the successes before it. Still no step takes anything away. Following includes
leaves a sound table grown by some ids and warnings, on success and on failure alike, and reading the documents of a project
never writes to the store.

## Contents
- `Table.Grows`: a table gained something, whatever it is; `Table.Evolves.grows`: so it does when includes are followed.
- `parseSource_readsTo`, `parseOne_readsTo`, `parseAll_readsTo`: reading documents only reads.
- `parseOne_grows`, `parseAll_grows`: reading the documents of a project, some of which may fail.
-/

namespace Bindery

/-! ## Tables -/

/-- The table `after` knows all that `table` does, and perhaps more ids and warnings. -/
def Table.Grows (table after : Table) : Prop := ∃ pairs given, table.Gains pairs given after

namespace Table

variable {table middle after start : Table}

theorem Gains.grows {pairs : List (String × Target)} {given : List Warning}
    (h : table.Gains pairs given after) : table.Grows after := ⟨pairs, given, h⟩

theorem Grows.refl (h : table.Sound) : table.Grows table := (Gains.refl h).grows

theorem Grows.trans (h : table.Grows middle) (h' : middle.Grows after) : table.Grows after := by
  obtain ⟨_, _, hgains⟩ := h
  obtain ⟨_, _, hmore⟩ := h'
  exact (hgains.trans hmore).grows

theorem Grows.sound (h : table.Grows after) : after.Sound := by
  obtain ⟨_, _, hgains⟩ := h
  exact hgains.sound

/-- Warnings are added at the end of the list. -/
theorem Grows.isPrefix_warnings (h : table.Grows after) : table.warnings <+: after.warnings := by
  obtain ⟨_, given, hgains⟩ := h
  exact ⟨given, hgains.warnings.symm⟩

/-- A table that grew in a scope of its own has grown when that is closed. -/
theorem Opens.close_grows (h : table.Opens start) (hgrows : start.Grows after) :
    table.Grows (after.keep table.inner.length) := by
  obtain ⟨_, _, hgains⟩ := hgrows
  exact (h.close hgains).grows

end Table

/-! ## Following includes -/

/-- **A sound table that changes by the steps of following includes has grown.** -/
theorem Table.Evolves.grows {table after : Table} (h : table.Evolves after) (hsound : table.Sound) :
    table.Grows after := by
  induction h with
  | refl table => exact .refl hsound
  | trans _ _ ih ih' =>
    have hfirst := ih hsound
    exact hfirst.trans (ih' hfirst.sound)
  | author table name => exact (Table.appendGlobal_authors_gains hsound name).grows
  | register hid hregister => exact (Table.register_gains hsound hid hregister).grows
  | warn table warning => exact (Table.warn_gains hsound warning).grows
  | within source _ ih =>
    have hopens := Table.opens_entering hsound source
    exact hopens.close_grows (ih hopens.sound)

/-! ## The documents of a project -/

variable {σ : Type} [Store σ] {store later : σ} {settings : Settings} {table after : Table}

theorem parseSource_readsTo (settings : Settings) (source : DocumentPath)
    (destination : Option DocumentPath) (table : Table) :
    ((parseSource settings source destination).exec table).ReadsTo fun result =>
      (table.setCurrent source (destination.getD source)).Evolves result.2 :=
  resolve_evolves source _

theorem parseOne_readsTo (settings : Settings) (document : ProjectDocument) (table : Table) :
    ((parseOne settings document).exec table).ReadsTo fun result =>
      (table.setCurrent document.source document.output).Evolves result.2 := by
  -- once source and output are noted, all that is left to do is to follow includes
  have hrest (before : Nat) : CompileM.Evolves (do
      let tree ← Section.resolve settings document.source
      return (⟨document, tree, (← get).warnings.drop before⟩ : Parsed)) :=
    (resolve_evolves document.source).bind fun _ =>
      CompileM.evolves_get.bind fun _ => CompileM.evolves_pure _
  exact hrest table.warnings.length _

theorem inScope_parseOne_readsTo (settings : Settings) (document : ProjectDocument) (table : Table) :
    ((CompileM.inScope (parseOne settings document)).exec table).ReadsTo fun result =>
      ∃ inner, (table.push.setCurrent document.source document.output).Evolves inner ∧
        result.2 = inner.keep table.inner.length :=
  (parseOne_readsTo settings document table.push).bind fun result hresult =>
    FileM.readsTo_pure ⟨result.2, hresult, rfl⟩

/-- Reading the documents of a project writes nothing, whichever of them fail. -/
theorem parseAll_readsTo (settings : Settings) (documents : List ProjectDocument) (table : Table) :
    (parseAll settings documents table).ReadsTo fun _ => True := by
  induction documents generalizing table with
  | nil => exact FileM.readsTo_pure trivial
  | cons document rest ih =>
    rw [parseAll]
    refine (inScope_parseOne_readsTo settings document table).bind fun first _ => ?_
    refine (ih first.2).bind fun others _ => ?_
    obtain ⟨result, middle⟩ := first
    cases result <;> exact FileM.readsTo_pure trivial

/-- What reading a document of a project does to the scope that it is noted in. -/
theorem parseOne_grows (store : σ) (settings : Settings) {document : ProjectDocument}
    (hsound : (table.setCurrent document.source document.output).Sound) :
    (table.setCurrent document.source document.output).Grows
      (((parseOne settings document).exec table).run store).1.2 :=
  ((parseOne_readsTo settings document table).run_fst store).grows hsound

theorem inScope_parseOne_grows (store : σ) (settings : Settings) (document : ProjectDocument)
    (hsound : table.Sound) :
    (((CompileM.inScope (parseOne settings document)).exec table).run store).2 = store ∧
      table.Grows (((CompileM.inScope (parseOne settings document)).exec table).run store).1.2 := by
  have hreads := inScope_parseOne_readsTo settings document table
  have hopens := Table.opens_setCurrent hsound document.source document.output
  obtain ⟨inner, hinner, hclosed⟩ := hreads.run_fst store
  rw [hclosed]
  exact ⟨hreads.run_snd store, hopens.close_grows (hinner.grows hopens.sound)⟩

/-- Ids that did not clash with what a table knows do not clash with each other. -/
theorem Table.Consistent.new {pairs : List (String × Target)} (h : table.Consistent pairs) :
    Table.new.Consistent pairs := by
  intro id target other htarget hother
  rw [Table.id?_new] at htarget hother
  exact h id target other (.inr (htarget.resolve_left nofun)) (.inr (hother.resolve_left nofun))

/-- **Documents that were read have been completed**, each with ids that do not clash with each other, whichever of the
others failed. -/
theorem parseAll_grows (hsound : table.Sound) {documents : List ProjectDocument}
    {parsed : List Parsed} {unread : List Failure}
    (h : (parseAll settings documents table).run store = (((parsed, unread), after), later)) :
    later = store ∧ table.Grows after ∧ ∀ p ∈ parsed, ∃ study : Study, study.document ∈ documents ∧
      study.Completes store settings ∧ Table.new.Consistent study.pairs ∧ p = study.parsed := by
  induction documents generalizing table store parsed unread with
  | nil =>
    cases h
    exact ⟨rfl, .refl hsound, by simp⟩
  | cons document rest ih =>
    obtain ⟨result, middle, between, ⟨others, failures⟩, hfirst, hrest, hresults⟩ :=
      parseAll_cons_run_iff.1 h
    obtain ⟨hstore, hgrows⟩ := inScope_parseOne_grows store settings document hsound
    rw [hfirst] at hstore hgrows
    cases (show between = store from hstore)
    -- the others are read on the same store, with a table that the first one may have changed
    obtain ⟨rfl, hmore, hothers⟩ := ih hgrows.sound hrest
    refine ⟨rfl, hgrows.trans hmore, fun p hp => ?_⟩
    have hmem : p ∈ (addResult result (others, failures)).1 := hresults ▸ hp
    rcases mem_addResult_iff.1 hmem with rfl | hp
    · obtain ⟨-, study, rfl, hcompletes, rfl, hgains⟩ := parseOne_gains hsound hfirst
      exact ⟨study, List.mem_cons_self, hcompletes, hgains.consistent.new, rfl⟩
    · obtain ⟨study, hmem, hstudy⟩ := hothers p hp
      exact ⟨study, List.mem_cons_of_mem _ hmem, hstudy⟩

end Bindery
