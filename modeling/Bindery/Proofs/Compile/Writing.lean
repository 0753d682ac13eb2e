import Bindery.Compile
import Bindery.Proofs.Compile.Parsing
import Bindery.Proofs.Storage.Events

/-!
# `Proofs.Compile.Writing` — writing the documents of a project

What a document is laid out as depends on the table only by the links to ids. Documents are laid out and written one after
the other, and nothing is read in between; so whether all come through depends on each of them alone, as long as what was
written before is not in the way of a write.

## Contents
- `render_congr`: two tables that give the same links give the same texts.
- `Parsed.laidOut`: a document ready to be written; `laidOutAs_congr`.
- `WrittenFrom`: the stores that can come of a store.
- `laidOut_of_writeAll`, `exists_writeAll`: all documents come through if each is laid out and can be written.
-/

namespace Bindery

variable {σ : Type} [Store σ] {store later : σ} {table other : Table}

/-! ## Laying out -/

namespace Section

theorem nodeEmissions_congr (h : table.linkTo = other.linkTo) (depth : Nat)
    (includes : List (Entry × Option Section)) (included : Except Fault (List Emission))
    (node : Node) :
    nodeEmissions table depth includes included node =
      nodeEmissions other depth includes included node := by
  cases node with
  | pathTo id location => rw [nodeEmissions, nodeEmissions, h]
  | title name label link subtitle location => cases subtitle <;> rfl
  | tableOfContents label style location => cases label <;> cases style <;> rfl
  | prose value location => rfl
  | heading level text location => rfl
  | content location => rfl

theorem nodesEmissions_congr (h : table.linkTo = other.linkTo) (depth : Nat)
    (includes : List (Entry × Option Section)) (included : Except Fault (List Emission))
    (nodes : List Node) :
    nodesEmissions table depth includes included nodes =
      nodesEmissions other depth includes included nodes := by
  induction nodes with
  | nil => rfl
  | cons node rest ih => rw [nodesEmissions, nodesEmissions, nodeEmissions_congr h, ih]

mutual

theorem emissions_congr (h : table.linkTo = other.linkTo) :
    (tree : Section) → tree.emissions table = tree.emissions other
  | ⟨start, nodes, includes⟩ => by
    rw [emissions, emissions, includedEmissions_congr h includes, nodesEmissions_congr h]

theorem includedEmissions_congr (h : table.linkTo = other.linkTo) :
    (includes : List (Entry × Option Section)) →
      includedEmissions table includes = includedEmissions other includes
  | [] => rfl
  | (_, none) :: rest => by
    rw [includedEmissions, includedEmissions, includedEmissions_congr h rest]
  | (_, some document) :: rest => by
    rw [includedEmissions, includedEmissions, emissions_congr h document,
      includedEmissions_congr h rest]

end

end Section

theorem Table.linkTo_congr (hids : ∀ id, table.id? id = other.id? id)
    (hcurrent : table.current? = other.current?) : table.linkTo = other.linkTo := by
  funext id location
  rw [Table.linkTo, Table.linkTo, hids, hcurrent]

/-- Two tables that give the same links give the same texts. -/
theorem render_congr (h : table.linkTo = other.linkTo) (tree : Option Section) :
    render table tree = render other tree := by
  cases tree with
  | none => rfl
  | some tree => rw [render, render, Section.emissions_congr h]

/-- What a document comes to when it is laid out with what a table knows. -/
def laidOutAs (table : Table) (source output : DocumentPath) (tree : Option Section)
    (warnings : List Warning) : Except Fault Compiled :=
  (render (table.push.setCurrent source output) tree).map fun text =>
    ⟨source, some output, text, warnings⟩

/-- A document that was read, laid out and ready to be written. -/
def Parsed.laidOut (table : Table) (parsed : Parsed) : Except Fault Compiled :=
  laidOutAs table parsed.document.source parsed.document.output parsed.tree parsed.warnings

theorem Table.current?_setCurrent (table : Table) (source destination : DocumentPath) :
    (table.setCurrent source destination).current? = some destination := by
  rw [Table.current?, Table.destination?_setCurrent]
  rfl

/-- What a scope notes about the current document stands for no id. -/
theorem Table.id?_setCurrent_congr (hids : ∀ id, table.id? id = other.id? id)
    (source destination : DocumentPath) (id : String) :
    (table.push.setCurrent source destination).id? id =
      (other.push.setCurrent source destination).id? id := by
  rw [setCurrent, setCurrent]
  by_cases hdestination : id = destinationKey
  · subst hdestination
    rw [id?, id?, get?_set_self, get?_set_self]
  · rw [id?_congr (column_set_of_ne _ _ hdestination), id?_congr (column_set_of_ne _ _ hdestination)]
    by_cases hsource : id = sourceKey
    · subst hsource
      rw [id?, id?, get?_set_self, get?_set_self]
    · rw [id?_congr (column_set_of_ne _ _ hsource), id?_congr (column_set_of_ne _ _ hsource),
        id?_push, id?_push, hids]

/-- Of all that a table knows, only its ids matter to how a document is laid out. -/
theorem laidOutAs_congr (hids : ∀ id, table.id? id = other.id? id) (source output : DocumentPath)
    (tree : Option Section) (warnings : List Warning) :
    laidOutAs table source output tree warnings = laidOutAs other source output tree warnings := by
  have hlinks : (table.push.setCurrent source output).linkTo =
      (other.push.setCurrent source output).linkTo := by
    refine Table.linkTo_congr (Table.id?_setCurrent_congr hids source output) ?_
    rw [Table.current?_setCurrent, Table.current?_setCurrent]
  rw [laidOutAs, laidOutAs, render_congr hlinks]

/-! ## Writing -/

/-- The stores that can come of a store by writing to it. -/
inductive WrittenFrom (store : σ) : σ → Prop where
  | unchanged : WrittenFrom store store
  | write {before after : σ} {path text : String} (hbefore : WrittenFrom store before)
      (hwrite : Store.write before path text = .ok after) : WrittenFrom store after

theorem WrittenFrom.trans {middle last : σ} (h : WrittenFrom store middle)
    (h' : WrittenFrom middle last) : WrittenFrom store last := by
  induction h' with
  | unchanged => exact h
  | write _ hwrite ih => exact .write ih hwrite

theorem save_eq_iff {path : DocumentPath} {text written : String} :
    (FileM.save path text).run store = (.ok written, later) ↔
      text = written ∧ Store.write store path.text text = .ok later := by
  rcases FileM.save_cases path text store with ⟨after, hwrite, hrun, -⟩ |
    ⟨refusal, failure, hwrite, hrun, -⟩
  · simp [hrun, hwrite]
  · simp [hrun, hwrite]

theorem writeOne_eq_iff {test : Bool} {parsed : Parsed} {compiled : Compiled} :
    (writeOne table test parsed).run store = (.ok compiled, later) ↔
      parsed.laidOut table = .ok compiled ∧
        if test then later = store
        else Store.write store parsed.document.output.text compiled.text = .ok later := by
  unfold writeOne Parsed.laidOut laidOutAs
  dsimp only
  cases render (table.push.setCurrent parsed.document.source parsed.document.output)
      parsed.tree with
  | error fault =>
    constructor
    · intro h
      cases h
    · rintro ⟨⟨⟩, -⟩
  | ok text =>
    cases test with
    | true =>
      show (Except.ok _, store) = (Except.ok compiled, later) ↔
        Except.ok _ = Except.ok compiled ∧ later = store
      simp [eq_comm]
    | false =>
      show (FileM.save parsed.document.output text >>= fun saved => pure (saved.map _)).run store =
          (Except.ok compiled, later) ↔ Except.ok _ = Except.ok compiled ∧ Store.write _ _ _ = _
      rw [FileM.run_bind, FileM.run_pure]
      rcases hsave : (FileM.save parsed.document.output text).run store with ⟨result, after⟩
      constructor
      · intro h
        cases result with
        | error failure => cases h
        | ok written =>
          cases h
          obtain ⟨rfl, hwrite⟩ := save_eq_iff.1 hsave
          exact ⟨rfl, hwrite⟩
      · rintro ⟨⟨⟩, hwrite⟩
        cases hsave.symm.trans (save_eq_iff.2 ⟨rfl, hwrite⟩)
        rfl

/-- What comes through and what does not, with the first document taken apart from the others. -/
theorem writeAll_cons_run_iff {test : Bool} {parsed : Parsed} {rest : List Parsed}
    {results : List Compiled × List Failure} :
    (writeAll table test (parsed :: rest)).run store = (results, later) ↔
      ∃ result between others, (writeOne table test parsed).run store = (result, between) ∧
        (writeAll table test rest).run between = (others, later) ∧
        results = addResult result others := by
  rw [writeAll, FileM.run_bind]
  rcases (writeOne table test parsed).run store with ⟨result, between⟩
  dsimp only
  rw [FileM.run_bind]
  rcases hrest : (writeAll table test rest).run between with ⟨others, last⟩
  constructor
  · intro h
    refine ⟨result, between, others, rfl, ?_⟩
    cases result with
    | error failure =>
      cases h
      exact ⟨hrest, rfl⟩
    | ok first =>
      cases h
      exact ⟨hrest, rfl⟩
  · rintro ⟨_, _, _, ⟨⟩, hothers, rfl⟩
    cases hrest.symm.trans hothers
    cases result <;> rfl

/-- All documents come through if the first does and the others do. -/
theorem writeAll_cons_eq_iff {test : Bool} {parsed : Parsed} {rest : List Parsed}
    {compiled : List Compiled} :
    (writeAll table test (parsed :: rest)).run store = ((compiled, []), later) ↔
      ∃ first others between, (writeOne table test parsed).run store = (.ok first, between) ∧
        (writeAll table test rest).run between = ((others, []), later) ∧
        compiled = first :: others := by
  rw [writeAll_cons_run_iff]
  constructor
  · rintro ⟨_, between, _, hfirst, hrest, hresults⟩
    obtain ⟨first, others, rfl, rfl, rfl⟩ := addResult_eq_nil_iff.1 hresults.symm
    exact ⟨first, others, between, hfirst, hrest, rfl⟩
  · rintro ⟨first, others, between, hfirst, hrest, rfl⟩
    exact ⟨.ok first, between, (others, []), hfirst, hrest, rfl⟩

theorem writtenFrom_of_writeOne {test : Bool} {parsed : Parsed} {compiled : Compiled}
    (h : (writeOne table test parsed).run store = (.ok compiled, later)) :
    WrittenFrom store later := by
  obtain ⟨-, hwrite⟩ := writeOne_eq_iff.1 h
  cases test with
  | true =>
    cases (show later = store from hwrite)
    exact .unchanged
  | false => exact .write .unchanged hwrite

/-- Documents that all came through were laid out, and each could be written when it was its turn. -/
theorem laidOut_of_writeAll {test : Bool} {parsed : List Parsed} {compiled : List Compiled}
    (h : (writeAll table test parsed).run store = ((compiled, []), later)) :
    parsed.map (Parsed.laidOut table) = compiled.map .ok ∧
      (test = false → ∀ p ∈ parsed, ∃ (before : σ) (text : String), WrittenFrom store before ∧
        (Store.write before p.document.output.text text).isOk = true) := by
  induction parsed generalizing store compiled with
  | nil =>
    cases h
    exact ⟨rfl, by simp⟩
  | cons p rest ih =>
    obtain ⟨first, others, between, hfirst, hothers, rfl⟩ := writeAll_cons_eq_iff.1 h
    obtain ⟨hlaid, hwrite⟩ := writeOne_eq_iff.1 hfirst
    obtain ⟨hlaidRest, hwrites⟩ := ih hothers
    refine ⟨by rw [List.map_cons, hlaid, hlaidRest, List.map_cons], ?_⟩
    -- the first is written to the store as it was, the others to what came of it
    rintro rfl q hq
    rcases List.mem_cons.1 hq with rfl | hq
    · refine ⟨store, first.text, .unchanged, ?_⟩
      have hdone : Store.write store q.document.output.text first.text = .ok between := hwrite
      rw [hdone]
      rfl
    · obtain ⟨before, text, hbefore, hok⟩ := hwrites rfl q hq
      exact ⟨before, text, (writtenFrom_of_writeOne hfirst).trans hbefore, hok⟩

/-- Documents that are laid out, and whose outputs can be written whatever was written before, all come through. -/
theorem exists_writeAll {test : Bool} {parsed : List Parsed} {compiled : List Compiled}
    (hlaid : parsed.map (Parsed.laidOut table) = compiled.map .ok)
    (hwrites : test = false → ∀ p ∈ parsed, ∀ (before : σ) (text : String),
      WrittenFrom store before →
        (Store.write before p.document.output.text text).isOk = true) :
    ∃ later, (writeAll table test parsed).run store = ((compiled, []), later) := by
  induction parsed generalizing store compiled with
  | nil =>
    obtain rfl := List.map_eq_nil_iff.1 hlaid.symm
    exact ⟨store, rfl⟩
  | cons p rest ih =>
    obtain ⟨first, others, rfl, hfirst, hothers⟩ := List.map_eq_cons_iff.1 hlaid.symm
    have hone : ∃ between, (writeOne table test p).run store = (.ok first, between) := by
      cases test with
      | true => exact ⟨store, writeOne_eq_iff.2 ⟨hfirst.symm, rfl⟩⟩
      | false =>
        have hok := hwrites rfl p List.mem_cons_self store first.text .unchanged
        cases hwrite : Store.write store p.document.output.text first.text with
        | error refusal =>
          rw [hwrite] at hok
          cases hok
        | ok between => exact ⟨between, writeOne_eq_iff.2 ⟨hfirst.symm, hwrite⟩⟩
    obtain ⟨between, hone⟩ := hone
    obtain ⟨last, hrest⟩ := ih hothers.symm fun htest q hq before text hbefore =>
      hwrites htest q (List.mem_cons_of_mem _ hq) before text
        ((writtenFrom_of_writeOne hone).trans hbefore)
    exact ⟨last, writeAll_cons_eq_iff.2 ⟨first, others, between, hone, hrest, rfl⟩⟩

end Bindery
