import Bindery.Proofs.Compile.Growth
import Bindery.Proofs.Compile.Stages
import Bindery.Proofs.Compile.Writing

/-!
# `Proofs.Compile.Delivery` — from a document that is laid out to its output

Whether a document is compiled on its own or as one of a project, it is only at the very end that a run which checks differs
from one which writes. Up to then a document is laid out or has failed, and this depends on nothing that is written. What can
become of it from there is said here once.

## Contents
- `Delivers`: what becomes of a document that is laid out; `Delivers.writes_eq`, `Delivers.result_eq`.
- `writeOne_delivers`: a document of a project; `writeAll_writes`: all of them.
- `laidDocument`, `compileDocument_delivers`: a document on its own.
-/

namespace Bindery

variable {σ : Type} [Store σ]

/-- What a document that was compiled asks to be written. -/
def Compiled.write? (compiled : Compiled) : Option (String × String) :=
  compiled.destination.map fun path => (path.text, compiled.text)

/-! ## One document -/

/-- What becomes of a document that was laid out, or that failed before: the result, the store afterwards, and what was
done with files. -/
inductive Delivers (test : Bool) (store : σ) (laid : Except Failure Compiled) :
    Except Failure Compiled → σ → List Event → Prop where
  | failed {failure : Failure} (hlaid : laid = .error failure) :
      Delivers test store laid (.error failure) store []
  | checked {compiled : Compiled} (hlaid : laid = .ok compiled)
      (htest : test = true ∨ compiled.destination = none) :
      Delivers test store laid (.ok compiled) store []
  | written {compiled : Compiled} {path : DocumentPath} {after : σ} (hlaid : laid = .ok compiled)
      (htest : test = false) (hpath : compiled.destination = some path)
      (hwrite : Store.write store path.text compiled.text = .ok after) :
      Delivers test store laid (.ok compiled) after [.wrote path.text compiled.text]
  | refused {compiled : Compiled} {path : DocumentPath} {refusal : SaveRefusal} {failure : Failure}
      (hlaid : laid = .ok compiled) (htest : test = false) (hpath : compiled.destination = some path)
      (hwrite : Store.write store path.text compiled.text = .error refusal) :
      Delivers test store laid (.error failure) store [.refused path.text compiled.text]

namespace Delivers

variable {test : Bool} {store later : σ} {laid result : Except Failure Compiled}
  {events : List Event}

/-- A document that came through is what it was laid out as. -/
theorem laid_eq_ok {compiled : Compiled} (h : Delivers test store laid (.ok compiled) later events) :
    laid = .ok compiled := by
  cases h with
  | checked hlaid _ => exact hlaid
  | written hlaid _ _ _ => exact hlaid

/-- What was written is what came through, unless it was only checked. -/
theorem writes_eq (h : Delivers test store laid result later events) :
    events.filterMap Event.written? =
      if test then [] else (result.toOption.bind Compiled.write?).toList := by
  cases h with
  | failed hlaid => simp [Except.toOption]
  | checked hlaid htest =>
    rcases htest with rfl | hpath
    · rfl
    · simp [Except.toOption, Compiled.write?, hpath]
  | written hlaid htest hpath hwrite =>
    subst htest
    simp [Except.toOption, Compiled.write?, hpath, Event.written?]
  | refused hlaid htest hpath hwrite =>
    simp [Except.toOption, Event.written?]

/-- Where no write is refused, a document comes to what it was laid out as. -/
theorem result_eq (h : Delivers test store laid result later events)
    (hnone : ∀ event ∈ events, event.isRefusal = false) : result = laid := by
  cases h with
  | failed hlaid => exact hlaid.symm
  | checked hlaid _ => exact hlaid.symm
  | written hlaid _ _ _ => exact hlaid.symm
  | refused hlaid _ _ _ => exact nomatch hnone _ List.mem_cons_self

/-- So does a document that is only checked. -/
theorem result_eq_of_test (h : Delivers true store laid result later events) : result = laid := by
  cases h with
  | failed hlaid => exact hlaid.symm
  | checked hlaid _ => exact hlaid.symm
  | written _ htest _ _ => cases htest
  | refused _ htest _ _ => cases htest

end Delivers

/-- A document that is laid out, and then made of the text that was saved, is delivered to its destination. -/
theorem delivers_save (make : String → Compiled) {text : String} {path : DocumentPath} {store : σ}
    (hpath : (make text).destination = some path) (htext : (make text).text = text) :
    Delivers false store (.ok (make text)) (((FileM.save path text).run store).1.map make)
      ((FileM.save path text).run store).2 ((FileM.save path text).events store) := by
  rcases FileM.save_cases path text store with ⟨after, hwrite, hrun, hevents⟩ |
    ⟨refusal, failure, hwrite, hrun, hevents⟩
  · have hwritten : Delivers false store (.ok (make text)) (.ok (make text)) after
        [.wrote path.text (make text).text] := .written rfl rfl hpath (by rw [htext, hwrite])
    rw [htext] at hwritten
    rw [hrun, hevents]
    exact hwritten
  · have hrefused : Delivers false store (.ok (make text)) (.error failure) store
        [.refused path.text (make text).text] := .refused rfl rfl hpath (by rw [htext, hwrite])
    rw [htext] at hrefused
    rw [hrun, hevents]
    exact hrefused

/-! ## The documents of a project -/

theorem writeOne_delivers (table : Table) (test : Bool) (parsed : Parsed) (store : σ) :
    Delivers test store ((parsed.laidOut table).mapError Fault.toFailure)
      ((writeOne table test parsed).run store).1 ((writeOne table test parsed).run store).2
      ((writeOne table test parsed).events store) := by
  unfold writeOne Parsed.laidOut laidOutAs
  dsimp only
  cases render (table.push.setCurrent parsed.document.source parsed.document.output)
      parsed.tree with
  | error fault => exact .failed rfl
  | ok text =>
    cases test with
    | true => exact .checked rfl (.inl rfl)
    | false =>
      simp only [Bool.false_eq_true, if_false, FileM.run_bind, FileM.run_pure, FileM.events_bind,
        FileM.events_pure, List.append_nil]
      exact delivers_save
        (fun text => ⟨parsed.document.source, some parsed.document.output, text, parsed.warnings⟩)
        rfl rfl

theorem run_writeAll_cons (table : Table) (test : Bool) (parsed : Parsed) (rest : List Parsed)
    (store : σ) :
    (writeAll table test (parsed :: rest)).run store =
      (addResult ((writeOne table test parsed).run store).1
          ((writeAll table test rest).run ((writeOne table test parsed).run store).2).1,
        ((writeAll table test rest).run ((writeOne table test parsed).run store).2).2) :=
  writeAll_cons_run_iff.2 ⟨_, _, _, rfl, rfl, rfl⟩

theorem events_writeAll_cons (table : Table) (test : Bool) (parsed : Parsed) (rest : List Parsed)
    (store : σ) :
    (writeAll table test (parsed :: rest)).events store =
      (writeOne table test parsed).events store ++
        (writeAll table test rest).events ((writeOne table test parsed).run store).2 := by
  rw [writeAll, FileM.events_bind, FileM.events_bind]
  cases ((writeOne table test parsed).run store).1 with
  | error failure => rw [FileM.events_pure, List.append_nil]
  | ok compiled => rw [FileM.events_pure, List.append_nil]

/-- **The writes of a project are its documents that came through, in order**, unless they are only checked. -/
theorem writeAll_writes (table : Table) (test : Bool) (parsed : List Parsed) (store : σ) :
    (writeAll table test parsed).writes store =
      if test then [] else ((writeAll table test parsed).run store).1.1.filterMap Compiled.write? := by
  induction parsed generalizing store with
  | nil => cases test <;> rfl
  | cons first rest ih =>
    have hfirst := (writeOne_delivers table test first store).writes_eq
    have hrest := ih ((writeOne table test first).run store).2
    rw [FileM.writes_eq] at hrest
    rw [FileM.writes_eq, events_writeAll_cons, List.filterMap_append, hfirst, hrest,
      run_writeAll_cons]
    cases test with
    | true => rfl
    | false =>
      cases ((writeOne table false first).run store).1 with
      | error failure => rfl
      | ok compiled =>
        simp only [Bool.false_eq_true, if_false, addResult, List.filterMap_cons, Except.toOption,
          Option.bind_some]
        cases compiled.write? <;> rfl

/-! ## A document on its own -/

/-- What a document comes to by what was read of it, ready to be written. -/
def laidDocument (source : DocumentPath) (destination : Option DocumentPath) (before : Nat) :
    Except Failure (Option Section) × Table → Except Failure Compiled
  | (.error failure, _) => .error failure
  | (.ok tree, table) =>
    ((render table tree).mapError Fault.toFailure).map fun text =>
      ⟨source, destination, text, table.warnings.drop before⟩

theorem laidDocument_destination {source : DocumentPath} {destination : Option DocumentPath}
    {before : Nat} {read : Except Failure (Option Section) × Table} {compiled : Compiled}
    (h : laidDocument source destination before read = .ok compiled) :
    compiled.destination = destination := by
  obtain ⟨failure | tree, table⟩ := read
  · cases h
  · obtain ⟨text, -, rfl⟩ := except_map_eq_ok.1 h
    rfl

/-- What is done with a document after it was read. -/
def finishDocument (source : DocumentPath) (destination : Option DocumentPath) (test : Bool)
    (before : Nat) :
    Except Failure (Option Section) × Table → FileM (Except Failure Compiled × Table)
  | (.error failure, table) => pure (.error failure, table)
  | (.ok tree, table) =>
    match render table tree with
    | .error fault => pure (.error fault.toFailure, table)
    | .ok text => do
      let saved ← match destination, test with
        | some path, false => FileM.save path text
        | _, _ => pure (.ok text)
      return (saved.map fun text => ⟨source, destination, text, table.warnings.drop before⟩, table)

theorem exec_compileDocument (settings : Settings) (source : DocumentPath)
    (destination : Option DocumentPath) (test : Bool) (table : Table) :
    (compileDocument settings source destination test).exec table =
      (parseSource settings source destination).exec table >>=
        finishDocument source destination test table.warnings.length := by
  have hget (f : Table → CompileM Compiled) (start : Table) :
      ((get : CompileM Table) >>= f).exec start = (f start).exec start := rfl
  rw [compileDocument, hget, CompileM.exec_bind]
  refine bind_congr fun read => ?_
  obtain ⟨failure | tree, middle⟩ := read
  · rfl
  · dsimp only
    rw [hget, finishDocument]
    cases render middle tree with
    | error fault => rfl
    | ok text =>
      -- a run that writes differs from one that checks in this step only
      cases destination with
      | none => rfl
      | some path =>
        cases test with
        | true => rfl
        | false =>
          show (CompileM.ofFile (FileM.save path text) >>= _).exec middle = FileM.save path text >>= _
          rw [CompileM.exec_bind]
          show (FileM.save path text >>= fun saved => pure (saved, middle)) >>= _ = _
          rw [bind_assoc]
          refine bind_congr fun saved => ?_
          cases saved <;> rfl

theorem finishDocument_delivers (source : DocumentPath) (destination : Option DocumentPath)
    (test : Bool) (before : Nat) (read : Except Failure (Option Section) × Table) (store : σ) :
    Delivers test store (laidDocument source destination before read)
      ((finishDocument source destination test before read).run store).1.1
      ((finishDocument source destination test before read).run store).2
      ((finishDocument source destination test before read).events store) := by
  obtain ⟨failure | tree, table⟩ := read
  · exact .failed rfl
  · rw [laidDocument, finishDocument]
    cases render table tree with
    | error fault => exact .failed rfl
    | ok text =>
      cases destination with
      | none => exact .checked rfl (.inr rfl)
      | some path =>
        cases test with
        | true => exact .checked rfl (.inl rfl)
        | false =>
          simp only [FileM.run_bind, FileM.run_pure, FileM.events_bind, FileM.events_pure,
            List.append_nil]
          exact delivers_save
            (fun text => ⟨source, some path, text, table.warnings.drop before⟩) rfl rfl

/-- **A document on its own is read, which writes nothing, and then delivered.** -/
theorem compileDocument_delivers (settings : Settings) (source : DocumentPath)
    (destination : Option DocumentPath) (test : Bool) (table : Table) (store : σ) :
    ∃ events,
      Delivers test store
        (laidDocument source destination table.warnings.length
          (((parseSource settings source destination).exec table).run store).1)
        (((compileDocument settings source destination test).exec table).run store).1.1
        (((compileDocument settings source destination test).exec table).run store).2 events ∧
      ((compileDocument settings source destination test).exec table).events store =
        ((parseSource settings source destination).exec table).events store ++ events := by
  have hstore := (parseSource_readsTo settings source destination table).run_snd store
  rw [exec_compileDocument, FileM.run_bind, FileM.events_bind, hstore]
  exact ⟨_, finishDocument_delivers source destination test table.warnings.length _ store, rfl⟩

end Bindery
