import Bindery.Proofs.Compile.Delivery
import Bindery.Proofs.Compile.Isolation

/-!
# `Proofs.Compile.Accounting` — what becomes of every document of a project

The documents of a project can fail when their ids are made known, when they are read, and when they are laid out and
written. Failures of all three kinds end up in one list, and the documents that are left go on to the next stage. Here every
document has one fate, which is told by what is found when its turn comes, after those before it; the result of the project
and its writes are the fates of its documents in order, with none lost and none counted twice.

## Contents
- `inTurn`: what is found of each of some things after those before it; `sortOut`: values and errors apart.
- `Fate`, `projectFates`: what becomes of the documents of a project.
- `IdsAgree`, `clashes`: ids that are given to two outputs, and the failures of their documents.
- `project_accounts`: the result and the writes of a project.
-/

namespace Bindery

/-! ## Taking turns -/

/-- What is found of each of some things when its turn comes, after those before it. -/
def inTurn (f : List α → α → β) : List α → List β
  | [] => []
  | x :: rest => f [] x :: inTurn (fun earlier => f (x :: earlier)) rest

theorem getElem?_inTurn (f : List α → α → β) (xs : List α) (i : Nat) :
    (inTurn f xs)[i]? = xs[i]?.map (f (xs.take i)) := by
  induction xs generalizing f i with
  | nil => rfl
  | cons x rest ih =>
    cases i with
    | zero => rfl
    | succ i =>
      rw [inTurn, List.getElem?_cons_succ, List.getElem?_cons_succ, List.take_succ_cons, ih]

theorem length_inTurn (f : List α → α → β) (xs : List α) : (inTurn f xs).length = xs.length := by
  induction xs generalizing f with
  | nil => rfl
  | cons x rest ih => rw [inTurn, List.length_cons, List.length_cons, ih]

/-- The values and the errors among some results, each in order. -/
def sortOut (results : List (Except ε α)) : List α × List ε := results.foldr addResult ([], [])

theorem sortOut_cons (result : Except ε α) (rest : List (Except ε α)) :
    sortOut (result :: rest) = addResult result (sortOut rest) := rfl

/-! ## Fates -/

/-- What became of a document of a project. -/
inductive Fate where
  | unread (failure : Failure)
  | unwritten (failure : Failure)
  | compiled (document : Compiled)

namespace Fate

/-- The fate of a document by what reading it gave, and what writing gives of what was read. -/
def ofResults (reading : Except Failure α) (writing : α → Except Failure Compiled) : Fate :=
  match reading with
  | .error failure => .unread failure
  | .ok read =>
    match writing read with
    | .error failure => .unwritten failure
    | .ok document => .compiled document

theorem ofResults_eq_compiled_iff {reading : Except Failure α} {writing : α → Except Failure Compiled}
    {document : Compiled} :
    ofResults reading writing = .compiled document ↔
      ∃ read, reading = .ok read ∧ writing read = .ok document := by
  unfold ofResults
  cases reading with
  | error failure => simp
  | ok read => cases hwriting : writing read <;> simp [hwriting]

def unread? : Fate → Option Failure
  | .unread failure => some failure
  | _ => none

def unwritten? : Fate → Option Failure
  | .unwritten failure => some failure
  | _ => none

def compiled? : Fate → Option Compiled
  | .compiled document => some document
  | _ => none

theorem eq_of_compiled? {fate : Fate} {document : Compiled} (h : fate.compiled? = some document) :
    fate = .compiled document := by
  cases fate with
  | unread failure => cases h
  | unwritten failure => cases h
  | compiled other => rw [Option.some.inj h]

/-- The documents that came through, in order. -/
def successes (fates : List Fate) : List Compiled := fates.filterMap compiled?

/-- The failures of the others: first of those that could not be read, then of those that could not be written. -/
def failures (fates : List Fate) : List Failure :=
  fates.filterMap unread? ++ fates.filterMap unwritten?

/-- A document comes through or fails, and not both. -/
theorem length_successes_add_length_failures (fates : List Fate) :
    (successes fates).length + (failures fates).length = fates.length := by
  unfold successes failures
  induction fates with
  | nil => rfl
  | cons fate rest ih =>
    rw [List.length_append] at ih ⊢
    cases fate <;>
      simp only [List.filterMap_cons, unread?, unwritten?, compiled?, List.length_cons] <;> omega

/-- The fates of some things each of which is first read in its turn, and then written in its turn if it could be read. -/
def ofTurns (reading : List α → α → Except Failure β) (writing : List β → β → Except Failure Compiled)
    (xs : List α) : List Fate :=
  inTurn (fun earlier x =>
    ofResults (reading earlier x) (writing (sortOut (inTurn reading earlier)).1)) xs

/-- Of what could not be read, nothing is left to be written. -/
theorem ofTurns_cons_error {reading : List α → α → Except Failure β} {x : α} {failure : Failure}
    (h : reading [] x = .error failure) (writing : List β → β → Except Failure Compiled)
    (rest : List α) :
    ofTurns reading writing (x :: rest) =
      .unread failure :: ofTurns (fun earlier => reading (x :: earlier)) writing rest := by
  simp only [ofTurns, inTurn, sortOut_cons, h, ofResults, addResult]

/-- What could be read is written before all that is read later. -/
theorem ofTurns_cons_ok {reading : List α → α → Except Failure β} {x : α} {read : β}
    (h : reading [] x = .ok read) (writing : List β → β → Except Failure Compiled)
    (rest : List α) :
    ofTurns reading writing (x :: rest) =
      ofResults (Except.ok read) (writing []) ::
        ofTurns (fun earlier => reading (x :: earlier)) (fun earlier => writing (read :: earlier))
          rest := by
  simp only [ofTurns, inTurn, sortOut_cons, h, addResult]
  rfl

/-- **What comes of two stages is told by the fates of all that went through them.** -/
theorem collect_ofTurns (reading : List α → α → Except Failure β)
    (writing : List β → β → Except Failure Compiled) (xs : List α) :
    (ofTurns reading writing xs).filterMap compiled? =
        (sortOut (inTurn writing (sortOut (inTurn reading xs)).1)).1 ∧
      (ofTurns reading writing xs).filterMap unread? = (sortOut (inTurn reading xs)).2 ∧
      (ofTurns reading writing xs).filterMap unwritten? =
        (sortOut (inTurn writing (sortOut (inTurn reading xs)).1)).2 := by
  induction xs generalizing reading writing with
  | nil => exact ⟨rfl, rfl, rfl⟩
  | cons x rest ih =>
    rw [inTurn, sortOut_cons]
    cases hread : reading [] x with
    | error failure =>
      obtain ⟨hcompiled, hunread, hunwritten⟩ := ih (fun earlier => reading (x :: earlier)) writing
      rw [ofTurns_cons_error hread]
      exact ⟨hcompiled, congrArg (failure :: ·) hunread, hunwritten⟩
    | ok read =>
      obtain ⟨hcompiled, hunread, hunwritten⟩ := ih (fun earlier => reading (x :: earlier))
        (fun earlier => writing (read :: earlier))
      rw [ofTurns_cons_ok hread]
      simp only [addResult, inTurn, sortOut_cons, ofResults]
      cases writing [] read with
      | error failure => exact ⟨hcompiled, hunread, congrArg (failure :: ·) hunwritten⟩
      | ok document => exact ⟨congrArg (document :: ·) hcompiled, hunread, hunwritten⟩

end Fate

/-! ## The documents of a project in their turn -/

variable {σ : Type} [Store σ] {store later : σ} {settings : Settings} {test : Bool}

/-- What reading a document gives when its turn comes, after some others were read or failed. -/
def readingAfter (settings : Settings) (store : σ) (table : Table) (earlier : List ProjectDocument)
    (document : ProjectDocument) : Except Failure Parsed :=
  (((CompileM.inScope (parseOne settings document)).exec
    ((parseAll settings earlier table).run store).1.2).run store).1.1

/-- What laying out and writing a document gives when its turn comes, after some others were written or failed. -/
def writingAfter (table : Table) (test : Bool) (store : σ) (earlier : List Parsed) (parsed : Parsed) :
    Except Failure Compiled :=
  ((writeOne table test parsed).run ((writeAll table test earlier).run store).2).1

/-- The fates of the documents of a project: all are read one after the other, and then, with the table that this leaves,
those that could be read are written one after the other. -/
def projectFates (settings : Settings) (test : Bool) (store : σ) (documents : List ProjectDocument) :
    List Fate :=
  let registered := (registerIds documents Table.new).2
  let table := ((parseAll settings documents registered).run store).1.2
  Fate.ofTurns (readingAfter settings store registered) (writingAfter table test store) documents

/-- After the first document the others are read on the same store, with the table that it leaves. -/
theorem run_parseAll_cons {document : ProjectDocument} {table middle : Table}
    {result : Except Failure Parsed}
    (h : (((CompileM.inScope (parseOne settings document)).exec table).run store).1 = (result, middle))
    (rest : List ProjectDocument) :
    (parseAll settings (document :: rest) table).run store =
      ((addResult result ((parseAll settings rest middle).run store).1.1,
        ((parseAll settings rest middle).run store).1.2), store) := by
  have hfirst := (inScope_parseOne_readsTo settings document table).run_snd store
  have hrest := (parseAll_readsTo settings rest middle).run_snd store
  exact parseAll_cons_run_iff.2
    ⟨result, middle, store, _, Prod.ext h hfirst, Prod.ext rfl hrest, rfl⟩

/-- What is read of the documents of a project, and what fails, is what is found of each in its turn. -/
theorem parseAll_inTurn (settings : Settings) (documents : List ProjectDocument) (table : Table)
    (store : σ) :
    ((parseAll settings documents table).run store).1.1 =
      sortOut (inTurn (readingAfter settings store table) documents) := by
  induction documents generalizing table with
  | nil => rfl
  | cons document rest ih =>
    rcases hfirst : (((CompileM.inScope (parseOne settings document)).exec table).run store).1 with
      ⟨result, middle⟩
    have hnow : readingAfter settings store table [] document = result := congrArg Prod.fst hfirst
    have hlater : (fun earlier => readingAfter settings store table (document :: earlier)) =
        readingAfter settings store middle := by
      funext earlier other
      rw [readingAfter, run_parseAll_cons hfirst, readingAfter]
    rw [run_parseAll_cons hfirst, inTurn, hnow, hlater, sortOut_cons, ← ih]

/-- What is written of the documents of a project, and what fails, is what is found of each in its turn. -/
theorem writeAll_inTurn (table : Table) (test : Bool) (parsed : List Parsed) (store : σ) :
    ((writeAll table test parsed).run store).1 =
      sortOut (inTurn (writingAfter table test store) parsed) := by
  induction parsed generalizing store with
  | nil => rfl
  | cons first rest ih =>
    have hlater : (fun earlier => writingAfter table test store (first :: earlier)) =
        writingAfter table test ((writeOne table test first).run store).2 := by
      funext earlier other
      rw [writingAfter, run_writeAll_cons, writingAfter]
    rw [run_writeAll_cons, ih, inTurn, hlater, sortOut_cons]
    rfl

/-- The stages of a project come to the fates of its documents. -/
theorem collect_projectFates {documents : List ProjectDocument} {registered : Table}
    (hids : registerIds documents Table.new = ([], registered)) {parsed : List Parsed}
    {unread unwritten : List Failure} {compiled : List Compiled} {table : Table}
    (hparse : (parseAll settings documents registered).run store = (((parsed, unread), table), store))
    (hwrite : (writeAll table test parsed).run store = ((compiled, unwritten), later)) :
    Fate.successes (projectFates settings test store documents) = compiled ∧
      Fate.failures (projectFates settings test store documents) = unread ++ unwritten := by
  have hfates : projectFates settings test store documents =
      Fate.ofTurns (readingAfter settings store registered) (writingAfter table test store)
        documents := by
    rw [projectFates, hids, hparse]
  have hread := parseAll_inTurn settings documents registered store
  have hwritten := writeAll_inTurn table test parsed store
  rw [hparse] at hread
  rw [hwrite] at hwritten
  obtain ⟨hcompiled, hunread, hunwritten⟩ := Fate.collect_ofTurns
    (readingAfter settings store registered) (writingAfter table test store) documents
  rw [← hread, ← hwritten] at hcompiled hunwritten
  rw [← hread] at hunread
  rw [Fate.successes, Fate.failures, hfates, hcompiled, hunread, hunwritten]
  exact ⟨rfl, rfl⟩

/-- What was read says which document it is. -/
theorem document_of_readingAfter {table : Table} {earlier : List ProjectDocument}
    {document : ProjectDocument} {parsed : Parsed}
    (h : readingAfter settings store table earlier document = .ok parsed) :
    parsed.document = document := by
  have hyields : (CompileM.inScope (parseOne settings document)).Yields store
      ((parseAll settings earlier table).run store).1.2 parsed _ _ :=
    Prod.ext (eq_mk_of_fst_eq h) rfl
  obtain ⟨inner, hone, -⟩ := CompileM.yields_inScope.1 hyields
  obtain ⟨-, tree, notes, -, -, rfl⟩ := parseOne_yields_iff.1 hone
  rfl

/-- What was written goes by the source and the output of the document. -/
theorem eq_of_writingAfter {table : Table} {earlier : List Parsed} {parsed : Parsed}
    {compiled : Compiled} (h : writingAfter table test store earlier parsed = .ok compiled) :
    compiled.source = parsed.document.source ∧
      compiled.destination = some parsed.document.output := by
  have hdelivers := writeOne_delivers table test parsed ((writeAll table test earlier).run store).2
  rw [writingAfter] at h
  rw [h] at hdelivers
  have hlaid := except_mapError_eq_ok.1 hdelivers.laid_eq_ok
  obtain ⟨-, hsource, hdestination, -⟩ := laidOutAs_eq_ok_iff.1 hlaid
  exact ⟨hsource, hdestination⟩

/-- A document that came through is the project's document in the same place. -/
theorem compiled_of_projectFates {documents : List ProjectDocument} {i : Nat}
    {document : ProjectDocument} {compiled : Compiled} (hdocument : documents[i]? = some document)
    (hfate : (projectFates settings test store documents)[i]? = some (.compiled compiled)) :
    compiled.source = document.source ∧ compiled.destination = some document.output := by
  rw [projectFates, Fate.ofTurns, getElem?_inTurn, hdocument] at hfate
  obtain ⟨parsed, hread, hwrite⟩ := Fate.ofResults_eq_compiled_iff.1 (Option.some.inj hfate)
  rw [← document_of_readingAfter hread]
  exact eq_of_writingAfter hwrite

theorem length_projectFates (settings : Settings) (test : Bool) (store : σ)
    (documents : List ProjectDocument) :
    (projectFates settings test store documents).length = documents.length :=
  length_inTurn _ _

/-- Every document that came through is one of the project's. -/
theorem exists_document_of_mem_successes {documents : List ProjectDocument} {compiled : Compiled}
    (h : compiled ∈ Fate.successes (projectFates settings test store documents)) :
    ∃ document ∈ documents, compiled.source = document.source ∧
      compiled.destination = some document.output := by
  obtain ⟨fate, hfate, hsome⟩ := List.mem_filterMap.1 h
  obtain ⟨i, hi, rfl⟩ := List.mem_iff_getElem.1 hfate
  have hlt : i < documents.length := by
    rw [← length_projectFates settings test store]
    exact hi
  have hcame : (projectFates settings test store documents)[i]? = some (.compiled compiled) := by
    rw [List.getElem?_eq_getElem hi, Fate.eq_of_compiled? hsome]
  exact ⟨documents[i], List.getElem_mem hlt,
    compiled_of_projectFates (List.getElem?_eq_getElem hlt) hcame⟩

/-- So every document that came through has an output to be reported. -/
theorem length_outputs_projectFates (settings : Settings) (test : Bool) (store : σ)
    (documents : List ProjectDocument) :
    ((Fate.successes (projectFates settings test store documents)).filterMap
        Compiled.output?).length =
      (Fate.successes (projectFates settings test store documents)).length := by
  rw [List.filterMap_length_eq_length]
  intro compiled hcompiled
  obtain ⟨document, -, -, hdestination⟩ := exists_document_of_mem_successes hcompiled
  rw [Compiled.output?, hdestination]
  rfl

/-! ## Ids that clash -/

/-- No id is given to two outputs. -/
def IdsAgree (documents : List ProjectDocument) : Prop :=
  ∀ first ∈ documents, ∀ second ∈ documents, first.id ≠ none → first.id = second.id →
    first.output = second.output

instance (documents : List ProjectDocument) : Decidable (IdsAgree documents) :=
  inferInstanceAs (Decidable (∀ first ∈ documents, ∀ second ∈ documents, first.id ≠ none →
    first.id = second.id → first.output = second.output))

/-- The output that an id stands for: the one of the first document that has the id. -/
def standsFor? (documents : List ProjectDocument) (id : String) : Option DocumentPath :=
  (documents.find? fun document => document.id == some id).map (·.output)

/-- The failure of a document whose id already stands for another output, by the documents before it. -/
def clashAfter (earlier : List ProjectDocument) (document : ProjectDocument) : Option Failure := do
  let id ← document.id
  let output ← standsFor? earlier id
  if output = document.output then none
  else some (Fault.toFailure ⟨.idTaken id output.text, document.location⟩)

/-- The failures of all documents whose ids already stand for other outputs, in order. -/
def clashes (documents : List ProjectDocument) : List Failure :=
  (inTurn clashAfter documents).filterMap id

/-- The table knows the ids of some documents, each for what it stands for. -/
def Table.KnowsIds (table : Table) (documents : List ProjectDocument) : Prop :=
  ∀ id, table.id? id = (standsFor? documents id).map fun output => ⟨output, none⟩

theorem standsFor?_append (documents more : List ProjectDocument) (id : String) :
    standsFor? (documents ++ more) id = (standsFor? documents id).or (standsFor? more id) := by
  rw [standsFor?, List.find?_append, Option.map_or, standsFor?, standsFor?]

theorem standsFor?_singleton (document : ProjectDocument) (id : String) :
    standsFor? [document] id = if document.id = some id then some document.output else none := by
  by_cases h : document.id = some id <;> simp [standsFor?, h]

/-- A document says nothing new about an id that is not its own, or that stands for something by now. -/
theorem standsFor?_append_eq {known : List ProjectDocument} {document : ProjectDocument} {id : String}
    (h : document.id = some id → standsFor? known id ≠ none) :
    standsFor? (known ++ [document]) id = standsFor? known id := by
  rw [standsFor?_append, standsFor?_singleton]
  by_cases hid : document.id = some id
  · obtain ⟨output, houtput⟩ := Option.ne_none_iff_exists'.1 (h hid)
    rw [houtput, Option.some_or]
  · rw [if_neg hid, Option.or_none]

/-- **What making the id of one document known does**: it fails if the id stands for another output, and in any case the
table then knows the ids of one document more. -/
theorem registerIds_cons {table : Table} {known : List ProjectDocument} (hknown : table.KnowsIds known)
    (document : ProjectDocument) : ∃ middle : Table, middle.KnowsIds (known ++ [document]) ∧
      ∀ rest, registerIds (document :: rest) table =
        ((clashAfter known document).toList ++ (registerIds rest middle).1,
          (registerIds rest middle).2) := by
  cases hid : document.id with
  | none =>
    refine ⟨table, fun other => ?_, fun rest => ?_⟩
    · rw [hknown, standsFor?_append_eq (by simp [hid])]
    · simp [registerIds, clashAfter, hid]
  | some id =>
    cases hstands : standsFor? known id with
    | none =>
      have hnew : table.id? id = none := by rw [hknown, hstands, Option.map_none]
      have hclash : clashAfter known document = none := by simp [clashAfter, hid, hstands]
      refine ⟨table.setGlobal id (.id ⟨document.output, none⟩), fun other => ?_, fun rest => ?_⟩
      · by_cases heq : other = id
        · subst heq
          rw [Table.id?_setGlobal_self, standsFor?_append, hstands, standsFor?_singleton, if_pos hid]
          rfl
        · have hother : document.id ≠ some other := by
            rw [hid]
            exact fun h => heq (Option.some.inj h).symm
          rw [Table.id?_congr (Table.column_setGlobal_of_ne table _ heq), hknown,
            standsFor?_append_eq fun h => absurd h hother]
      · simp only [registerIds, hid, Table.register, hnew, hclash]
        rfl
    | some output =>
      have htaken : table.id? id = some ⟨output, none⟩ := by rw [hknown, hstands, Option.map_some]
      refine ⟨table, fun other => ?_, fun rest => ?_⟩
      · rw [hknown, standsFor?_append_eq]
        intro hother
        rw [hid] at hother
        cases hother
        rw [hstands]
        exact Option.some_ne_none output
      · by_cases heq : output = document.output
        · simp [registerIds, clashAfter, hid, hstands, Table.register, htaken, heq]
        · simp [registerIds, clashAfter, hid, hstands, Table.register, htaken, heq]

/-- Making the ids of some documents known fails once for each that clashes with those before it. -/
theorem registerIds_fst {table : Table} {known : List ProjectDocument} (hknown : table.KnowsIds known)
    (documents : List ProjectDocument) :
    (registerIds documents table).1 =
      (inTurn (fun earlier => clashAfter (known ++ earlier)) documents).filterMap id := by
  induction documents generalizing known table with
  | nil => rfl
  | cons document rest ih =>
    obtain ⟨middle, hmiddle, hregister⟩ := registerIds_cons hknown document
    have hlater : (fun earlier => clashAfter (known ++ document :: earlier)) =
        fun earlier => clashAfter (known ++ [document] ++ earlier) := by
      funext earlier
      rw [List.append_assoc, List.singleton_append]
    rw [hregister, ih hmiddle, inTurn, hlater, List.append_nil]
    cases clashAfter known document <;> rfl

theorem registerIds_new_fst (documents : List ProjectDocument) :
    (registerIds documents Table.new).1 = clashes documents := by
  have hnew : Table.new.KnowsIds [] := Table.id?_new
  exact registerIds_fst hnew documents

/-- Nothing clashes if no id is given to two outputs. -/
theorem clashes_eq_nil_iff {documents : List ProjectDocument} (hvalid : ValidIds documents) :
    clashes documents = [] ↔ IdsAgree documents := by
  rw [← registerIds_new_fst]
  constructor
  · intro hnone first hfirst second hsecond hsome hsame
    obtain ⟨id, hid⟩ := Option.ne_none_iff_exists'.1 hsome
    have hid' : second.id = some id := hsame.symm.trans hid
    have hpairs := (registerIds_gains Table.sound_new hvalid (eq_mk_of_fst_eq hnone)).consistent
    have hmem {document : ProjectDocument} (h : document ∈ documents) (hid : document.id = some id) :
        (id, (⟨document.output, none⟩ : Target)) ∈ documents.filterMap ProjectDocument.pair? :=
      List.mem_filterMap.2 ⟨document, h, ProjectDocument.pair?_eq_some hid⟩
    exact congrArg Target.destination
      (hpairs id _ _ (.inr (hmem hfirst hid)) (.inr (hmem hsecond hid')))
  · intro hagree
    have hpairs : Table.new.Consistent (documents.filterMap ProjectDocument.pair?) := by
      intro id target other htarget hother
      rw [Table.id?_new] at htarget hother
      obtain ⟨first, hfirst, hpair⟩ := List.mem_filterMap.1 (htarget.resolve_left nofun)
      obtain ⟨second, hsecond, hpair'⟩ := List.mem_filterMap.1 (hother.resolve_left nofun)
      obtain ⟨_, hid, ⟨⟩⟩ := Option.map_eq_some_iff.1 hpair
      obtain ⟨_, hid', ⟨⟩⟩ := Option.map_eq_some_iff.1 hpair'
      rw [hagree first hfirst second hsecond (by simp [hid]) (hid.trans hid'.symm)]
    obtain ⟨registered, hregister⟩ := exists_registerIds Table.sound_new hvalid hpairs
    rw [hregister]

/-! ## Projects -/

/-- If no ids clash, the documents come to their fates. -/
theorem compileDocuments_fates (settings : Settings) (test : Bool) (store : σ)
    {documents : List ProjectDocument} (h : clashes documents = []) :
    ((compileDocuments settings test documents).run store).1 =
        projectResult (Fate.successes (projectFates settings test store documents))
          (Fate.failures (projectFates settings test store documents)) ∧
      (compileDocuments settings test documents).writes store =
        if test then []
        else (Fate.successes (projectFates settings test store documents)).filterMap
          Compiled.write? := by
  rcases hids : registerIds documents Table.new with ⟨found, registered⟩
  have hfound : found = [] := by rw [← h, ← registerIds_new_fst, hids]
  subst hfound
  have hreads := parseAll_readsTo settings documents registered
  rcases hparse : (parseAll settings documents registered).run store with
    ⟨⟨⟨parsed, unread⟩, table⟩, between⟩
  have hstore := hreads.run_snd store
  rw [hparse] at hstore
  cases (show between = store from hstore)
  rcases hwrite : (writeAll table test parsed).run store with ⟨⟨compiled, unwritten⟩, later⟩
  have hwrites := writeAll_writes table test parsed store
  rw [hwrite] at hwrites
  obtain ⟨hsuccesses, hfailures⟩ := collect_projectFates hids hparse hwrite
  rw [hsuccesses, hfailures, compileDocuments_of_registerIds settings test hids]
  simp only [FileM.run_bind, FileM.writes_bind, FileM.writes_pure, hparse, hwrite, hwrites,
    hreads.writes_eq_nil store, List.nil_append, List.append_nil]
  exact ⟨rfl, trivial⟩

/-- **The accounts of a project add up.** If an id is given to two outputs, the result is the failures of the documents
whose ids stood for other outputs by then; nothing but the project file is read, and nothing is written. Otherwise each
document has one fate: the project succeeds with its documents in order if none failed, and fails with all failures and
with all documents that came through if some did. What was written are the texts of the documents that came through, in
order, and nothing if they are only checked. -/
theorem project_accounts {path : DocumentPath} {text : String} {project : Project}
    (htext : Store.read store path.text = .ok text) (hproject : Project.ofText path text = .ok project)
    {fates : List Fate} (hfates : fates = projectFates settings test store project.documents)
    {result : Except Failure (List Compiled)}
    (hrun : (compileProject settings path test).run store = (result, later)) :
    (¬ IdsAgree project.documents →
      clashes project.documents ≠ [] ∧ result = .error (.project [] (clashes project.documents)) ∧
      (compileProject settings path test).events store = [.read path.text []] ∧ later = store) ∧
    (IdsAgree project.documents →
      fates.length = project.documents.length ∧
      (∀ (i : Nat) (document : ProjectDocument) (compiled : Compiled),
        project.documents[i]? = some document → fates[i]? = some (Fate.compiled compiled) →
          compiled.source = document.source ∧ compiled.destination = some document.output) ∧
      (Fate.successes fates).length + (Fate.failures fates).length = project.documents.length ∧
      ((Fate.successes fates).filterMap Compiled.output?).length = (Fate.successes fates).length ∧
      (Fate.failures fates = [] → result = .ok (Fate.successes fates)) ∧
      (Fate.failures fates ≠ [] →
        result = .error
          (.project ((Fate.successes fates).filterMap Compiled.output?) (Fate.failures fates))) ∧
      (compileProject settings path test).writes store =
        if test then [] else (Fate.successes fates).filterMap Compiled.write?) := by
  obtain ⟨hsame, hevents, hwrites⟩ := compileProject_of_ofText settings test htext hproject
  have hclash := clashes_eq_nil_iff (Project.validIds hproject)
  rw [hsame] at hrun
  refine ⟨fun hclashing => ?_, fun hagree => ?_⟩
  · have hids := eq_mk_of_fst_eq (registerIds_new_fst project.documents)
    cases hclashes : clashes project.documents with
    | nil => exact absurd (hclash.1 hclashes) hclashing
    | cons first others =>
      rw [hclashes] at hids
      rw [compileDocuments_of_clash settings test hids] at hrun hevents
      cases hrun
      exact ⟨List.cons_ne_nil first others, rfl, hevents, rfl⟩
  · obtain ⟨hresult, hdocuments⟩ := compileDocuments_fates settings test store (hclash.2 hagree)
    rw [hrun] at hresult
    rw [hdocuments] at hwrites
    subst hfates
    refine ⟨length_projectFates settings test store _, fun i document compiled hdocument hfate =>
      compiled_of_projectFates hdocument hfate, ?_, length_outputs_projectFates settings test store _,
      ?_, ?_, hwrites⟩
    · rw [Fate.length_successes_add_length_failures, length_projectFates]
    · intro hnone
      rw [hnone] at hresult
      exact hresult
    · intro hsome
      rw [projectResult, if_neg (by rw [List.isEmpty_iff]; exact hsome)] at hresult
      exact hresult

/-- A shelf with a project of three documents: the output of the first cannot be written, the second cannot be read, and
the third comes through. -/
def mixedShelf : Shelf where
  files :=
    [("/p.dlproj",
      "(documents (document (source a) (output x)) (document (source b) (output y))" ++
        " (document (source a) (output z)))"),
     ("/a", "A")]
  readOnly := ["/x"]

/-- A shelf with a project that gives one id to two outputs. -/
def clashingShelf : Shelf where
  files :=
    [("/p.dlproj",
      "(documents (document (source a) (output x) (id i)) (document (source a) (output y) (id i)))")]
  readOnly := []

/-- A project file that is there and can be read, by what is told about it. -/
theorem exists_project {path : DocumentPath} {f : Project → α} {a : α}
    (h : ((Store.read store path.text).toOption.bind fun text =>
      (Project.ofText path text).toOption.map f) = some a) :
    ∃ text project, Store.read store path.text = .ok text ∧ Project.ofText path text = .ok project ∧
      f project = a := by
  obtain ⟨text, htext, hsome⟩ := Option.bind_eq_some_iff.1 h
  obtain ⟨project, hproject, hvalue⟩ := exists_ok_of_map hsome
  exact ⟨text, project, ok_of_toOption htext, hproject, hvalue⟩

/-- Of three documents one comes through and two fail. Of two documents with one id one clashes. -/
theorem project_accounts_mixedShelf :
    (∃ text project fates result later,
      Store.read mixedShelf (DocumentPath.resolve "/p.dlproj" "/").text = .ok text ∧
      Project.ofText (.resolve "/p.dlproj" "/") text = .ok project ∧
      fates = projectFates {} false mixedShelf project.documents ∧
      (compileProject {} (.resolve "/p.dlproj" "/") false).run mixedShelf = (result, later) ∧
      IdsAgree project.documents ∧ project.documents.length = 3 ∧
      (Fate.successes fates).filterMap Compiled.output? = [⟨"/a", "/z"⟩] ∧
      (Fate.failures fates).length = 2 ∧
      (compileProject {} (.resolve "/p.dlproj" "/") false).writes mixedShelf =
        (Fate.successes fates).filterMap Compiled.write?) ∧
    ∃ text project,
      Store.read clashingShelf (DocumentPath.resolve "/p.dlproj" "/").text = .ok text ∧
      Project.ofText (.resolve "/p.dlproj" "/") text = .ok project ∧
      ¬ IdsAgree project.documents ∧ (clashes project.documents).length = 1 ∧
      ((compileProject {} (.resolve "/p.dlproj" "/") false).run clashingShelf).1 =
        .error (.project [] (clashes project.documents)) := by
  have hmixed : ((Store.read mixedShelf (DocumentPath.resolve "/p.dlproj" "/").text).toOption.bind
        fun text => (Project.ofText (.resolve "/p.dlproj" "/") text).toOption.map fun project =>
          (decide (IdsAgree project.documents), project.documents.length)) = some (true, 3) ∧
      reported ((compileProject {} (.resolve "/p.dlproj" "/") false).run mixedShelf).1 =
        [⟨"/a", "/z"⟩] := by
    decide +kernel
  have hclashing : ((Store.read clashingShelf (DocumentPath.resolve "/p.dlproj" "/").text).toOption.bind
        fun text => (Project.ofText (.resolve "/p.dlproj" "/") text).toOption.map fun project =>
          (decide (IdsAgree project.documents), (clashes project.documents).length)) =
        some (false, 1) := by
    decide +kernel
  constructor
  · obtain ⟨text, project, htext, hproject, hfacts⟩ := exists_project hmixed.1
    obtain ⟨hagree, hlength⟩ := Prod.mk.inj hfacts
    have hagree := of_decide_eq_true hagree
    have hreported := hmixed.2
    rcases hrun : (compileProject {} (.resolve "/p.dlproj" "/") false).run mixedShelf with
      ⟨result, later⟩
    rw [hrun] at hreported
    obtain ⟨-, -, hcount, houtputs, hok, herror, hwrites⟩ :=
      (project_accounts htext hproject rfl hrun).2 hagree
    have hone : (Fate.successes (projectFates {} false mixedShelf project.documents)).filterMap
        Compiled.output? = [⟨"/a", "/z"⟩] := by
      by_cases hnone : Fate.failures (projectFates {} false mixedShelf project.documents) = []
      · rw [hok hnone] at hreported
        exact hreported
      · rw [herror hnone] at hreported
        exact hreported
    rw [hone, List.length_singleton] at houtputs
    refine ⟨text, project, _, result, later, htext, hproject, rfl, rfl, hagree, hlength, hone, ?_, hwrites⟩
    omega
  · obtain ⟨text, project, htext, hproject, hfacts⟩ := exists_project hclashing
    obtain ⟨hclash, hlength⟩ := Prod.mk.inj hfacts
    have hclash := of_decide_eq_false hclash
    rcases hrun : (compileProject {} (.resolve "/p.dlproj" "/") false).run clashingShelf with
      ⟨result, later⟩
    obtain ⟨-, hresult, -, -⟩ := (project_accounts htext hproject rfl hrun).1 hclash
    exact ⟨text, project, htext, hproject, hclash, hlength, hresult⟩

end Bindery
