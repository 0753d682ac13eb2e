import Bindery.Proofs.Page.Entering
import Bindery.Proofs.Storage.Events

/-!
# `Proofs.Section.Evolution` — what following includes does to a table

Reading a page and following its includes can fail at any point, and what was written to the table until then stays. So it
is said here once, for successes and failures alike, in which ways the table can have changed: authors were named, ids
made known, warnings given, and all this also in scopes that were opened for included documents and closed again.
Whatever holds of these few steps holds of every run. Following includes only reads.

## Contents
- `Table.Evolves`: the ways in which a table can change.
- `ReadM.Evolves`, `Page.ofText_evolves`: reading a page.
- `CompileM.Evolves`: compiling.
- `CompileM.Inherited`: what holds of the steps of following includes and of all that is made of them; `resolve_evolves`.
-/

namespace Bindery

open Source

/-- A table can change to another by the steps of following includes. -/
inductive Table.Evolves : Table → Table → Prop where
  | refl (table : Table) : Evolves table table
  | trans {table middle after : Table} (h : Evolves table middle) (h' : Evolves middle after) :
      Evolves table after
  /-- An author is named. -/
  | author (table : Table) (name : String) : Evolves table (table.appendGlobal authorsKey name)
  /-- An id is made known, or was known to stand for the target. -/
  | register {table after : Table} {id : String} {target : Target} (hid : isId id = true)
      (hregister : table.register id target = .ok after) : Evolves table after
  /-- A warning is given. -/
  | warn (table : Table) (warning : Warning) : Evolves table (table.warn warning)
  /-- An included document is read in a scope of its own, which is closed again. -/
  | within {table after : Table} (source : DocumentPath) (h : Evolves (table.entering source) after) :
      Evolves table (after.keep table.inner.length)

/-! ## Reading a page -/

/-- Reading changes the table by steps only, whether it succeeds or not. -/
def ReadM.Evolves (reading : ReadM α) : Prop :=
  ∀ table : Table, table.Evolves (reading.exec table).2

namespace ReadM

theorem evolves_pure (a : α) : (pure a : ReadM α).Evolves := fun table => .refl table

theorem evolves_throw (fault : Fault) : (throw fault : ReadM α).Evolves := fun table => .refl table

theorem evolves_ofExcept (result : Except Fault α) : (ofExcept result).Evolves :=
  fun table => .refl table

theorem evolves_modify {change : Table → Table} (h : ∀ table : Table, table.Evolves (change table)) :
    (modify change : ReadM Unit).Evolves := h

/-- Readings that go by steps do so one after the other. -/
theorem Evolves.bind {x : ReadM α} {f : α → ReadM β} (h : x.Evolves) (hf : ∀ a, (f a).Evolves) :
    (x >>= f).Evolves := by
  intro table
  have hfirst := h table
  rw [exec_bind]
  generalize x.exec table = run at hfirst ⊢
  obtain ⟨fault | a, middle⟩ := run
  · -- what was written before the fault stays
    exact hfirst
  · exact hfirst.trans (hf a middle)

end ReadM

/-- Each author is one step. -/
theorem addAuthors_evolves (form : Form) (table : Table) : table.Evolves (addAuthors form table) := by
  unfold addAuthors
  generalize form.childrenNamed "author" = authors
  induction authors generalizing table with
  | nil => exact .refl table
  | cons author rest ih =>
    rw [List.foldl_cons]
    cases author.parameterText? with
    | none => exact ih table
    | some name => exact (Table.Evolves.author table name).trans (ih _)

/-- An id is registered, which is one step, or else is taken, which is none. -/
theorem declareId_evolves (form : Form) (link : String) : (declareId form link).Evolves := by
  unfold declareId
  split
  next => exact ReadM.evolves_pure ()
  next idForm _ =>
    intro table
    rw [ReadM.exec_ofExcept_bind]
    cases hid : idForm.readId with
    | error fault => exact .refl table
    | ok id =>
      dsimp only
      rw [ReadM.exec_get_bind]
      -- an id that is refused leaves the table as it is
      cases hregister : table.register id (sectionTarget form.location.document link table) with
      | error existing => exact .refl table
      | ok registered => exact .register (isId_of_readId hid) hregister

theorem readMeta_evolves (form : Form) : (readMeta form).Evolves := by
  unfold readMeta
  split
  next => exact ReadM.evolves_throw _
  next titleForm _ =>
    refine (ReadM.evolves_modify (addAuthors_evolves form)).bind fun _ => ?_
    exact (declareId_evolves form _).bind fun _ => ReadM.evolves_pure _

/-- Of all items only those with a title change the table, and they do it by steps. -/
theorem readItem_evolves (item : Item) : (readItem item).Evolves := by
  cases item with
  | prose text location => exact ReadM.evolves_pure _
  | form root =>
    rw [readItem]
    split
    next => exact (readMeta_evolves root).bind fun _ => ReadM.evolves_pure _
    next =>
      split
      next => exact (ReadM.evolves_ofExcept _).bind fun _ => ReadM.evolves_pure _
      next =>
        split
        next => exact (ReadM.evolves_ofExcept _).bind fun _ => ReadM.evolves_pure _
        next => exact ReadM.evolves_pure _

theorem readNodes_evolves (items : List Item) : (readNodes items).Evolves := by
  induction items with
  | nil => exact ReadM.evolves_pure _
  | cons item rest ih =>
    exact (readItem_evolves item).bind fun _ => ih.bind fun _ => ReadM.evolves_pure _

/-- A page is read item by item, and perhaps warned about in the end. -/
theorem Page.ofTokens_evolves (tokens : List Token) : (Page.ofTokens tokens).Evolves := by
  unfold Page.ofTokens
  split
  next => exact ReadM.evolves_pure none
  next =>
    refine (ReadM.evolves_ofExcept _).bind fun items => (ReadM.evolves_ofExcept _).bind fun _ => ?_
    refine (readNodes_evolves items).bind fun read => ?_
    dsimp only
    -- a page that says something may be warned about, and nothing fails any more
    split
    next => exact ReadM.evolves_pure none
    next =>
      split
      next =>
        exact (ReadM.evolves_modify fun table => .warn table _).bind fun _ => ReadM.evolves_pure _
      next => exact ReadM.evolves_pure _

/-- **Reading a document changes the table by steps only**, whatever its text. -/
theorem Page.ofText_evolves (document : Coordinate) (text : String) (table : Table) :
    table.Evolves (Page.ofText document text table).2 := by
  unfold Page.ofText
  split
  next => exact .refl table
  next =>
    split
    next => exact .refl table
    next tokens _ => exact Page.ofTokens_evolves tokens table

/-! ## Following includes -/

/-- Compiling writes nothing and changes the table by steps only, whether it succeeds or not. -/
def CompileM.Evolves (compiling : CompileM α) : Prop :=
  ∀ table : Table, (compiling.exec table).ReadsTo fun result => table.Evolves result.2

namespace CompileM

/-- A computation goes on with the table that there is by then, unless it has failed. -/
theorem exec_bind (x : CompileM α) (f : α → CompileM β) (table : Table) :
    (x >>= f).exec table = x.exec table >>= fun result =>
      match result with
      | (.ok a, middle) => (f a).exec middle
      | (.error failure, middle) => pure (.error failure, middle) := by
  simp only [exec, ExceptT.run_bind, StateT.run_bind]
  refine bind_congr fun result => ?_
  obtain ⟨failure | a, middle⟩ := result
  · rfl
  · rfl

theorem evolves_pure (a : α) : (pure a : CompileM α).Evolves := fun table => .refl table

theorem evolves_get : (get : CompileM Table).Evolves := fun table => .refl table

/-- Readings that go by steps do so one after the other. -/
theorem Evolves.bind {x : CompileM α} {f : α → CompileM β} (h : x.Evolves)
    (hf : ∀ a, (f a).Evolves) : (x >>= f).Evolves := by
  intro table
  rw [exec_bind]
  refine (h table).bind ?_
  rintro ⟨failure | a, middle⟩ hfirst
  · exact FileM.readsTo_pure hfirst
  · exact (hf a middle).mono fun _ hmore => hfirst.trans hmore

/-- An included document is read in a scope of its own, in which its path is noted first. -/
theorem Evolves.inScope {x : CompileM α} (h : x.Evolves) (source : DocumentPath) :
    (CompileM.inScope (modify (·.set Table.sourceKey (.path source)) >>= fun _ => x)).Evolves := by
  intro table
  show FileM.ReadsTo _ (x.exec (table.entering source) >>= _)
  exact (h (table.entering source)).bind fun _ hinner =>
    FileM.readsTo_pure (Table.Evolves.within source hinner)

end CompileM

/-! ## What following includes is made of -/

/-- A property that the steps of following includes have, and that computations made of such steps take over from them. -/
structure CompileM.Inherited (P : (α : Type) → CompileM α → Prop) : Prop where
  pure {α : Type} (a : α) : P α (Pure.pure a)
  fault {α : Type} (fault : Fault) : P α (throw fault.toFailure)
  load (path : DocumentPath) (chain : List DocumentPath) : P String (ofFile (FileM.load path chain))
  page (document : Coordinate) (text : String) : P (Option Page) (ofTable (Page.ofText document text))
  bind {α β : Type} {x : CompileM α} {f : α → CompileM β} : P α x → (∀ a, P β (f a)) → P β (x >>= f)
  within {α : Type} {x : CompileM α} (source : DocumentPath) : P α x →
    P α (inScope (modify (·.set Table.sourceKey (.path source)) >>= fun _ => x))

namespace CompileM.Inherited

variable {P : (α : Type) → CompileM α → Prop} {visit : Nat → Entry → CompileM (Option Section)}

/-- Entries are filled one after the other. -/
theorem fillEntries (h : Inherited P) (hvisit : ∀ index entry, P _ (visit index entry)) (index : Nat)
    (entries : List Entry) : P _ (fillEntries visit index entries) := by
  induction entries generalizing index with
  | nil => exact h.pure []
  | cons entry rest ih =>
    exact h.bind (hvisit index entry) fun _ => h.bind (ih (index + 1)) fun _ => h.pure _

/-- A document with all it includes, where `visit` leads from its entries to what lies below it. -/
theorem document (h : Inherited P) (hvisit : ∀ index entry, P _ (visit index entry))
    (path : DocumentPath) (chain : List DocumentPath) (document : Coordinate) :
    P (Option Section) (do
      match ← loadPage path chain document with
      | none => return none
      | some page => return some (← page.fill visit)) := by
  have hload : P _ (loadPage path chain document) :=
    h.bind (h.load path chain) fun text => h.page document text
  refine h.bind hload fun page => ?_
  cases page with
  | none => exact h.pure none
  | some page =>
    have hfill : P _ (page.fill visit) :=
      h.bind (h.fillEntries hvisit 1 page.entries) fun _ => h.pure _
    exact h.bind hfill fun _ => h.pure _

/-- Following an entry leads through documents, each in a scope of its own, by induction on how deep it may still go.
-/
theorem follow (h : Inherited P) (settings : Settings) (remaining : Nat) (chain : List DocumentPath)
    (parent : Coordinate) (index : Nat) (entry : Entry) :
    P _ (follow settings remaining chain parent index entry) := by
  induction remaining generalizing chain parent index entry with
  | zero => exact h.fault _
  | succ remaining ih =>
    rw [Bindery.follow]
    split
    next => exact h.fault _
    next =>
      -- whatever happens below the entry, the scope that was opened for it is closed again
      exact h.within entry.path (h.document (ih _ _) entry.path _ _)

/-- **What is inherited from the steps holds of following includes as a whole.** -/
theorem resolve (h : Inherited P) (settings : Settings) (path : DocumentPath) :
    P _ (Section.resolve settings path) :=
  h.document (h.follow settings _ _ _) path _ _

end CompileM.Inherited

/-- Going by steps is inherited. -/
theorem CompileM.inherited_evolves : CompileM.Inherited fun _ compiling => compiling.Evolves where
  pure a := evolves_pure a
  fault _ table := .refl table
  load _ _ table _ := .refl table
  page document text table := Page.ofText_evolves document text table
  bind h hf := h.bind hf
  within source h := h.inScope source

/-- **Following includes only reads, and changes the table by steps only**, whatever goes wrong. -/
theorem resolve_evolves {settings : Settings} (path : DocumentPath) :
    (Section.resolve settings path).Evolves :=
  CompileM.inherited_evolves.resolve settings path

end Bindery
