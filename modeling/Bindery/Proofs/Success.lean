import Bindery.Section.Resolve

/-!
# `Proofs.Success` — when a computation succeeds

Results, readings and compilations are built by the same few steps. For each step it is said here when it succeeds, and
with what, so that no later proof opens a monad.

## Contents
- `except_bind_eq_ok`, `except_map_eq_ok`, `except_mapError_eq_ok`: results.
- `addResult`: results of many, some of which may be errors.
- `ReadM.exec_bind`, `ReadM.exec_bind_eq_ok` and the steps of reading.
- `CompileM.run_exec_bind`, `CompileM.run_exec_inScope`: what steps and scopes do, whether they succeed or not.
- `CompileM.Yields`: a compilation on a store and a table succeeds with a value, a store and a table; its steps.
-/

namespace Bindery

/-! ## Results -/

theorem except_bind_eq_ok {x : Except ε α} {f : α → Except ε β} {b : β} :
    x.bind f = .ok b ↔ ∃ a, x = .ok a ∧ f a = .ok b := by
  cases x <;> simp [Except.bind]

/-- A check that comes first has to pass. -/
theorem except_bind_const_eq_ok {x : Except ε Unit} {y : Except ε β} {b : β} :
    x.bind (fun _ => y) = .ok b ↔ x = .ok () ∧ y = .ok b := by
  cases x <;> simp [Except.bind]

theorem except_bind_eq_error {x : Except ε α} {f : α → Except ε β} {e : ε} :
    x.bind f = .error e ↔ x = .error e ∨ ∃ a, x = .ok a ∧ f a = .error e := by
  cases x <;> simp [Except.bind]

theorem except_map_eq_ok {x : Except ε α} {f : α → β} {b : β} :
    x.map f = .ok b ↔ ∃ a, x = .ok a ∧ f a = b := by
  cases x <;> simp [Except.map]

theorem except_map_eq_error {x : Except ε α} {f : α → β} {e : ε} :
    x.map f = .error e ↔ x = .error e := by
  cases x <;> simp [Except.map]

theorem except_map_map (x : Except ε α) (f : α → β) (g : β → γ) :
    (x.map f).map g = x.map fun a => g (f a) := by
  cases x <;> rfl

theorem ok_of_toOption {x : Except ε α} {a : α} (h : x.toOption = some a) : x = .ok a := by
  cases x with
  | error e => cases h
  | ok b => exact congrArg Except.ok (Option.some.inj h)

/-- A result that something can be told about is there. -/
theorem exists_ok_of_map {x : Except ε α} {f : α → β} {b : β} (h : x.toOption.map f = some b) :
    ∃ a, x = .ok a ∧ f a = b := by
  obtain ⟨a, ha, hb⟩ := Option.map_eq_some_iff.1 h
  exact ⟨a, ok_of_toOption ha, hb⟩

/-- So is the value of a result that may come without one. -/
theorem exists_some_of_map {x : Except ε (Option α)} {f : α → β} {b : β}
    (h : x.toOption.map (Option.map f) = some (some b)) : ∃ a, x = .ok (some a) ∧ f a = b := by
  obtain ⟨found, hfound, hmap⟩ := exists_ok_of_map h
  obtain ⟨a, rfl, htold⟩ := Option.map_eq_some_iff.1 hmap
  exact ⟨a, hfound, htold⟩

/-- A pair is told by its first half and whatever its second half is. -/
theorem eq_mk_of_fst_eq {pair : α × β} {a : α} (h : pair.1 = a) : pair = (a, pair.2) :=
  Prod.ext h rfl

@[simp] theorem except_mapError_ok (f : ε → ε') (a : α) :
    (Except.ok a : Except ε α).mapError f = .ok a := rfl

@[simp] theorem except_mapError_error (f : ε → ε') (e : ε) :
    (Except.error e : Except ε α).mapError f = .error (f e) := rfl

theorem except_mapError_eq_ok {x : Except ε α} {f : ε → ε'} {a : α} :
    x.mapError f = .ok a ↔ x = .ok a := by
  cases x <;> simp

/-- A result in front of others, where values and errors are kept apart. -/
def addResult (result : Except ε α) (others : List α × List ε) : List α × List ε :=
  match result with
  | .ok a => (a :: others.1, others.2)
  | .error e => (others.1, e :: others.2)

/-- There are no errors if there are none among the others and the result is a value. -/
theorem addResult_eq_nil_iff {result : Except ε α} {others : List α × List ε} {values : List α} :
    addResult result others = (values, []) ↔
      ∃ a rest, result = .ok a ∧ others = (rest, []) ∧ values = a :: rest := by
  obtain ⟨rest, errors⟩ := others
  cases result with
  | error e => simp [addResult]
  | ok a =>
    constructor
    · intro h
      cases h
      exact ⟨a, rest, rfl, rfl, rfl⟩
    · rintro ⟨_, _, ⟨⟩, ⟨⟩, rfl⟩
      rfl

theorem mem_addResult_iff {result : Except ε α} {others : List α × List ε} {a : α} :
    a ∈ (addResult result others).1 ↔ result = .ok a ∨ a ∈ others.1 := by
  cases result with
  | error e => simp [addResult]
  | ok b => simp [addResult, eq_comm]

/-! ## Reading with a table -/

namespace ReadM

/-- A step is followed by another unless it fails; what it did to the table stays in either case. -/
theorem exec_bind (x : ReadM α) (f : α → ReadM β) (table : Table) :
    (x >>= f).exec table = match x.exec table with
      | (.ok a, middle) => (f a).exec middle
      | (.error fault, middle) => (.error fault, middle) := by
  simp only [exec, ExceptT.run_bind, StateT.run_bind]
  cases StateT.run (ExceptT.run x) table with
  | mk result middle => cases result <;> rfl

theorem exec_bind_eq_ok {x : ReadM α} {f : α → ReadM β} {table after : Table} {b : β} :
    (x >>= f).exec table = (.ok b, after) ↔
      ∃ a middle, x.exec table = (.ok a, middle) ∧ (f a).exec middle = (.ok b, after) := by
  rw [exec_bind]
  rcases x.exec table with ⟨fault | a, middle⟩
  · simp
  · constructor
    · intro h
      exact ⟨a, middle, rfl, h⟩
    · rintro ⟨_, _, ⟨⟩, h⟩
      exact h

@[simp] theorem exec_pure (a : α) (table : Table) : (pure a : ReadM α).exec table = (.ok a, table) :=
  rfl

@[simp] theorem exec_throw (fault : Fault) (table : Table) :
    (throw fault : ReadM α).exec table = (.error fault, table) := rfl

@[simp] theorem exec_set (table after : Table) :
    (set after : ReadM Unit).exec table = (.ok (), after) := rfl

@[simp] theorem exec_ofExcept_bind (result : Except Fault α) (f : α → ReadM β) (table : Table) :
    (ofExcept result >>= f).exec table =
      match result with
      | .ok a => (f a).exec table
      | .error fault => (.error fault, table) := by
  cases result <;> rfl

@[simp] theorem exec_modify_bind (change : Table → Table) (f : Unit → ReadM β) (table : Table) :
    ((modify change : ReadM Unit) >>= f).exec table = (f ()).exec (change table) := rfl

@[simp] theorem exec_get_bind (f : Table → ReadM β) (table : Table) :
    ((get : ReadM Table) >>= f).exec table = (f table).exec table := rfl

end ReadM

/-! ## Compiling -/

namespace CompileM

variable [Store σ]

/-- Compiling on a store and with a table succeeds with a value, and leaves a store and a table. -/
def Yields (compiling : CompileM α) (store : σ) (table : Table) (value : α) (later : σ)
    (after : Table) : Prop :=
  (compiling.exec table).run store = ((.ok value, after), later)

theorem yields_pure {a b : α} {store later : σ} {table after : Table} :
    (pure a : CompileM α).Yields store table b later after ↔
      a = b ∧ store = later ∧ table = after := by
  show ((Except.ok a, table), store) = ((Except.ok b, after), later) ↔ _
  simp only [Prod.mk.injEq, Except.ok.injEq, and_assoc]
  exact and_congr_right fun _ => and_comm

theorem not_yields_throw {failure : Failure} {b : α} {store later : σ} {table after : Table} :
    ¬ (throw failure : CompileM α).Yields store table b later after := by
  intro h
  cases h

/-- A step is followed by another unless it fails; what it did to the store and the table stays in either case. -/
theorem run_exec_bind (x : CompileM α) (f : α → CompileM β) (store : σ) (table : Table) :
    ((x >>= f).exec table).run store = match (x.exec table).run store with
      | ((.ok a, middle), between) => ((f a).exec middle).run between
      | ((.error failure, middle), between) => ((.error failure, middle), between) := by
  simp only [exec, ExceptT.run_bind, StateT.run_bind, FileM.run_bind]
  rcases (StateT.run (ExceptT.run x) table).run store with ⟨⟨failure | a, middle⟩, between⟩
  · rfl
  · rfl

theorem yields_bind {x : CompileM α} {f : α → CompileM β} {b : β} {store later : σ}
    {table after : Table} :
    (x >>= f).Yields store table b later after ↔
      ∃ a between middle, x.Yields store table a between middle ∧
        (f a).Yields between middle b later after := by
  unfold Yields
  rw [run_exec_bind]
  rcases (x.exec table).run store with ⟨⟨failure | a, middle⟩, between⟩
  · simp
  · constructor
    · intro h
      exact ⟨a, between, middle, rfl, h⟩
    · rintro ⟨_, _, _, ⟨⟩, h⟩
      exact h

theorem yields_modify {change : Table → Table} {value : Unit} {store later : σ}
    {table after : Table} :
    (modify change : CompileM Unit).Yields store table value later after ↔
      store = later ∧ change table = after := by
  show ((Except.ok (), change table), store) = ((Except.ok value, after), later) ↔ _
  simp [and_comm]

theorem yields_ofTable {step : Table → Except Failure α × Table} {a : α} {store later : σ}
    {table after : Table} :
    (ofTable step).Yields store table a later after ↔
      store = later ∧ step table = (.ok a, after) := by
  show (step table, store) = ((Except.ok a, after), later) ↔ _
  simp [and_comm]

theorem yields_get {value : Table} {store later : σ} {table after : Table} :
    (get : CompileM Table).Yields store table value later after ↔
      store = later ∧ table = value ∧ table = after := by
  show ((Except.ok table, table), store) = ((Except.ok value, after), later) ↔ _
  simp only [Prod.mk.injEq, Except.ok.injEq]
  exact and_comm

/-- Loading succeeds with what the store holds at the path, and changes nothing. -/
theorem yields_load {path : DocumentPath} {chain : List DocumentPath} {text : String}
    {store later : σ} {table after : Table} :
    (ofFile (FileM.load path chain)).Yields store table text later after ↔
      store = later ∧ table = after ∧ Store.read store path.text = .ok text := by
  show (((Store.read store path.text).mapError _, table), store) = ((Except.ok text, after), later) ↔ _
  simp only [Prod.mk.injEq, except_mapError_eq_ok]
  constructor
  · rintro ⟨⟨hread, htable⟩, hstore⟩
    exact ⟨hstore, htable, hread⟩
  · rintro ⟨hstore, htable, hread⟩
    exact ⟨⟨hread, htable⟩, hstore⟩

/-- A scope of its own is closed whether compiling in it succeeds or not. -/
theorem run_exec_inScope (x : CompileM α) (store : σ) (table : Table) :
    ((inScope x).exec table).run store =
      ((((x.exec table.push).run store).1.1,
        ((x.exec table.push).run store).1.2.keep table.inner.length),
        ((x.exec table.push).run store).2) := by
  show ((x.exec table.push) >>= _).run store = _
  rw [FileM.run_bind]
  rfl

theorem yields_inScope {x : CompileM α} {a : α} {store later : σ} {table after : Table} :
    (inScope x).Yields store table a later after ↔
      ∃ inner, x.Yields store table.push a later inner ∧
        after = inner.keep table.inner.length := by
  unfold Yields
  rw [run_exec_inScope]
  rcases (x.exec table.push).run store with ⟨⟨result, inner⟩, between⟩
  constructor
  · intro h
    cases h
    exact ⟨inner, rfl, rfl⟩
  · rintro ⟨_, ⟨⟩, rfl⟩
    rfl

end CompileM
end Bindery
