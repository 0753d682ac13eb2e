import Bindery.Storage.Shelf

/-!
# `Proofs.Storage.Events` — what a computation does with files

The value of a computation and the store it leaves do not tell what was done on the way. A run is told here by its events,
in order: what was read, what was written, and what was refused. The store after a run is the store before with the
writes made, and where a path was written more than once the last text stands.

## Contents
- `Event`, `FileM.events`, `FileM.events_bind`; `FileM.writes_eq`: the writes are among the events.
- `FileM.load_cases`, `FileM.save_cases`: what reading and writing one file comes to.
- `FileM.ReadsTo`: computations that write nothing, whatever they are answered, and what their values are like.
- `LawfulStore`: a store that gives back what was written; `FileM.read_run`: the store after a run.
-/

namespace Bindery

/-! ## Events -/

/-- Something that was done with a file. A read says for which chain of documents the file was wanted. -/
inductive Event where
  | read (path : String) (chain : List DocumentPath)
  | wrote (path text : String)
  | refused (path text : String)
deriving DecidableEq, Repr

/-- The path and the text of a write that was done. -/
def Event.written? : Event → Option (String × String)
  | .wrote path text => some (path, text)
  | _ => none

/-- Whether something was to be written and could not be. -/
def Event.isRefusal : Event → Bool
  | .refused _ _ => true
  | _ => false

namespace FileM

variable {σ : Type} [Store σ]

/-- What a computation does with the files of a store, in order. -/
def events : FileM α → σ → List Event
  | .done _, _ => []
  | .read path chain next, store =>
    .read path chain :: (next (Store.read store path)).events store
  | .write path text next, store =>
    match Store.write store path text with
    | .ok store => .wrote path text :: (next (.ok ())).events store
    | .error refusal => .refused path text :: (next (.error refusal)).events store

@[simp] theorem events_pure (value : α) (store : σ) : (pure value : FileM α).events store = [] := rfl

/-- What comes next goes on with the value and the store that there are by then. -/
@[simp] theorem events_bind (x : FileM α) (f : α → FileM β) (store : σ) :
    (x >>= f).events store = x.events store ++ (f (x.run store).1).events (x.run store).2 := by
  show (x.bind f).events store = _
  induction x generalizing store with
  | done value => rfl
  | read path chain next ih =>
    simp only [bind, events, run, List.cons_append, ih]
  | write path text next ih =>
    simp only [bind, events, run]
    cases Store.write store path text with
    | ok after => simp only [ih, List.cons_append]
    | error refusal => simp only [ih, List.cons_append]

/-- The writes of a computation are among its events. -/
theorem writes_eq (x : FileM α) (store : σ) :
    x.writes store = (x.events store).filterMap Event.written? := by
  induction x generalizing store with
  | done value => rfl
  | read path chain next ih =>
    simp only [writes, events, List.filterMap_cons, Event.written?, ih]
  | write path text next ih =>
    simp only [writes, events]
    cases Store.write store path text with
    | ok after => simp only [List.filterMap_cons, Event.written?, ih]
    | error refusal => simp only [List.filterMap_cons, Event.written?, ih]

@[simp] theorem writes_pure (value : α) (store : σ) : (pure value : FileM α).writes store = [] := rfl

@[simp] theorem writes_bind (x : FileM α) (f : α → FileM β) (store : σ) :
    (x >>= f).writes store = x.writes store ++ (f (x.run store).1).writes (x.run store).2 := by
  simp only [writes_eq, events_bind, List.filterMap_append]

/-- A text is read, or else that is refused. -/
theorem load_cases (path : DocumentPath) (chain : List DocumentPath) (store : σ) :
    (load path chain).events store = [.read path.text chain] ∧
      ((∃ text, Store.read store path.text = .ok text ∧
        (load path chain).run store = (.ok text, store)) ∨
      ∃ refusal message, Store.read store path.text = .error refusal ∧
        (load path chain).run store = (.error (.general message (some path.text)), store)) := by
  refine ⟨rfl, ?_⟩
  unfold load
  rw [run]
  cases Store.read store path.text with
  | ok text => exact .inl ⟨text, rfl, rfl⟩
  | error refusal => exact .inr ⟨refusal, _, rfl, rfl⟩

/-- A text is written, or else its write is refused. -/
theorem save_cases (path : DocumentPath) (text : String) (store : σ) :
    (∃ after, Store.write store path.text text = .ok after ∧
      (save path text).run store = (.ok text, after) ∧
      (save path text).events store = [.wrote path.text text]) ∨
    ∃ refusal failure, Store.write store path.text text = .error refusal ∧
      (save path text).run store = (.error failure, store) ∧
      (save path text).events store = [.refused path.text text] := by
  unfold save
  rw [run, events]
  cases hwrite : Store.write store path.text text with
  | ok after => exact .inl ⟨after, rfl, rfl, rfl⟩
  | error refusal =>
    refine .inr ?_
    cases refusal with
    | directory cause => exact ⟨_, _, rfl, rfl, rfl⟩
    | file cause => exact ⟨_, _, rfl, rfl, rfl⟩

/-! ## Reading only -/

/-- The computation writes nothing, and whatever it is answered, its value is as told. -/
def ReadsTo (P : α → Prop) : FileM α → Prop
  | .done value => P value
  | .read _ _ next => ∀ answer, (next answer).ReadsTo P
  | .write _ _ _ => False

theorem readsTo_pure {P : α → Prop} {value : α} (h : P value) : (pure value : FileM α).ReadsTo P := h

theorem readsTo_load {P : Except Failure String → Prop} (h : ∀ result, P result)
    (path : DocumentPath) (chain : List DocumentPath) : (load path chain).ReadsTo P :=
  fun _ => h _

/-- Two computations that write nothing, one after the other, write nothing. -/
theorem ReadsTo.bind {P : α → Prop} {Q : β → Prop} {x : FileM α} {f : α → FileM β}
    (h : x.ReadsTo P) (hf : ∀ a, P a → (f a).ReadsTo Q) : (x >>= f).ReadsTo Q := by
  show (FileM.bind x f).ReadsTo Q
  induction x with
  | done value => exact hf value h
  | read path chain next ih =>
    intro answer
    exact ih answer (h answer)
  | write path text next ih => cases h

theorem ReadsTo.mono {P Q : α → Prop} {x : FileM α} (h : x.ReadsTo P) (hPQ : ∀ a, P a → Q a) :
    x.ReadsTo Q := by
  induction x with
  | done value => exact hPQ value h
  | read path chain next ih =>
    intro answer
    exact ih answer (h answer)
  | write path text next ih => cases h

/-- The value is as told on every store. -/
theorem ReadsTo.run_fst {P : α → Prop} {x : FileM α} (h : x.ReadsTo P) (store : σ) :
    P (x.run store).1 := by
  induction x with
  | done value => exact h
  | read path chain next ih => exact ih _ (h _)
  | write path text next ih => cases h

/-- What writes nothing leaves the store as it is. -/
theorem ReadsTo.run_snd {P : α → Prop} {x : FileM α} (h : x.ReadsTo P) (store : σ) :
    (x.run store).2 = store := by
  induction x with
  | done value => rfl
  | read path chain next ih => exact ih _ (h _)
  | write path text next ih => cases h

/-- What writes nothing only reads. -/
theorem ReadsTo.eq_read {P : α → Prop} {x : FileM α} (h : x.ReadsTo P) (store : σ) {event : Event}
    (hevent : event ∈ x.events store) : ∃ path chain, event = .read path chain := by
  induction x with
  | done value => cases hevent
  | read path chain next ih =>
    rcases List.mem_cons.1 hevent with rfl | hevent
    · exact ⟨path, chain, rfl⟩
    · exact ih _ (h _) hevent
  | write path text next ih => cases h

theorem ReadsTo.writes_eq_nil {P : α → Prop} {x : FileM α} (h : x.ReadsTo P) (store : σ) :
    x.writes store = [] := by
  rw [writes_eq, List.filterMap_eq_nil_iff]
  intro event hevent
  obtain ⟨path, chain, rfl⟩ := h.eq_read store hevent
  rfl

end FileM

/-! ## The store after a run -/

/-- A store that gives back what was written to it, and keeps all else. It keeps files by the texts of their paths: what is
written to one path is not found under any other. -/
class LawfulStore (σ : Type) [Store σ] : Prop where
  read_write_self {store after : σ} {path text : String} :
    Store.write store path text = .ok after → Store.read after path = .ok text
  read_write_of_ne {store after : σ} {path other text : String} :
    Store.write store path text = .ok after → other ≠ path →
      Store.read after other = Store.read store other

namespace Shelf

theorem textAt?_cons_self (path text : String) (files : List (String × String)) :
    textAt? path ((path, text) :: files) = some text := by
  simp [textAt?]

theorem textAt?_cons_of_ne {path other : String} (h : other ≠ path) (text : String)
    (files : List (String × String)) :
    textAt? path ((other, text) :: files) = textAt? path files := by
  simp [textAt?, h]

/-- A text that was put under a path is found there. -/
theorem textAt?_putFile_self (path text : String) (files : List (String × String)) :
    textAt? path (putFile path text files) = some text := by
  induction files with
  | nil => exact textAt?_cons_self path text []
  | cons file rest ih =>
    rw [putFile]
    split
    · exact textAt?_cons_self path text rest
    next hne => rw [textAt?_cons_of_ne hne, ih]

/-- What is found under other paths is what was found there before. -/
theorem textAt?_putFile_of_ne {path other : String} (h : other ≠ path) (text : String)
    (files : List (String × String)) : textAt? other (putFile path text files) = textAt? other files := by
  induction files with
  | nil => exact textAt?_cons_of_ne h.symm text []
  | cons file rest ih =>
    obtain ⟨name, old⟩ := file
    rw [putFile]
    split
    next heq =>
      cases heq
      rw [textAt?_cons_of_ne h.symm, textAt?_cons_of_ne h.symm]
    next =>
      by_cases hname : name = other
      · subst hname
        rw [textAt?_cons_self, textAt?_cons_self]
      · rw [textAt?_cons_of_ne hname, textAt?_cons_of_ne hname, ih]

/-- A shelf that takes a text has it under its path. -/
theorem write_eq_ok {shelf after : Shelf} {path text : String}
    (h : Store.write shelf path text = .ok after) : after = shelf.put path text := by
  have hput : (if shelf.readOnly.contains path then _ else .ok (shelf.put path text)) =
      Except.ok after := h
  split at hput
  · cases hput
  · exact (Except.ok.inj hput).symm

instance : LawfulStore Shelf where
  read_write_self {shelf after path text} h := by
    rw [write_eq_ok h]
    simp only [Store.read, get?, put, textAt?_putFile_self]
  read_write_of_ne {shelf after path other text} h hne := by
    rw [write_eq_ok h]
    simp only [Store.read, get?, put, textAt?_putFile_of_ne hne]

end Shelf

/-- The text that was written to a path last, if any was. -/
def lastWritten? (path : String) : List (String × String) → Option String
  | [] => none
  | (other, text) :: rest =>
    (lastWritten? path rest).or (if other = path then some text else none)

/-- What is written later comes first. -/
theorem lastWritten?_append (path : String) (writes more : List (String × String)) :
    lastWritten? path (writes ++ more) = (lastWritten? path more).or (lastWritten? path writes) := by
  induction writes with
  | nil => simp [lastWritten?]
  | cons write rest ih => rw [List.cons_append, lastWritten?, ih, Option.or_assoc, lastWritten?]

theorem lastWritten?_eq_none {path : String} {writes : List (String × String)}
    (h : ∀ write ∈ writes, write.1 ≠ path) : lastWritten? path writes = none := by
  induction writes with
  | nil => rfl
  | cons write rest ih =>
    have hrest := ih fun other hother => h other (List.mem_cons_of_mem _ hother)
    rw [lastWritten?, hrest, if_neg (h write List.mem_cons_self)]
    rfl

/-- **A store holds what was written last**, and where nothing was written what it held before. -/
theorem FileM.read_run {σ : Type} [Store σ] [LawfulStore σ] (x : FileM α) (store : σ)
    (path : String) :
    Store.read (x.run store).2 path =
      match lastWritten? path (x.writes store) with
      | some text => .ok text
      | none => Store.read store path := by
  induction x generalizing store with
  | done value => rfl
  | read other chain next ih => exact ih _ store
  | write other text next ih =>
    simp only [run, writes]
    cases hwrite : Store.write store other text with
    | error refusal => exact ih _ store
    | ok after =>
      dsimp only
      rw [ih, lastWritten?]
      cases lastWritten? path ((next (.ok ())).writes after) with
      | some last => rfl
      | none =>
        -- this write is the last one to its path
        by_cases hpath : other = path
        · subst hpath
          simp [LawfulStore.read_write_self hwrite]
        · simp [hpath, LawfulStore.read_write_of_ne hwrite (Ne.symm hpath)]

end Bindery
