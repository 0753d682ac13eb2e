import Bindery.Path.DocumentPath
import Bindery.Storage.Refusal

/-!
# `Storage.FileM` — computations that read and write files

A computation asks for a file to be read or written and goes on with the answer. It does not say who answers: a store
kept in memory, the model of a disk, or the system the program runs on. So everything that is decided here is decided by
pure functions, and a store is all that a run depends on.

## Contents
- `FileM`, its monad structure, `load` and `save`.
- `Store`: what can answer; `FileM.run`, `FileM.writes`.
-/

namespace Bindery

/-- A computation that reads and writes files. A request to read says for which chain of documents the file is wanted,
with the outermost first; the answer does not depend on it. -/
inductive FileM (α : Type) where
  | done (value : α)
  | read (path : String) (chain : List DocumentPath) (next : Except Refusal String → FileM α)
  | write (path text : String) (next : Except SaveRefusal Unit → FileM α)

namespace FileM

/-- Go on with the value of a computation. -/
def bind : FileM α → (α → FileM β) → FileM β
  | .done value, f => f value
  | .read path chain next, f => .read path chain fun answer => (next answer).bind f
  | .write path text next, f => .write path text fun answer => (next answer).bind f

instance : Monad FileM where
  pure := .done
  bind := bind

theorem bind_done (x : FileM α) : x.bind .done = x := by
  induction x with
  | done value => rfl
  | read path chain next ih => simp only [bind, ih]
  | write path text next ih => simp only [bind, ih]

theorem bind_assoc (x : FileM α) (f : α → FileM β) (g : β → FileM γ) :
    (x.bind f).bind g = x.bind fun a => (f a).bind g := by
  induction x with
  | done value => rfl
  | read path chain next ih => simp only [bind, ih]
  | write path text next ih => simp only [bind, ih]

instance : LawfulMonad FileM :=
  LawfulMonad.mk' FileM
    (fun x => bind_done x)
    (fun _ _ => rfl)
    (fun x f g => bind_assoc x f g)

/-- The text of the document at `path`, wanted for the last of a chain of documents. -/
def load (path : DocumentPath) (chain : List DocumentPath) : FileM (Except Failure String) :=
  .read path.text chain fun answer => .done <|
    answer.mapError fun refusal =>
      .general ("Unable to read file: " ++ refusal.text) (some path.text)

/-- Write a text to `path`, making its directory if need be, and go on with the text. -/
def save (path : DocumentPath) (text : String) : FileM (Except Failure String) :=
  .write path.text text fun answer => .done <|
    match answer with
    | .ok () => .ok text
    | .error (.directory refusal) => .error (.ofRefusal refusal)
    | .error (.file refusal) =>
      .error (.general ("Unable to write file: " ++ refusal.text) (some path.text))

end FileM

/-- What files can be read from and written to. A refused write changes nothing. -/
class Store (σ : Type) where
  read : σ → String → Except Refusal String
  write : σ → String → String → Except SaveRefusal σ

namespace FileM

variable [Store σ]

/-- Run a computation on a store: its value, and the store afterwards. -/
def run : FileM α → σ → α × σ
  | .done value, store => (value, store)
  | .read path _ next, store => (next (Store.read store path)).run store
  | .write path text next, store =>
    match Store.write store path text with
    | .ok store => (next (.ok ())).run store
    | .error refusal => (next (.error refusal)).run store

/-- The paths and texts that a computation writes to a store, in order; what is refused does not count. -/
def writes : FileM α → σ → List (String × String)
  | .done _, _ => []
  | .read path _ next, store => (next (Store.read store path)).writes store
  | .write path text next, store =>
    match Store.write store path text with
    | .ok store => (path, text) :: (next (.ok ())).writes store
    | .error refusal => (next (.error refusal)).writes store

@[simp] theorem run_pure (value : α) (store : σ) :
    (pure value : FileM α).run store = (value, store) := rfl

@[simp] theorem run_bind (x : FileM α) (f : α → FileM β) (store : σ) :
    (x >>= f).run store = (f (x.run store).1).run (x.run store).2 := by
  show (x.bind f).run store = _
  induction x generalizing store with
  | done value => rfl
  | read path chain next ih => exact ih _ store
  | write path text next ih =>
    simp only [bind, run]
    cases Store.write store path text with
    | ok after => exact ih _ after
    | error refusal => exact ih _ store

end FileM
end Bindery
