import Bindery.Proofs.Table.History
import Mathlib.Data.List.Induction

/-!
# `Proofs.Table.Lifetimes` — what each scope of a table remembers

Items that are added everywhere, such as the authors of a project, reach every scope that is open at the time, and each
scope keeps a list of its own. A scope that was opened later has missed what came before, and one that is closed takes
its list with it. So the lists of a table differ from scope to scope, but each of them tells one thing: what was
added since the scope was opened.

## Contents
- `Operation.AddsOnly`, `added`, `recorded`: the items a key was given, and the entry that they make.
- `Lifetime`: what was done since the scope at a place was opened; `Lifetime.unique`, `exists_lifetime`.
- `EntryStep`, `Session.entries_step`: all that an operation can do to the entries of a key.
- `scope_records_lifetime`: the entry of a scope is the history of its own lifetime.
-/

namespace Bindery
namespace Table

/-! ## The items of a key -/

/-- Nothing writes to the key but what adds an item to the list of every scope. -/
def Operation.AddsOnly (key : String) : Operation → Prop
  | .set other _ => other ≠ key
  | .setGlobal other _ => other ≠ key
  | .append other _ => other ≠ key
  | .register id _ => id ≠ key
  | _ => True

/-- The item that an operation adds to the list of every scope. -/
def Operation.item? (key : String) : Operation → Option String
  | .appendGlobal other item => if other = key then some item else none
  | _ => none

/-- The items that some operations add to the list of every scope, in order. -/
def added (key : String) (operations : List Operation) : List String :=
  operations.filterMap (·.item? key)

/-- The entry that items make which were added one after the other: none if there are none, and otherwise the list of
them, each where it was added first. -/
def recorded : List String → Option Value
  | [] => none
  | item :: others => some (.list (item :: others).eraseDups)

/-- One more item in an entry is one more item in its history. -/
theorem withItem_recorded (items : List String) (item : String) :
    withItem item (recorded items) = recorded (items ++ [item]) := by
  cases items with
  | nil => rfl
  | cons first others =>
    rw [recorded, withItem, ← eraseDups_concat]
    rfl

theorem added_concat (key : String) (operations : List Operation) (operation : Operation) :
    added key (operations ++ [operation]) = added key operations ++ (operation.item? key).toList := by
  rw [added, List.filterMap_append, ← added]
  cases h : operation.item? key <;> simp [h]

/-! ## Lifetimes -/

theorem Session.run_concat (operations : List Operation) (operation : Operation) (session : Session) :
    run (operations ++ [operation]) session = (run operations session).bind (·.step operation) := by
  induction operations generalizing session with
  | nil => exact Option.bind_fun_some _
  | cons first rest ih =>
    rw [List.cons_append, run, run, Option.bind_assoc]
    exact congrArg _ (funext ih)

/-- What was done with a table since the scope at a place was opened, where places count from the outermost scope. The
outermost scope is there from the start. Any other is opened when there are as many scopes as there are places before
its own, and it lasts as long as there are more. -/
inductive Lifetime : List Operation → Nat → List Operation → Prop where
  | root : Lifetime [] 0 []
  | opened {operations : List Operation} {operation : Operation} {before after : Session}
      (hbefore : Session.run operations .new = some before)
      (hstep : before.step operation = some after)
      (hopen : before.table.depth < after.table.depth) :
      Lifetime (operations ++ [operation]) before.table.depth []
  | lasts {operations since : List Operation} {operation : Operation} {place : Nat} {after : Session}
      (hsince : Lifetime operations place since)
      (hafter : Session.run (operations ++ [operation]) .new = some after)
      (hopen : place < after.table.depth) :
      Lifetime (operations ++ [operation]) place (since ++ [operation])

variable {operations since : List Operation} {operation : Operation} {place : Nat} {key : String}
  {session after : Session}

/-- A scope is open at the end of its lifetime so far. -/
theorem Lifetime.lt_depth (h : Lifetime operations place since)
    (hrun : Session.run operations .new = some session) : place < session.table.depth := by
  cases h with
  | root =>
    cases hrun
    decide
  | opened hbefore hstep hopen =>
    rw [Session.run_concat, hbefore, Option.bind_some, hstep] at hrun
    cases hrun
    exact hopen
  | lasts hsince hafter hopen =>
    rw [hafter] at hrun
    cases hrun
    exact hopen

/-- A scope has one lifetime. -/
theorem Lifetime.unique (h : Lifetime operations place since) {other : List Operation}
    (hother : Lifetime operations place other) : other = since := by
  induction h generalizing other with
  | root =>
    generalize hoperations : ([] : List Operation) = operations at hother
    cases hother with
    | root => rfl
    | lasts hsince hafter hopen => simp at hoperations
  | @opened operations operation before after hbefore hstep hopen =>
    generalize hoperations : operations ++ [operation] = all at hother
    generalize hplace : before.table.depth = place at hother
    cases hother with
    | root => simp at hoperations
    | opened => rfl
    | lasts hsince hafter _ =>
      -- a scope that lasts was there before, at a place that was not open then
      obtain ⟨rfl, -⟩ := List.append_inj' hoperations rfl
      have hlt := hsince.lt_depth hbefore
      omega
  | @lasts operations since operation place after hsince hafter hopen ih =>
    generalize hoperations : operations ++ [operation] = all at hother
    cases hother with
    | root => simp at hoperations
    | opened hbefore hstep _ =>
      obtain ⟨rfl, -⟩ := List.append_inj' hoperations rfl
      have hlt := hsince.lt_depth hbefore
      omega
    | lasts hother _ _ =>
      obtain ⟨rfl, hlast⟩ := List.append_inj' hoperations rfl
      cases hlast
      rw [ih hother]

/-! ## One operation -/

/-- The entries of a key, outermost scope first. -/
def entries (table : Table) (key : String) : List (Option Value) := (table.column key).reverse

@[simp] theorem length_entries (table : Table) (key : String) :
    (table.entries key).length = table.depth := by
  rw [entries, List.length_reverse, length_column, depth]

theorem entries_push (table : Table) (key : String) :
    table.push.entries key = table.entries key ++ [none] := List.reverse_cons

theorem entries_mapAll (table : Table) (f : Scope → Scope) (key : String) :
    (table.mapAll f).entries key = table.scopes.reverse.map fun scope => (f scope).get? key := by
  rw [entries, column_mapAll, List.map_reverse]

theorem entries_drop {table other : Table} {count : Nat}
    (h : other.column key = (table.column key).drop count) :
    other.entries key = (table.entries key).take other.depth := by
  have hlength := congrArg List.length h
  rw [length_column, List.length_drop] at hlength
  rw [entries, h, List.reverse_drop, ← hlength]
  rfl

/-- How the entries of a key can change: the inner ones go with their scopes, a scope without an entry is opened, or an
item is added to each of them. -/
inductive EntryStep (entries : List (Option Value)) : Option String → List (Option Value) → Prop where
  | close (count : Nat) : EntryStep entries none (entries.take count)
  | opens : EntryStep entries none (entries ++ [none])
  | add (item : String) : EntryStep entries (some item) (entries.map (withItem item))

theorem EntryStep.stay {table other : Table} (h : other.column key = table.column key) :
    EntryStep (table.entries key) none (other.entries key) := by
  rw [@entries_drop key table other 0 h]
  exact .close _

/-- **All that an operation can do to the entries of a key**, if it does no more than add items. -/
theorem Session.entries_step (hkey : key ≠ warningsKey) (hadds : operation.AddsOnly key)
    (h : session.step operation = some after) :
    EntryStep (session.table.entries key) (operation.item? key) (after.table.entries key) := by
  cases operation with
  | push =>
    cases h
    show EntryStep _ _ (session.table.push.entries key)
    rw [entries_push]
    exact .opens
  | pop =>
    cases h
    obtain ⟨count, -, hcolumn⟩ := column_pop session.table key
    show EntryStep _ _ (session.table.pop.entries key)
    rw [entries_drop hcolumn]
    exact .close _
  | enter =>
    cases h
    show EntryStep _ _ (session.table.push.entries key)
    rw [entries_push]
    exact .opens
  | leave =>
    obtain ⟨table, begun⟩ := session
    cases begun with
    | nil => cases h
    | cons count outer =>
      cases h
      show EntryStep _ _ ((table.keep count).entries key)
      rw [entries_drop (column_keep table count key)]
      exact .close _
  | set other value =>
    cases h
    exact .stay (column_set_of_ne _ _ (Ne.symm hadds))
  | setGlobal other value =>
    cases h
    exact .stay (column_setGlobal_of_ne _ _ (Ne.symm hadds))
  | append other item =>
    cases h
    exact .stay (column_append_of_ne _ _ (Ne.symm hadds))
  | appendGlobal other item =>
    cases h
    by_cases heq : other = key
    · subst heq
      have hentries : (session.table.appendGlobal other item).entries other =
          (session.table.entries other).map (withItem item) := by
        rw [appendGlobal, entries_mapAll, entries, column, ← List.map_reverse, List.map_map]
        exact List.map_congr_left fun scope _ => scope.get?_appendItem_self other item
      show EntryStep _ _ ((session.table.appendGlobal other item).entries other)
      rw [hentries, Operation.item?, if_pos rfl]
      exact .add item
    · rw [Operation.item?, if_neg heq]
      exact .stay (column_appendGlobal_of_ne _ _ (Ne.symm heq))
  | warn warning =>
    cases h
    exact .stay (column_warn_of_ne _ _ hkey)
  | register id target =>
    rw [step] at h
    rcases register_cases session.table id target with hsame | ⟨existing, hrefused⟩ | ⟨-, hnew⟩
    · rw [hsame] at h
      cases h
      exact .stay rfl
    · rw [hrefused] at h
      cases h
      exact .stay rfl
    · rw [hnew] at h
      cases h
      exact .stay (column_setGlobal_of_ne _ _ (Ne.symm hadds))

/-- A scope that lasts keeps its entry, or has one more item in it. -/
theorem EntryStep.lasts {before later : List (Option Value)} {item : Option String}
    (h : EntryStep before item later) {items : List String}
    (hplace : before[place]? = some (recorded items)) (hopen : place < later.length) :
    later[place]? = some (recorded (items ++ item.toList)) := by
  cases h with
  | close count =>
    have hcount : place < count := by
      rw [List.length_take] at hopen
      omega
    rw [List.getElem?_take_of_lt hcount, hplace]
    simp
  | opens =>
    obtain ⟨hlt, -⟩ := List.getElem?_eq_some_iff.1 hplace
    rw [List.getElem?_append_left hlt, hplace]
    simp
  | add item =>
    rw [List.getElem?_map, hplace, Option.map_some, withItem_recorded]
    rfl

/-- A scope has no entry when it is opened. -/
theorem EntryStep.opened {before later : List (Option Value)} {item : Option String}
    (h : EntryStep before item later) (hopen : before.length < later.length) :
    later[before.length]? = some none := by
  cases h with
  | close count =>
    rw [List.length_take] at hopen
    omega
  | opens => exact List.getElem?_concat_length
  | add item =>
    rw [List.length_map] at hopen
    omega

/-- No operation opens more than one scope. -/
theorem EntryStep.length_le {before later : List (Option Value)} {item : Option String}
    (h : EntryStep before item later) : later.length ≤ before.length + 1 := by
  cases h with
  | close count =>
    rw [List.length_take]
    omega
  | opens => simp
  | add item =>
    rw [List.length_map]
    omega

/-! ## Any number of operations -/

theorem entries_new (hkey : key ≠ warningsKey) : Table.new.entries key = [none] := by
  rw [entries, column_new_of_ne hkey]
  rfl

theorem addsOnly_concat (hadds : ∀ each ∈ operations ++ [operation], each.AddsOnly key) :
    (∀ each ∈ operations, each.AddsOnly key) ∧ operation.AddsOnly key :=
  ⟨fun each heach => hadds each (List.mem_append_left _ heach),
    hadds operation (List.mem_append_right _ List.mem_cons_self)⟩

/-- **The entry of a scope tells its lifetime.** -/
theorem Lifetime.entry (h : Lifetime operations place since) (hkey : key ≠ warningsKey)
    (hadds : ∀ each ∈ operations, each.AddsOnly key)
    (hrun : Session.run operations .new = some session) :
    (session.table.entries key)[place]? = some (recorded (added key since)) := by
  induction h generalizing session with
  | root =>
    cases hrun
    show (Table.new.entries key)[0]? = _
    rw [entries_new hkey]
    rfl
  | opened hbefore hstep hopen =>
    rw [Session.run_concat, hbefore, Option.bind_some, hstep] at hrun
    cases hrun
    have hentries := Session.entries_step hkey (addsOnly_concat hadds).2 hstep
    have hnone := hentries.opened (by rwa [length_entries, length_entries])
    rwa [length_entries] at hnone
  | lasts hsince hafter hopen ih =>
    rw [hafter] at hrun
    cases hrun
    rw [Session.run_concat] at hafter
    obtain ⟨middle, hmiddle, hstep⟩ := Option.bind_eq_some_iff.1 hafter
    have hentries := Session.entries_step hkey (addsOnly_concat hadds).2 hstep
    have hbefore := ih (addsOnly_concat hadds).1 hmiddle
    rw [added_concat]
    exact hentries.lasts hbefore (by rwa [length_entries])

/-- Every open scope has a lifetime. -/
theorem exists_lifetime (hkey : key ≠ warningsKey) (hadds : ∀ each ∈ operations, each.AddsOnly key)
    (hrun : Session.run operations .new = some session) (hplace : place < session.table.depth) :
    ∃ since, Lifetime operations place since := by
  induction operations using List.reverseRecOn generalizing session place with
  | nil =>
    cases hrun
    have hroot : place = 0 := by
      have hdepth : Session.new.table.depth = 1 := rfl
      omega
    subst hroot
    exact ⟨[], .root⟩
  | append_singleton operations operation ih =>
    have hafter := hrun
    rw [Session.run_concat] at hafter
    obtain ⟨middle, hmiddle, hstep⟩ := Option.bind_eq_some_iff.1 hafter
    by_cases hlasts : place < middle.table.depth
    · obtain ⟨since, hsince⟩ := ih (addsOnly_concat hadds).1 hmiddle hlasts
      exact ⟨_, .lasts hsince hrun hplace⟩
    · have hmore := (Session.entries_step hkey (addsOnly_concat hadds).2 hstep).length_le
      rw [length_entries, length_entries] at hmore
      have hhere : place = middle.table.depth := by omega
      subst hhere
      exact ⟨[], .opened hmiddle hstep hplace⟩

theorem getElem?_entries (table : Table) (key : String) (place : Nat) :
    (table.entries key)[place]? = (table.scopes.reverse[place]?).map (·.get? key) := by
  rw [entries, column, ← List.map_reverse, List.getElem?_map]

/-- **Each scope's list is the history of its own lifetime.** Take any use of a new table in which a key other than that
of the warnings is written to only by adding items to the lists of all scopes. At any time every open scope has one
lifetime, and its own entry for the key is what was added in this lifetime: none if nothing was, and otherwise the
list of the items in the order they were first added, without repeats. -/
theorem scope_records_lifetime (hkey : key ≠ warningsKey)
    (hadds : ∀ each ∈ operations, each.AddsOnly key)
    (hrun : Session.run operations .new = some session) {scope : Scope}
    (hscope : session.table.scopes.reverse[place]? = some scope) :
    ∃ since, Lifetime operations place since ∧
      (∀ other, Lifetime operations place other → other = since) ∧
      scope.get? key = recorded (added key since) := by
  have hentry : (session.table.entries key)[place]? = some (scope.get? key) := by
    rw [getElem?_entries, hscope]
    rfl
  have hplace : place < session.table.depth := by
    rw [← length_entries session.table key]
    exact (List.getElem?_eq_some_iff.1 hentry).1
  obtain ⟨since, hsince⟩ := exists_lifetime hkey hadds hrun hplace
  refine ⟨since, hsince, fun other hother => hsince.unique hother, ?_⟩
  have hrecorded := hsince.entry hkey hadds hrun
  rw [hentry] at hrecorded
  exact Option.some.inj hrecorded

/-- A tag is given before a scope is opened, another inside, and both again in a scope inside of that, after one was
closed that had tags of its own. -/
def taggings : List Operation :=
  [.appendGlobal "tags" "a", .enter, .appendGlobal "tags" "b", .push, .appendGlobal "tags" "c", .pop,
    .register "tag" firstTarget, .appendGlobal "tags" "a", .push, .appendGlobal "tags" "b",
    .appendGlobal "tags" "a", .append "notes" "n", .push]

/-- The scopes of one table have four different entries for the same key. -/
theorem scope_records_lifetime_taggings : ∃ session, Session.run taggings .new = some session ∧
    session.table.scopes.reverse.map (·.get? "tags") =
      [some (.list ["a", "b", "c"]), some (.list ["b", "c", "a"]), some (.list ["b", "a"]), none] ∧
    ∀ place scope, session.table.scopes.reverse[place]? = some scope → ∃ since,
      Lifetime taggings place since ∧ scope.get? "tags" = recorded (added "tags" since) := by
  have hfound : (Session.run taggings .new).map (·.table.scopes.reverse.map (·.get? "tags")) =
      some [some (.list ["a", "b", "c"]), some (.list ["b", "c", "a"]), some (.list ["b", "a"]),
        none] := by
    decide +kernel
  obtain ⟨session, hrun, hentries⟩ := Option.map_eq_some_iff.1 hfound
  refine ⟨session, hrun, hentries, fun place scope hscope => ?_⟩
  have hadds : ∀ each ∈ taggings, each.AddsOnly "tags" := by
    simp [taggings, Operation.AddsOnly]
  obtain ⟨since, hsince, -, hentry⟩ :=
    scope_records_lifetime (by decide) hadds hrun hscope
  exact ⟨since, hsince, hentry⟩

end Table
end Bindery
