import Bindery.Identifier
import Bindery.Table

/-!
# `Proofs.Table.Sound` — what a table knows, whatever its scopes

A key has a value in some of the scopes of a table, its column; a look-up depends on the column alone. In a sound table the
scopes make no difference where they should not: an id stands for the same target in every scope that knows it, and
warnings are collected in the outermost one.

## Contents
- `addName`, `Table.withItem`: one more item in a list, and in the entry of a scope.
- `Table.column`: the values of a key, scope by scope, and how each operation changes them; `warnColumn`.
- `Table.Settled`: a column with one value, if any.
- `Table.Sound`, and that every operation of a compilation keeps a table sound.
-/

namespace Bindery

/-! ## Names that are no ids -/

theorem isId_sourceKey : isId Table.sourceKey = false := by decide
theorem isId_destinationKey : isId Table.destinationKey = false := by decide
theorem isId_warningsKey : isId Table.warningsKey = false := by decide
theorem isId_authorsKey : isId Table.authorsKey = false := by decide

/-- An id is none of the names that a compilation uses itself. -/
theorem ne_of_isId {id key : String} (hid : isId id = true) (hkey : isId key = false) : id ≠ key := by
  rintro rfl
  rw [hid] at hkey
  cases hkey

/-! ## Lists of names -/

/-- Names with one more at the end, unless it is there. -/
def addName (names : List String) (name : String) : List String :=
  if names.contains name then names else names ++ [name]

/-- One more name among those that are there once is one more name among all. -/
theorem eraseDups_concat (names : List String) (name : String) :
    (names ++ [name]).eraseDups = addName names.eraseDups name := by
  rw [List.eraseDups_append, addName]
  by_cases hname : name ∈ names
  · simp [List.removeAll, hname]
  · simp [List.removeAll, hname, List.eraseDups_cons]

/-- The entry after one more item was added to it. -/
def Table.withItem (item : String) : Option Value → Option Value
  | some (.list items) => some (.list (addName items item))
  | _ => some (.list [item])

/-! ## Columns -/

/-- An item that is added under a key leaves other keys alone. -/
theorem Scope.get?_appendItem_of_ne (scope : Scope) {key other : String} (item : String)
    (h : other ≠ key) : (scope.appendItem key item).get? other = scope.get? other := by
  unfold Scope.appendItem
  split
  · split
    · rfl
    · exact scope.get?_set_of_ne _ h
  · exact scope.get?_set_of_ne _ h

/-- An item that is added goes into the list of the scope. -/
theorem Scope.get?_appendItem_self (scope : Scope) (key item : String) :
    (scope.appendItem key item).get? key = Table.withItem item (scope.get? key) := by
  unfold Scope.appendItem
  split
  next items hitems =>
    rw [hitems, Table.withItem, addName]
    split
    · exact hitems
    · exact scope.get?_set_self key _
  next hother =>
    rw [scope.get?_set_self, Table.withItem.eq_2 item _ hother]

/-- The values of a key with one more warning in the innermost list of warnings. -/
def warnColumn (warning : Warning) : List (Option Value) → List (Option Value)
  | [] => []
  | some (.warnings given) :: outer => some (.warnings (given ++ [warning])) :: outer
  | value :: outer => value :: warnColumn warning outer

theorem warnColumn_of_warnScope? {warning : Warning} {scope changed : Scope}
    (h : Table.warnScope? warning scope = some changed) (outer : List (Option Value)) :
    warnColumn warning (scope.get? Table.warningsKey :: outer) =
      changed.get? Table.warningsKey :: outer := by
  unfold Table.warnScope? at h
  split at h
  next given hgiven =>
    cases h
    rw [hgiven, Scope.get?_set_self]
    rfl
  next => cases h

theorem warnColumn_of_warnScope?_eq_none {warning : Warning} {scope : Scope}
    (h : Table.warnScope? warning scope = none) (outer : List (Option Value)) :
    warnColumn warning (scope.get? Table.warningsKey :: outer) =
      scope.get? Table.warningsKey :: warnColumn warning outer := by
  unfold Table.warnScope? at h
  split at h
  next => cases h
  next hnone => exact warnColumn.eq_3 warning _ outer (fun given hgiven => hnone given hgiven)

/-- Scopes that are searched for a list of warnings change as their column does, and if there is no list among them,
the search goes on outside. -/
theorem warnColumn_of_warnScopes? {warning : Warning} {scopes : List Scope}
    (outer : List (Option Value)) :
    warnColumn warning (scopes.map (·.get? Table.warningsKey) ++ outer) =
      match Table.warnScopes? warning scopes with
      | some changed => changed.map (·.get? Table.warningsKey) ++ outer
      | none => scopes.map (·.get? Table.warningsKey) ++ warnColumn warning outer := by
  induction scopes with
  | nil => rfl
  | cons scope others ih =>
    rw [List.map_cons, List.cons_append, Table.warnScopes?]
    cases hscope : Table.warnScope? warning scope with
    | some changed => exact warnColumn_of_warnScope? hscope _
    | none =>
      rw [warnColumn_of_warnScope?_eq_none hscope, ih]
      cases Table.warnScopes? warning others <;> rfl

namespace Table

/-- The values of a key, innermost scope first. -/
def column (table : Table) (key : String) : List (Option Value) := table.scopes.map (·.get? key)

/-- A column ends with the value of the outermost scope. -/
theorem column_eq (table : Table) (key : String) :
    table.column key = table.inner.map (·.get? key) ++ [table.root.get? key] := by
  rw [column, scopes, List.map_append]
  rfl

@[simp] theorem length_column (table : Table) (key : String) :
    (table.column key).length = table.inner.length + 1 := by
  simp [column_eq]

/-- A key has the first value of its column. -/
theorem get?_eq_column (table : Table) (key : String) :
    table.get? key = (table.column key).findSome? id := by
  rw [get?, column, List.findSome?_map]
  rfl

/-- What is found under a key depends on its column alone. -/
theorem get?_congr {table other : Table} {key : String} (h : table.column key = other.column key) :
    table.get? key = other.get? key := by
  rw [get?_eq_column, get?_eq_column, h]

theorem id?_congr {table other : Table} {id : String} (h : table.column id = other.column id) :
    table.id? id = other.id? id := by
  rw [id?, id?, get?_congr h]

theorem path?_congr {table other : Table} {key : String} (h : table.column key = other.column key) :
    table.path? key = other.path? key := by
  rw [path?, path?, get?_congr h]

theorem warnings_congr {table other : Table}
    (h : table.column warningsKey = other.column warningsKey) : table.warnings = other.warnings := by
  rw [Table.warnings, Table.warnings, get?_congr h]

/-- What is done to all scopes is done to each value of a column. -/
theorem column_mapAll (table : Table) (f : Scope → Scope) (key : String) :
    (table.mapAll f).column key = table.scopes.map fun scope => (f scope).get? key := by
  simp [column, scopes, mapAll]

/-- A new scope has no value for any key. -/
theorem column_push (table : Table) (key : String) :
    table.push.column key = none :: table.column key := rfl

/-- Closing scopes takes their values from the front of every column. -/
theorem column_keep (table : Table) (count : Nat) (key : String) :
    (table.keep count).column key = (table.column key).drop (table.inner.length - count) := by
  have hfew : table.inner.length - count ≤ (table.inner.map (·.get? key)).length := by simp
  rw [column_eq, column_eq, List.drop_append_of_le_length hfew, ← List.map_drop]
  rfl

/-- Setting a key leaves the columns of others alone. -/
theorem column_set_of_ne (table : Table) {key other : String} (value : Value) (h : other ≠ key) :
    (table.set key value).column other = table.column other := by
  obtain ⟨inner, root⟩ := table
  cases inner with
  | nil => simp [column_eq, set, mapInnermost, Scope.get?_set_of_ne _ _ h]
  | cons scope outer => simp [column_eq, set, mapInnermost, Scope.get?_set_of_ne _ _ h]

/-- Setting a key gives it a value in the innermost scope. -/
theorem column_set_self (table : Table) (key : String) (value : Value) :
    (table.set key value).column key = some value :: (table.column key).tail := by
  obtain ⟨inner, root⟩ := table
  cases inner with
  | nil => simp [column_eq, set, mapInnermost, Scope.get?_set_self]
  | cons scope outer => simp [column_eq, set, mapInnermost, Scope.get?_set_self]

theorem column_setGlobal_of_ne (table : Table) {key other : String} (value : Value)
    (h : other ≠ key) : (table.setGlobal key value).column other = table.column other := by
  simp only [setGlobal, column_mapAll, Scope.get?_set_of_ne _ _ h]
  rfl

/-- Setting a key everywhere leaves it one value. -/
theorem column_setGlobal_self (table : Table) (key : String) (value : Value) :
    (table.setGlobal key value).column key =
      List.replicate table.inner.length (some value) ++ [some value] := by
  simp [setGlobal, column_mapAll, Scope.get?_set_self, scopes, List.map_const']

theorem column_appendGlobal_of_ne (table : Table) {key other : String} (item : String)
    (h : other ≠ key) : (table.appendGlobal key item).column other = table.column other := by
  simp only [appendGlobal, column_mapAll, Scope.get?_appendItem_of_ne _ _ h]
  rfl

theorem warnScope?_get?_of_ne {warning : Warning} {scope changed : Scope} {key : String}
    (h : warnScope? warning scope = some changed) (hkey : key ≠ warningsKey) :
    changed.get? key = scope.get? key := by
  unfold warnScope? at h
  split at h
  · cases h
    exact scope.get?_set_of_ne _ hkey
  · cases h

/-- A warning changes the column of warnings only. -/
theorem warnScopes?_get?_of_ne {warning : Warning} {scopes changed : List Scope} {key : String}
    (h : warnScopes? warning scopes = some changed) (hkey : key ≠ warningsKey) :
    changed.map (·.get? key) = scopes.map (·.get? key) := by
  induction scopes generalizing changed with
  | nil => cases h
  | cons scope outer ih =>
    rw [warnScopes?] at h
    split at h
    next first hfirst =>
      cases h
      rw [List.map_cons, List.map_cons, warnScope?_get?_of_ne hfirst hkey]
    next =>
      obtain ⟨others, hothers, rfl⟩ := Option.map_eq_some_iff.1 h
      rw [List.map_cons, List.map_cons, ih hothers]

/-- A warning leaves the columns of other keys alone. -/
theorem column_warn_of_ne (table : Table) (warning : Warning) {key : String}
    (hkey : key ≠ warningsKey) : (table.warn warning).column key = table.column key := by
  unfold warn
  split
  next inner hinner => rw [column_eq, column_eq, warnScopes?_get?_of_ne hinner hkey]
  next =>
    split
    next root hroot => rw [column_eq, column_eq, warnScope?_get?_of_ne hroot hkey]
    next => rfl

/-- A warning goes to the innermost list of warnings in its column. -/
theorem column_warn_self (table : Table) (warning : Warning) :
    (table.warn warning).column warningsKey = warnColumn warning (table.column warningsKey) := by
  rw [column_eq table, warnColumn_of_warnScopes?, warn]
  cases warnScopes? warning table.inner with
  | some inner => exact column_eq _ _
  | none =>
    cases hroot : warnScope? warning table.root with
    | some root => rw [warnColumn_of_warnScope? hroot]; exact column_eq _ _
    | none => rw [warnColumn_of_warnScope?_eq_none hroot]; exact column_eq _ _

/-! ## Sound tables -/

/-- A column whose outermost value is `value`, and that has no other. -/
def Settled (column : List (Option Value)) (value : Option Value) : Prop :=
  ∃ inner, column = inner ++ [value] ∧ ∀ v ∈ inner, v = none ∨ v = value

/-- A look-up in a settled column finds its one value. -/
theorem Settled.findSome?_eq {column : List (Option Value)} {value : Option Value}
    (h : Settled column value) : column.findSome? id = value := by
  obtain ⟨inner, rfl, hinner⟩ := h
  induction inner with
  | nil => cases value <;> rfl
  | cons v rest ih =>
    have hrest := ih fun w hw => hinner w (List.mem_cons_of_mem _ hw)
    rcases hinner v List.mem_cons_self with rfl | rfl
    · exact hrest
    · cases v with
      | none => exact hrest
      | some _ => rfl

theorem Settled.cons_none {column : List (Option Value)} {value : Option Value}
    (h : Settled column value) : Settled (none :: column) value := by
  obtain ⟨inner, rfl, hinner⟩ := h
  refine ⟨none :: inner, rfl, fun v hv => ?_⟩
  rcases List.mem_cons.1 hv with rfl | hv
  · exact .inl rfl
  · exact hinner v hv

/-- A column stays settled when scopes are closed, as long as the outermost stays. -/
theorem Settled.drop {column : List (Option Value)} {value : Option Value}
    (h : Settled column value) {count : Nat} (hcount : count < column.length) :
    Settled (column.drop count) value := by
  obtain ⟨inner, rfl, hinner⟩ := h
  have hfew : count ≤ inner.length := by simpa [Nat.lt_succ_iff] using hcount
  refine ⟨inner.drop count, List.drop_append_of_le_length hfew, fun v hv => ?_⟩
  exact hinner v (List.mem_of_mem_drop hv)

/-- An id whose column is settled stands for its one target. -/
theorem id?_of_settled {table : Table} {id : String} {target : Option Target}
    (h : Settled (table.column id) (target.map .id)) : table.id? id = target := by
  rw [id?, get?_eq_column, h.findSome?_eq]
  cases target <;> rfl

/-- A table in which an id stands for one target at most, nothing but an id stands for a target, and warnings are collected
in the outermost scope. -/
structure Sound (table : Table) : Prop where
  ids : ∀ id, isId id = true → Settled (table.column id) ((table.id? id).map .id)
  others : ∀ key, isId key = false → ∀ target, some (Value.id target) ∉ table.column key
  warnings : table.column warningsKey =
    List.replicate table.inner.length none ++ [some (.warnings table.warnings)]

/-- Warnings that are collected in the outermost scope are found from any scope. -/
theorem warnings_of_column {table : Table} {count : Nat} {given : List Warning}
    (h : table.column warningsKey = List.replicate count none ++ [some (.warnings given)]) :
    table.warnings = given := by
  have hget : table.get? warningsKey = some (.warnings given) := by
    rw [get?_eq_column, h, List.findSome?_append, List.findSome?_replicate]
    split <;> simp
  rw [Table.warnings, hget]

/-- A name without targets in its column is no id. -/
theorem id?_eq_none_of_column {table : Table} {key : String}
    (h : ∀ target, some (Value.id target) ∉ table.column key) : table.id? key = none := by
  rw [id?]
  split
  next target htarget =>
    rw [get?_eq_column] at htarget
    obtain ⟨v, hv, hvalue⟩ := List.exists_of_findSome?_eq_some htarget
    cases hvalue
    exact absurd hv (h target)
  next => rfl

/-- In a sound table only ids stand for targets. -/
theorem Sound.id?_eq_none {table : Table} (h : table.Sound) {key : String}
    (hkey : isId key = false) : table.id? key = none :=
  id?_eq_none_of_column (h.others key hkey)

/-- Sound tables with the same columns of ids know the same ids; under other names they know none. -/
theorem Sound.id?_eq {table after : Table} (h : table.Sound) (hafter : after.Sound)
    (hcolumns : ∀ id, isId id = true → after.column id = table.column id) (id : String) :
    after.id? id = table.id? id := by
  cases hid : isId id with
  | true => exact id?_congr (hcolumns id hid)
  | false => rw [h.id?_eq_none hid, hafter.id?_eq_none hid]

theorem column_new_of_ne {key : String} (h : key ≠ warningsKey) : Table.new.column key = [none] := by
  simp only [column_eq, new, Scope.get?_set_of_ne _ _ h]
  rfl

/-- A new table knows no ids. -/
theorem id?_new (id : String) : Table.new.id? id = none := by
  by_cases h : id = warningsKey
  · subst h
    rfl
  · rw [id?, get?_eq_column, column_new_of_ne h]
    rfl

/-- A new table is sound. -/
theorem sound_new : Table.new.Sound where
  ids id hid := by
    have hne : id ≠ warningsKey := ne_of_isId hid isId_warningsKey
    exact ⟨[], by rw [column_new_of_ne hne, id?_new]; rfl, by simp⟩
  others key hkey target := by
    by_cases h : key = warningsKey
    · subst h
      simp [column_eq, new, Scope.get?_set_self]
    · simp [column_new_of_ne h]
  warnings := rfl

/-! ### Scopes -/

theorem get?_push (table : Table) (key : String) : table.push.get? key = table.get? key := by
  rw [get?_eq_column, get?_eq_column]
  rfl

theorem id?_push (table : Table) (id : String) : table.push.id? id = table.id? id := by
  rw [id?, id?, get?_push]

theorem warnings_push (table : Table) : table.push.warnings = table.warnings := by
  rw [Table.warnings, Table.warnings, get?_push]

/-- A sound table stays sound when a scope is opened. -/
theorem Sound.push {table : Table} (h : table.Sound) : table.push.Sound where
  ids id hid := by
    rw [id?_push]
    exact (h.ids id hid).cons_none
  others key hkey target hmem := by
    rcases List.mem_cons.1 hmem with hnone | hmem
    · cases hnone
    · exact h.others key hkey target hmem
  warnings := by
    rw [column_push, h.warnings, warnings_push]
    rfl

theorem length_inner_keep {table : Table} {count : Nat} (hcount : count ≤ table.inner.length) :
    (table.keep count).inner.length = count := by
  simp only [keep, List.length_drop]
  omega

/-- No id is lost when scopes are closed. -/
theorem Sound.id?_keep {table : Table} (h : table.Sound) (count : Nat) (id : String) :
    (table.keep count).id? id = table.id? id := by
  have hless : table.inner.length - count < (table.column id).length := by
    rw [length_column]
    omega
  cases hid : isId id with
  | true =>
    refine id?_of_settled ?_
    rw [column_keep]
    exact (h.ids id hid).drop hless
  | false =>
    rw [h.id?_eq_none hid]
    refine id?_eq_none_of_column fun target hmem => ?_
    rw [column_keep] at hmem
    exact h.others id hid target (List.mem_of_mem_drop hmem)

theorem Sound.column_warnings_keep {table : Table} (h : table.Sound) {count : Nat}
    (hcount : count ≤ table.inner.length) :
    (table.keep count).column warningsKey =
      List.replicate count none ++ [some (.warnings table.warnings)] := by
  rw [column_keep, h.warnings, List.drop_append_of_le_length (by simp), List.drop_replicate,
    Nat.sub_sub_self hcount]

/-- No warning is lost when scopes are closed. -/
theorem Sound.warnings_keep {table : Table} (h : table.Sound) {count : Nat}
    (hcount : count ≤ table.inner.length) : (table.keep count).warnings = table.warnings :=
  warnings_of_column (h.column_warnings_keep hcount)

/-- A sound table stays sound when scopes are closed. -/
theorem Sound.keep {table : Table} (h : table.Sound) {count : Nat}
    (hcount : count ≤ table.inner.length) : (table.keep count).Sound where
  ids id hid := by
    rw [h.id?_keep, column_keep]
    refine (h.ids id hid).drop ?_
    rw [length_column]
    omega
  others key hkey target hmem := by
    rw [column_keep] at hmem
    exact h.others key hkey target (List.mem_of_mem_drop hmem)
  warnings := by
    rw [h.warnings_keep hcount, length_inner_keep hcount]
    exact h.column_warnings_keep hcount

/-! ### Writes -/

@[simp] theorem length_inner_set (table : Table) (key : String) (value : Value) :
    (table.set key value).inner.length = table.inner.length := by
  obtain ⟨inner, root⟩ := table
  cases inner <;> rfl

@[simp] theorem length_inner_setGlobal (table : Table) (key : String) (value : Value) :
    (table.setGlobal key value).inner.length = table.inner.length := List.length_map _

@[simp] theorem length_inner_appendGlobal (table : Table) (key item : String) :
    (table.appendGlobal key item).inner.length = table.inner.length := List.length_map _

/-- A table that differs from a sound one only in a name that is neither an id nor that of the warnings is sound too, unless a
target was put there. -/
theorem Sound.of_columns {table after : Table} (h : table.Sound) {key : String}
    (hid : isId key = false) (hwarnings : key ≠ warningsKey)
    (hlength : after.inner.length = table.inner.length)
    (hcolumn : ∀ other, other ≠ key → after.column other = table.column other)
    (hkey : ∀ target, some (Value.id target) ∉ after.column key) : after.Sound where
  ids id hvalid := by
    have hsame := hcolumn id (ne_of_isId hvalid hid)
    rw [id?_congr hsame, hsame]
    exact h.ids id hvalid
  others other hother target := by
    by_cases hne : other = key
    · subst hne
      exact hkey target
    · rw [hcolumn other hne]
      exact h.others other hother target
  warnings := by
    have hsame := hcolumn warningsKey hwarnings.symm
    rw [hlength, hsame, warnings_congr hsame]
    exact h.warnings

/-- The source and the destination of a document can be set in a sound table. -/
theorem Sound.set_path {table : Table} (h : table.Sound) {key : String} (hid : isId key = false)
    (hwarnings : key ≠ warningsKey) (path : DocumentPath) : (table.set key (.path path)).Sound := by
  refine h.of_columns hid hwarnings (length_inner_set _ _ _)
    (fun other hne => column_set_of_ne _ _ hne) fun target hmem => ?_
  rw [column_set_self] at hmem
  rcases List.mem_cons.1 hmem with heq | hmem
  · cases heq
  · exact h.others key hid target (List.mem_of_mem_tail hmem)

/-- Authors can be added to a sound table. -/
theorem Sound.appendGlobal_authors {table : Table} (h : table.Sound) (name : String) :
    (table.appendGlobal authorsKey name).Sound := by
  refine h.of_columns isId_authorsKey (by decide) (length_inner_appendGlobal _ _ _)
    (fun other hne => column_appendGlobal_of_ne _ _ hne) fun target hmem => ?_
  rw [appendGlobal, column_mapAll] at hmem
  obtain ⟨scope, -, hvalue⟩ := List.mem_map.1 hmem
  rw [scope.get?_appendItem_self] at hvalue
  unfold withItem at hvalue
  split at hvalue <;> cases hvalue

/-- An id that is given a target everywhere stands for it. -/
theorem id?_setGlobal_self (table : Table) (id : String) (target : Target) :
    (table.setGlobal id (.id target)).id? id = some target := by
  refine id?_of_settled ⟨_, column_setGlobal_self table id _, fun v hv => ?_⟩
  exact .inr (List.eq_of_mem_replicate hv)

/-- An id can be given a target in a sound table, in all scopes at once. -/
theorem Sound.setGlobal_id {table : Table} (h : table.Sound) {id : String} (hid : isId id = true)
    (target : Target) : (table.setGlobal id (.id target)).Sound where
  ids other hother := by
    by_cases heq : other = id
    · subst heq
      rw [id?_setGlobal_self]
      refine ⟨_, column_setGlobal_self table other _, fun v hv => ?_⟩
      exact .inr (List.eq_of_mem_replicate hv)
    · have hsame := column_setGlobal_of_ne table (.id target) heq
      rw [id?_congr hsame, hsame]
      exact h.ids other hother
  others key hkey other := by
    rw [column_setGlobal_of_ne table _ (ne_of_isId hid hkey).symm]
    exact h.others key hkey other
  warnings := by
    have hsame := column_setGlobal_of_ne table (.id target) (ne_of_isId hid isId_warningsKey).symm
    rw [length_inner_setGlobal, hsame, warnings_congr hsame]
    exact h.warnings

theorem warnScopes?_eq_none {warning : Warning} {scopes : List Scope}
    (h : ∀ scope ∈ scopes, scope.get? warningsKey = none) : warnScopes? warning scopes = none := by
  induction scopes with
  | nil => rfl
  | cons scope outer ih =>
    have hscope : warnScope? warning scope = none := by
      rw [warnScope?, h scope List.mem_cons_self]
    rw [warnScopes?, hscope, ih fun other hother => h other (List.mem_cons_of_mem _ hother)]
    rfl

/-- In a sound table a warning goes to the outermost scope. -/
theorem Sound.warn_eq {table : Table} (h : table.Sound) (warning : Warning) :
    table.warn warning =
      ⟨table.inner, table.root.set warningsKey (.warnings (table.warnings ++ [warning]))⟩ := by
  have hcolumn := h.warnings
  rw [column_eq] at hcolumn
  obtain ⟨hinner, hroot⟩ := List.append_inj' hcolumn rfl
  -- no inner scope has a list of warnings, so the search goes on to the outermost one
  have hnone : warnScopes? warning table.inner = none := by
    refine warnScopes?_eq_none fun scope hscope => ?_
    have hmem : scope.get? warningsKey ∈ List.replicate table.inner.length none :=
      hinner ▸ List.mem_map_of_mem hscope
    exact List.eq_of_mem_replicate hmem
  rw [warn, hnone, warnScope?, (List.cons.inj hroot).1]

theorem Sound.column_warnings_warn {table : Table} (h : table.Sound) (warning : Warning) :
    (table.warn warning).column warningsKey =
      List.replicate table.inner.length none ++ [some (.warnings (table.warnings ++ [warning]))] := by
  have hcolumn := h.warnings
  rw [column_eq] at hcolumn
  rw [h.warn_eq, column_eq, (List.append_inj' hcolumn rfl).1, Scope.get?_set_self]

/-- A warning is added at the end of those that there are. -/
theorem Sound.warnings_warn {table : Table} (h : table.Sound) (warning : Warning) :
    (table.warn warning).warnings = table.warnings ++ [warning] :=
  warnings_of_column (h.column_warnings_warn warning)

/-- A sound table stays sound when a warning is given. -/
theorem Sound.warn {table : Table} (h : table.Sound) (warning : Warning) :
    (table.warn warning).Sound where
  ids id hid := by
    have hsame := column_warn_of_ne table warning (ne_of_isId hid isId_warningsKey)
    rw [id?_congr hsame, hsame]
    exact h.ids id hid
  others key hkey target := by
    by_cases hne : key = warningsKey
    · subst hne
      rw [h.column_warnings_warn]
      simp
    · rw [column_warn_of_ne table warning hne]
      exact h.others key hkey target
  warnings := by
    rw [h.warnings_warn, h.column_warnings_warn, h.warn_eq]

end Table
end Bindery
