import Bindery.Proofs.Section.Evolution
import Mathlib.Data.List.Forall2

/-!
# `Proofs.Section.Frame` — what following includes leaves alone

Scopes are opened and closed all over a tree of includes, a failure can come out of the middle of it, and authors and ids
are written to all scopes there are. Still a table is as it was afterwards, but for what is meant to be known: in every scope
some authors more, in the innermost list some warnings more, and the ids that were not known before, which then stand
for the same everywhere. Nothing is assumed of what the scopes hold otherwise: a name may stand for one thing in one
scope and for another in the next.

## Contents
- `AuthorsGain`: what becomes of the authors of a scope.
- `Table.Frames`: all that becomes of a table; what each step does, `Table.Evolves.frames`.
- `resolve_frames`: following includes, whether it succeeds or not.
-/

namespace Bindery

/-! ## The authors of a scope -/

/-- The authors that a scope names, by the value it has for them. -/
def authorList : Option Value → List String
  | some (.list names) => names
  | _ => []

/-- There are no authors in a scope, or a list of them. -/
def ListsAuthors (value : Option Value) : Prop := value = none ∨ ∃ names, value = some (.list names)

/-- The authors of a scope stayed as they were, or some were added at the end, none of them twice and none that was
there. -/
def AuthorsGain (value after : Option Value) : Prop :=
  after = value ∨ ∃ more : List String, more.Nodup ∧ (∀ name ∈ more, name ∉ authorList value) ∧
    after = some (.list (authorList value ++ more))

theorem AuthorsGain.listsAuthors {value after : Option Value} (h : AuthorsGain value after)
    (hvalue : ListsAuthors value) : ListsAuthors after := by
  rcases h with rfl | ⟨more, -, -, rfl⟩
  · exact hvalue
  · exact .inr ⟨_, rfl⟩

/-- What was added first and what was added then were added. -/
theorem AuthorsGain.trans {value middle after : Option Value} (h : AuthorsGain value middle)
    (h' : AuthorsGain middle after) : AuthorsGain value after := by
  rcases h with rfl | ⟨more, hnodup, hnew, rfl⟩
  · exact h'
  rcases h' with rfl | ⟨others, hnodup', hnew', rfl⟩
  · exact .inr ⟨more, hnodup, hnew, rfl⟩
  · -- those added later are neither among the old ones nor among those added first
    simp only [authorList, List.mem_append, not_or] at hnew'
    refine .inr ⟨more ++ others, ?_, ?_, ?_⟩
    · refine List.nodup_append.2 ⟨hnodup, hnodup', ?_⟩
      intro name hname other hother heq
      exact (hnew' other hother).2 (heq ▸ hname)
    · intro name hname
      rcases List.mem_append.1 hname with hname | hname
      · exact hnew name hname
      · exact (hnew' name hname).1
    · simp only [authorList, List.append_assoc]

/-- A name is added at the end, or is there already. -/
theorem authorsGain_appendItem (scope : Scope) {key : String} (name : String)
    (h : ListsAuthors (scope.get? key)) :
    AuthorsGain (scope.get? key) ((scope.appendItem key name).get? key) := by
  have hsingle (names : List String) (hname : name ∉ names) :
      [name].Nodup ∧ ∀ other ∈ [name], other ∉ names := by
    refine ⟨by simp, fun other hother => ?_⟩
    rw [List.mem_singleton.1 hother]
    exact hname
  rw [Scope.get?_appendItem_self]
  rcases h with hnone | ⟨names, hnames⟩
  · rw [hnone]
    obtain ⟨hnodup, hnew⟩ := hsingle [] List.not_mem_nil
    exact .inr ⟨[name], hnodup, hnew, rfl⟩
  · rw [hnames, Table.withItem, addName]
    by_cases hname : name ∈ names
    · -- an author who is there is not added
      rw [if_pos (List.contains_iff_mem.2 hname)]
      exact .inl rfl
    · obtain ⟨hnodup, hnew⟩ := hsingle names hname
      rw [if_neg (mt List.contains_iff_mem.1 hname)]
      exact .inr ⟨[name], hnodup, hnew, rfl⟩

/-! ## Warnings -/

/-- The values of a key with some more warnings in the innermost list of warnings. -/
def warnColumnAll (given : List Warning) (column : List (Option Value)) : List (Option Value) :=
  given.foldl (fun column warning => warnColumn warning column) column

theorem warnColumnAll_none (given : List Warning) (column : List (Option Value)) :
    warnColumnAll given (none :: column) = none :: warnColumnAll given column := by
  induction given generalizing column with
  | nil => rfl
  | cons warning rest ih => exact ih (warnColumn warning column)

/-- A warning goes to the innermost list. -/
theorem warnColumn_innermost (warning : Warning) {inner : List (Option Value)}
    (hinner : ∀ list, some (Value.warnings list) ∉ inner) (given : List Warning)
    (outer : List (Option Value)) :
    warnColumn warning (inner ++ some (.warnings given) :: outer) =
      inner ++ some (.warnings (given ++ [warning])) :: outer := by
  induction inner with
  | nil => rfl
  | cons value rest ih =>
    have hvalue (list : List Warning) : value ≠ some (.warnings list) := by
      rintro rfl
      exact hinner list List.mem_cons_self
    have hrest := ih fun list hlist => hinner list (List.mem_cons_of_mem _ hlist)
    rw [List.cons_append, warnColumn.eq_3 warning value _ hvalue, hrest, List.cons_append]

theorem warnColumnAll_innermost (more : List Warning) {inner : List (Option Value)}
    (hinner : ∀ list, some (Value.warnings list) ∉ inner) (given : List Warning)
    (outer : List (Option Value)) :
    warnColumnAll more (inner ++ some (.warnings given) :: outer) =
      inner ++ some (.warnings (given ++ more)) :: outer := by
  induction more generalizing given with
  | nil => rw [List.append_nil]; rfl
  | cons warning rest ih =>
    have hrest := ih (given ++ [warning])
    rw [List.append_assoc] at hrest
    rw [← List.singleton_append, ← hrest, ← warnColumn_innermost warning hinner]
    rfl

/-- Of some lists of warnings there is an innermost one. -/
theorem exists_innermost {column : List (Option Value)} {found : List Warning}
    (h : some (Value.warnings found) ∈ column) : ∃ inner given outer,
      column = inner ++ some (.warnings given) :: outer ∧
        ∀ list, some (Value.warnings list) ∉ inner := by
  induction column with
  | nil => cases h
  | cons value rest ih =>
    by_cases hvalue : ∃ given, value = some (.warnings given)
    · obtain ⟨given, rfl⟩ := hvalue
      exact ⟨[], given, rest, rfl, fun _ => List.not_mem_nil⟩
    · have hrest : some (Value.warnings found) ∈ rest := by
        rcases List.mem_cons.1 h with heq | hrest
        · exact absurd ⟨found, heq.symm⟩ hvalue
        · exact hrest
      obtain ⟨inner, given, outer, rfl, hinner⟩ := ih hrest
      refine ⟨value :: inner, given, outer, rfl, fun list hlist => ?_⟩
      rcases List.mem_cons.1 hlist with heq | hlist
      · exact hvalue ⟨list, heq.symm⟩
      · exact hinner list hlist

/-! ## Tables -/

namespace Table

/-- The table `after` is `table`, but for what following includes makes known. -/
structure Frames (table after : Table) : Prop where
  depth : after.inner.length = table.inner.length
  others : ∀ key, key ≠ authorsKey → key ≠ warningsKey →
    (isId key = true → table.id? key ≠ none) → after.column key = table.column key
  authors : List.Forall₂ AuthorsGain (table.column authorsKey) (after.column authorsKey)
  warnings : ∃ given, after.column warningsKey = warnColumnAll given (table.column warningsKey)
  ids : ∀ id, isId id = true → table.id? id = none → after.column id = table.column id ∨
    ∃ target, after.column id = List.replicate table.depth (some (.id target))

variable {table middle after : Table}

theorem forall₂_authorsGain_refl (column : List (Option Value)) :
    List.Forall₂ AuthorsGain column column :=
  List.forall₂_same.2 fun _ _ => .inl rfl

/-- A table that does not change stays as it is. -/
theorem Frames.refl (table : Table) : table.Frames table where
  depth := rfl
  others _ _ _ _ := rfl
  authors := forall₂_authorsGain_refl _
  warnings := ⟨[], rfl⟩
  ids _ _ _ := .inl rfl

theorem forall₂_authorsGain_trans {first second third : List (Option Value)}
    (h : List.Forall₂ AuthorsGain first second) (h' : List.Forall₂ AuthorsGain second third) :
    List.Forall₂ AuthorsGain first third := by
  induction h generalizing third with
  | nil => exact h'
  | cons hhead _ ih =>
    cases h' with
    | cons hhead' htail' => exact .cons (hhead.trans hhead') (ih htail')

/-- An id whose column holds a target in every scope stands for it. -/
theorem id?_of_column_replicate {id : String} {target : Target}
    (h : table.column id = List.replicate table.depth (some (.id target))) :
    table.id? id = some target := by
  rw [id?, get?_eq_column, h, depth, List.replicate_succ]
  rfl

/-- Two changes that leave a table as it was but for what is made known do so together. An id that the first of them
made known is among those that the second leaves alone. -/
theorem Frames.trans (h : table.Frames middle) (h' : middle.Frames after) : table.Frames after where
  depth := h'.depth.trans h.depth
  others key hauthors hwarnings hid := by
    have hsame := h.others key hauthors hwarnings hid
    rw [h'.others key hauthors hwarnings (by rwa [id?_congr hsame]), hsame]
  authors := forall₂_authorsGain_trans h.authors h'.authors
  warnings := by
    obtain ⟨given, hgiven⟩ := h.warnings
    obtain ⟨more, hmore⟩ := h'.warnings
    refine ⟨given ++ more, ?_⟩
    rw [hmore, hgiven, warnColumnAll, warnColumnAll, warnColumnAll, List.foldl_append]
  ids id hid hnone := by
    have hauthors := ne_of_isId hid isId_authorsKey
    have hwarnings := ne_of_isId hid isId_warningsKey
    rcases h.ids id hid hnone with hsame | ⟨target, htarget⟩
    · have hstill : middle.id? id = none := (id?_congr hsame).trans hnone
      have hdepth : middle.depth = table.depth := congrArg (· + 1) h.depth
      rcases h'.ids id hid hstill with hsame' | ⟨target, htarget⟩
      · exact .inl (hsame'.trans hsame)
      · exact .inr ⟨target, htarget.trans (by rw [hdepth])⟩
    · -- an id that was made known first keeps its target
      have hdepth : middle.depth = table.depth := congrArg (· + 1) h.depth
      have hknown : middle.id? id = some target := id?_of_column_replicate (by rw [hdepth, htarget])
      have hsame := h'.others id hauthors hwarnings fun _ => by rw [hknown]; nofun
      exact .inr ⟨target, hsame.trans htarget⟩

/-- The authors of every scope are a list, if there are any. -/
def AuthorsListed (table : Table) : Prop := ∀ value ∈ table.column authorsKey, ListsAuthors value

/-- Where authors were listed they still are. -/
theorem Frames.authorsListed (h : table.Frames after) (hlisted : table.AuthorsListed) :
    after.AuthorsListed := by
  have hauthors := h.authors
  unfold AuthorsListed at hlisted ⊢
  generalize table.column authorsKey = column at hauthors hlisted
  generalize after.column authorsKey = column' at hauthors
  induction hauthors with
  | nil => exact hlisted
  | cons hgain _ ih =>
    intro value hvalue
    rcases List.mem_cons.1 hvalue with rfl | hvalue
    · exact hgain.listsAuthors (hlisted _ List.mem_cons_self)
    · exact ih (fun other hother => hlisted other (List.mem_cons_of_mem _ hother)) value hvalue

/-! ### Steps -/

/-- A table that differs from another in its authors only, or in its warnings only. -/
theorem Frames.of_columns {key : String} (hdepth : after.inner.length = table.inner.length)
    (hcolumn : ∀ other, other ≠ key → after.column other = table.column other)
    (hauthors : List.Forall₂ AuthorsGain (table.column authorsKey) (after.column authorsKey))
    (hwarnings : ∃ given, after.column warningsKey = warnColumnAll given (table.column warningsKey))
    (hkey : key = authorsKey ∨ key = warningsKey) : table.Frames after where
  depth := hdepth
  others other hne hne' _ := by
    refine hcolumn other ?_
    rintro rfl
    exact hkey.elim hne hne'
  authors := hauthors
  warnings := hwarnings
  ids id hid _ := by
    refine .inl (hcolumn id ?_)
    rcases hkey with rfl | rfl
    · exact ne_of_isId hid isId_authorsKey
    · exact ne_of_isId hid isId_warningsKey

/-- Naming an author makes an author known. -/
theorem frames_appendGlobal (hlisted : table.AuthorsListed) (name : String) :
    table.Frames (table.appendGlobal authorsKey name) := by
  refine .of_columns (length_inner_appendGlobal _ _ _)
    (fun other hne => column_appendGlobal_of_ne _ _ hne) ?_ ⟨[], ?_⟩ (.inl rfl)
  · rw [appendGlobal, column_mapAll, column, List.forall₂_map_left_iff, List.forall₂_map_right_iff,
      List.forall₂_same]
    intro scope hscope
    exact authorsGain_appendItem scope name (hlisted _ (List.mem_map_of_mem hscope))
  · exact column_appendGlobal_of_ne _ _ (by decide)

theorem length_inner_warn (table : Table) (warning : Warning) :
    (table.warn warning).inner.length = table.inner.length := by
  have hlength := congrArg List.length
    (column_warn_of_ne table warning (show sourceKey ≠ warningsKey by decide))
  simpa using hlength

/-- Giving a warning makes a warning known. -/
theorem frames_warn (table : Table) (warning : Warning) : table.Frames (table.warn warning) := by
  have hauthors : (table.warn warning).column authorsKey = table.column authorsKey :=
    column_warn_of_ne _ _ (by decide)
  refine .of_columns (length_inner_warn table warning)
    (fun other hne => column_warn_of_ne _ _ hne) ?_ ⟨[warning], ?_⟩ (.inr rfl)
  · rw [hauthors]
    exact forall₂_authorsGain_refl _
  · exact column_warn_self table warning

theorem frames_setGlobal {id : String} (hid : isId id = true) (hnone : table.id? id = none)
    (target : Target) : table.Frames (table.setGlobal id (.id target)) where
  depth := length_inner_setGlobal _ _ _
  others key _ _ hknown := by
    refine column_setGlobal_of_ne _ _ ?_
    rintro rfl
    exact hknown hid hnone
  authors := by
    rw [column_setGlobal_of_ne _ _ (ne_of_isId hid isId_authorsKey).symm]
    exact forall₂_authorsGain_refl _
  warnings := ⟨[], column_setGlobal_of_ne _ _ (ne_of_isId hid isId_warningsKey).symm⟩
  ids other _ _ := by
    by_cases heq : other = id
    · subst heq
      refine .inr ⟨target, ?_⟩
      rw [column_setGlobal_self, depth, List.replicate_succ']
    · exact .inl (column_setGlobal_of_ne _ _ heq)

/-- Registering an id makes it known in every scope, or it was known before. -/
theorem frames_register {id : String} {target : Target} (hid : isId id = true)
    (h : table.register id target = .ok after) : table.Frames after := by
  unfold register at h
  split at h
  next existing _ =>
    split at h
    · cases h
      exact .refl table
    · cases h
  next hnone =>
    cases h
    exact frames_setGlobal hid hnone target

/-! ### Scopes of their own -/

theorem column_entering_of_ne (table : Table) (source : DocumentPath) {key : String}
    (h : key ≠ sourceKey) : (table.entering source).column key = none :: table.column key := by
  rw [entering, column_set_of_ne _ _ h, column_push]

theorem tail_column_entering (table : Table) (source : DocumentPath) (key : String) :
    ((table.entering source).column key).tail = table.column key := by
  by_cases h : key = sourceKey
  · subst h
    rw [entering, column_set_self, List.tail_cons, column_push, List.tail_cons]
  · rw [column_entering_of_ne table source h, List.tail_cons]

theorem id?_entering (table : Table) (source : DocumentPath) {id : String} (h : isId id = true) :
    (table.entering source).id? id = table.id? id := by
  rw [entering, id?_congr (column_set_of_ne _ _ (ne_of_isId h isId_sourceKey)), id?_push]

theorem length_inner_entering (table : Table) (source : DocumentPath) :
    (table.entering source).inner.length = table.inner.length + 1 := by
  rw [entering, length_inner_set]
  rfl

/-- What became known in a scope of its own is known when that is closed, and nothing else of it is left. -/
theorem Frames.close {source : DocumentPath} (h : (table.entering source).Frames after) :
    table.Frames (after.keep table.inner.length) := by
  have hdepth : after.inner.length = table.inner.length + 1 :=
    h.depth.trans (length_inner_entering table source)
  have hfew : table.inner.length ≤ after.inner.length := by omega
  -- exactly the scope that was opened is dropped
  have hcolumn (key : String) :
      (after.keep table.inner.length).column key = (after.column key).tail := by
    have hone : after.inner.length - table.inner.length = 1 := by omega
    rw [column_keep, hone, List.drop_one]
  constructor
  case depth => exact length_inner_keep hfew
  case others =>
    intro key hauthors hwarnings hknown
    have hsame := h.others key hauthors hwarnings fun hid => by
      rw [id?_entering table source hid]
      exact hknown hid
    rw [hcolumn, hsame, tail_column_entering]
  case authors =>
    have hauthors := h.authors
    rw [column_entering_of_ne table source (by decide)] at hauthors
    rw [hcolumn, ← List.drop_one]
    exact List.forall₂_drop 1 hauthors
  case warnings =>
    obtain ⟨given, hgiven⟩ := h.warnings
    rw [column_entering_of_ne table source (by decide), warnColumnAll_none] at hgiven
    refine ⟨given, ?_⟩
    rw [hcolumn, hgiven, List.tail_cons]
  case ids =>
    intro id hid hnone
    rcases h.ids id hid ((id?_entering table source hid).trans hnone) with hsame | ⟨target, htarget⟩
    · refine .inl ?_
      rw [hcolumn, hsame, tail_column_entering]
    · refine .inr ⟨target, ?_⟩
      rw [hcolumn, htarget, Table.depth, length_inner_entering, List.replicate_succ, List.tail_cons]
      rfl

/-- **A table that changes by the steps of following includes stays as it is otherwise.** -/
theorem Evolves.frames (h : table.Evolves after) (hlisted : table.AuthorsListed) :
    table.Frames after := by
  induction h with
  | refl table => exact .refl table
  | trans _ _ ih ih' =>
    have hfirst := ih hlisted
    exact hfirst.trans (ih' (hfirst.authorsListed hlisted))
  | author table name => exact frames_appendGlobal hlisted name
  | register hid hregister => exact frames_register hid hregister
  | warn table warning => exact frames_warn table warning
  | @within table after source _ ih =>
    refine (ih fun value hvalue => ?_).close
    rw [column_entering_of_ne table source (by decide)] at hvalue
    rcases List.mem_cons.1 hvalue with rfl | hvalue
    · exact .inl rfl
    · exact hlisted value hvalue

end Table

/-! ## Following includes -/

variable {σ : Type} [Store σ]

/-- **Following includes leaves a table as it was, but for authors, warnings and new ids**, at whatever point it ends. There
are as many scopes as before, and scope by scope all else has its old value. Where there were no authors or a list of
them, some may have been added at the end, none twice. Of the lists of warnings only the innermost one changes, and it
is added to. An id that did not stand for anything is as it was, or stands for the same target in every scope. -/
theorem resolve_frames (settings : Settings) (path : DocumentPath) (store : σ) {table : Table}
    (hauthors : ∀ value ∈ table.column Table.authorsKey,
      value = none ∨ ∃ names, value = some (.list names))
    (hwarnings : ∃ given, table.root.get? Table.warningsKey = some (.warnings given))
    {result : Except Failure (Option Section)} {after : Table} {later : σ}
    (hrun : ((Section.resolve settings path).exec table).run store = ((result, after), later)) :
    after.depth = table.depth ∧
      (∀ key, key ≠ Table.authorsKey → key ≠ Table.warningsKey →
        (isId key = true → table.id? key ≠ none) → after.column key = table.column key) ∧
      List.Forall₂ AuthorsGain (table.column Table.authorsKey) (after.column Table.authorsKey) ∧
      (∃ inner given more outer,
        table.column Table.warningsKey = inner ++ some (.warnings given) :: outer ∧
        (∀ list, some (Value.warnings list) ∉ inner) ∧
        after.column Table.warningsKey = inner ++ some (.warnings (given ++ more)) :: outer) ∧
      ∀ id, isId id = true → table.id? id = none → after.column id = table.column id ∨
        ∃ target, after.column id = List.replicate table.depth (some (.id target)) := by
  have hevolves : table.Evolves (((Section.resolve settings path).exec table).run store).1.2 :=
    (resolve_evolves path table).run_fst store
  rw [hrun] at hevolves
  have hframes := hevolves.frames hauthors
  -- the outermost scope has a list of warnings, so there is an innermost one
  obtain ⟨found, hfound⟩ := hwarnings
  have hmem : some (Value.warnings found) ∈ table.column Table.warningsKey := by
    rw [Table.column_eq, hfound]
    exact List.mem_append_right _ List.mem_cons_self
  obtain ⟨inner, given, outer, hcolumn, hinner⟩ := exists_innermost hmem
  obtain ⟨more, hmore⟩ := hframes.warnings
  rw [hcolumn, warnColumnAll_innermost more hinner] at hmore
  exact ⟨congrArg (· + 1) hframes.depth, hframes.others, hframes.authors,
    ⟨inner, given, more, outer, hcolumn, hinner, hmore⟩, hframes.ids⟩

/-- A shelf with a document that names authors, declares an id and is warned about, and two includes of which the second is
missing. -/
def haltedShelf : Shelf where
  files :=
    [("/a", "<!--(dl (section-meta (title A) (author X) (author Y) (id a) (include (P b) (P c))))-->"),
     ("/b", "<!--(dl (section-meta (title B) (author Z) (author X) (id b)))-->")]
  readOnly := []

/-- A table with two scopes. The inner one has warnings of its own, and a text in the place of an id. -/
def shadowedTable : Table :=
  ((Table.new.appendGlobal Table.authorsKey "X").push.set "a" (.text "old")).set Table.warningsKey
    (.warnings [])

/-- The documents that were read before the missing one have left their authors and ids in both scopes, and a warning in
the inner one. -/
theorem resolve_frames_haltedShelf : ∃ failure after later,
    ((Section.resolve {} (.resolve "/a" "/")).exec shadowedTable).run haltedShelf =
      ((.error failure, after), later) ∧
    after.depth = 2 ∧
    after.column Table.authorsKey = List.replicate 2 (some (.list ["X", "Y", "Z"])) ∧
    (∃ given, after.column Table.warningsKey = [some (.warnings given), some (.warnings [])]) ∧
    (∃ target, after.column "a" = List.replicate 2 (some (.id target))) ∧
    ∀ key, isId key = false → key ≠ Table.authorsKey → key ≠ Table.warningsKey →
      after.column key = shadowedTable.column key := by
  obtain ⟨⟨⟨result, after⟩, later⟩, hrun⟩ : ∃ run,
    ((Section.resolve {} (.resolve "/a" "/")).exec shadowedTable).run haltedShelf = run := ⟨_, rfl⟩
  have hauthors : shadowedTable.column Table.authorsKey = [none, some (.list ["X"])] := by decide
  have hwarnings : shadowedTable.column Table.warningsKey =
      [some (.warnings []), some (.warnings [])] := by decide
  obtain ⟨hdepth, hothers, -, ⟨inner, given, more, outer, hcolumn, hinner, hmore⟩, hids⟩ :=
    resolve_frames {} _ haltedShelf (by simp [hauthors]) ⟨[], by decide⟩ hrun
  have hfacts :
      (((Section.resolve {} (.resolve "/a" "/")).exec shadowedTable).run
        haltedShelf).1.1.toOption.isNone = true ∧
      (((Section.resolve {} (.resolve "/a" "/")).exec shadowedTable).run
        haltedShelf).1.2.column Table.authorsKey = List.replicate 2 (some (.list ["X", "Y", "Z"])) ∧
      (((Section.resolve {} (.resolve "/a" "/")).exec shadowedTable).run
        haltedShelf).1.2.column "a" ≠ shadowedTable.column "a" := by
    decide +kernel
  rw [hrun] at hfacts
  obtain ⟨hfailed, hnamed, hchanged⟩ := hfacts
  cases result with
  | ok tree => cases hfailed
  | error failure =>
    refine ⟨failure, after, later, hrun, hdepth, hnamed, ?_,
      (hids "a" (by decide) (by decide)).resolve_left hchanged, ?_⟩
    · -- the inner list is the innermost one
      rw [hwarnings] at hcolumn
      cases inner with
      | nil =>
        cases hcolumn
        exact ⟨more, hmore⟩
      | cons value rest =>
        have hvalue : some (Value.warnings []) = value := (List.cons.inj hcolumn).1
        exact absurd (hvalue ▸ List.mem_cons_self) (hinner [])
    · intro key hid hauthors hwarnings
      exact hothers key hauthors hwarnings fun hvalid => absurd hvalid (by simp [hid])

end Bindery
