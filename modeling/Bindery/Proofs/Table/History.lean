import Bindery.Proofs.Success
import Bindery.Proofs.Table.Sound

/-!
# `Proofs.Table.History` — what becomes of an id while a table is in use

A table is in use for a long time: scopes are opened and closed, values come and go, and an id can be registered in a scope
that is closed right after. Whatever is done, as long as nothing but a registration writes to the id, there are two
stages only. At first no scope has a target for it. From its first registration on the outermost scope has one, and
every other scope has the same or none, so a look-up finds that one from everywhere.

## Contents
- `Operation`, `Session`, `Session.run`: everything that can be done with a table, in any order;
  `Session.step_leave_inScope`: what runs in a scope of its own.
- `Session.column_step`: all that an operation can do to the column of a key it spares.
- `Registered`, `Unregistered`: the two stages; `Session.run_registered`, `Session.run_stages`.
- `register_for_good`: the first registration of an id is for good.
-/

namespace Bindery
namespace Table

/-! ## Tables in use -/

/-- One thing that is done with a table. -/
inductive Operation where
  /-- A scope is opened. -/
  | push
  /-- The innermost scope is closed. -/
  | pop
  /-- Something begins that runs in a scope of its own. -/
  | enter
  /-- What was begun last ends, and its scope is closed with all that were opened in it. -/
  | leave
  /-- A value is written into the innermost scope. -/
  | set (key : String) (value : Value)
  /-- A value is written into every scope. -/
  | setGlobal (key : String) (value : Value)
  /-- An item is added to the visible list. -/
  | append (key item : String)
  /-- An item is added to the list of every scope. -/
  | appendGlobal (key item : String)
  /-- A warning is given. -/
  | warn (warning : Warning)
  /-- An id is registered, or refused. -/
  | register (id : String) (target : Target)
deriving DecidableEq, Repr

/-- Nothing but a registration writes to the key. -/
def Operation.Spares (key : String) : Operation → Prop
  | .set other _ => other ≠ key
  | .setGlobal other _ => other ≠ key
  | .append other _ => other ≠ key
  | .appendGlobal other _ => other ≠ key
  | _ => True

/-- A table in use. For everything that was begun in a scope of its own and has not ended, innermost first, it is known
how many scopes there were inside the outermost one before. -/
structure Session where
  table : Table
  begun : List Nat
deriving DecidableEq, Repr

namespace Session

/-- A table that has not been used. -/
def new : Session := ⟨.new, []⟩

/-- The session after an operation. Nothing can be left that was not entered. -/
def step (session : Session) : Operation → Option Session
  | .push => some { session with table := session.table.push }
  | .pop => some { session with table := session.table.pop }
  | .enter => some ⟨session.table.push, session.table.inner.length :: session.begun⟩
  | .leave =>
    match session.begun with
    | [] => none
    | count :: outer => some ⟨session.table.keep count, outer⟩
  | .set key value => some { session with table := session.table.set key value }
  | .setGlobal key value => some { session with table := session.table.setGlobal key value }
  | .append key item => some { session with table := session.table.append key item }
  | .appendGlobal key item => some { session with table := session.table.appendGlobal key item }
  | .warn warning => some { session with table := session.table.warn warning }
  | .register id target =>
    match session.table.register id target with
    | .ok registered => some { session with table := registered }
    | .error _ => some session

/-- The session after some operations, in order. -/
def run : List Operation → Session → Option Session
  | [], session => some session
  | operation :: rest, session => (session.step operation).bind (run rest)

/-- What runs in a scope of its own enters it, does what it does, and leaves it. -/
theorem step_leave_inScope (body : Table → α × Table) (session : Session) :
    (session.step .enter).bind (fun entered =>
      step ⟨(body entered.table).2, entered.begun⟩ .leave) =
        some ⟨(session.table.inScope body).2, session.begun⟩ := rfl

end Session

/-! ## One operation -/

theorem column_pop (table : Table) (key : String) :
    ∃ count, count < (table.column key).length ∧
      table.pop.column key = (table.column key).drop count := by
  obtain ⟨inner, root⟩ := table
  cases inner with
  | nil => exact ⟨0, by simp, rfl⟩
  | cons scope outer => exact ⟨1, by simp, rfl⟩

theorem column_append_of_ne (table : Table) {key other : String} (item : String) (h : other ≠ key) :
    (table.append key item).column other = table.column other := by
  unfold append
  split
  · rfl
  · exact column_set_of_ne table _ h

/-- An id is registered, or the table stays as it is. -/
theorem register_cases (table : Table) (id : String) (target : Target) :
    table.register id target = .ok table ∨ (∃ existing, table.register id target = .error existing) ∨
      table.id? id = none ∧ table.register id target = .ok (table.setGlobal id (.id target)) := by
  unfold register
  cases table.id? id with
  | none => exact .inr (.inr ⟨rfl, rfl⟩)
  | some existing =>
    by_cases heq : existing = target
    · exact .inl (if_pos heq)
    · exact .inr (.inl ⟨existing, if_neg heq⟩)

/-- How a column can change: some of its inner values go, a scope without a value is added, a warning is added to a list
in it, or a target that was not there is put into all of its places. -/
inductive ColumnStep (column : List (Option Value)) : List (Option Value) → Prop where
  | drop (count : Nat) (hcount : count < column.length) : ColumnStep column (column.drop count)
  | push : ColumnStep column (none :: column)
  | warn (warning : Warning) : ColumnStep column (warnColumn warning column)
  | register (target : Target) (hnone : ∀ existing, column.findSome? id ≠ some (.id existing)) :
      ColumnStep column (List.replicate column.length (some (.id target)))

theorem ColumnStep.stay {column after : List (Option Value)} (hcolumn : 0 < column.length)
    (h : after = column) : ColumnStep column after := by
  rw [h]
  exact .drop 0 hcolumn

variable {session before after : Session} {id : String} {target : Target}

/-- **All that an operation can do to the column of a key**, if nothing but a registration writes to it. -/
theorem Session.column_step {operation : Operation} (hspares : operation.Spares id)
    (h : session.step operation = some after) :
    ColumnStep (session.table.column id) (after.table.column id) := by
  have hpos : 0 < (session.table.column id).length := by
    rw [length_column]
    omega
  cases operation with
  | push =>
    cases h
    exact .push
  | pop =>
    cases h
    obtain ⟨count, hcount, hcolumn⟩ := column_pop session.table id
    show ColumnStep _ (session.table.pop.column id)
    rw [hcolumn]
    exact .drop count hcount
  | enter =>
    cases h
    exact .push
  | leave =>
    obtain ⟨table, begun⟩ := session
    cases begun with
    | nil => cases h
    | cons count outer =>
      cases h
      show ColumnStep (table.column id) ((table.keep count).column id)
      rw [column_keep]
      have hfew : table.inner.length - count < (table.column id).length := by
        rw [length_column]
        omega
      exact .drop _ hfew
  | set key value =>
    cases h
    exact .stay hpos (column_set_of_ne _ _ (Ne.symm hspares))
  | setGlobal key value =>
    cases h
    exact .stay hpos (column_setGlobal_of_ne _ _ (Ne.symm hspares))
  | append key item =>
    cases h
    exact .stay hpos (column_append_of_ne _ _ (Ne.symm hspares))
  | appendGlobal key item =>
    cases h
    exact .stay hpos (column_appendGlobal_of_ne _ _ (Ne.symm hspares))
  | warn warning =>
    cases h
    -- the list of warnings may be what the key stands for before it is registered
    by_cases hkey : id = warningsKey
    · subst hkey
      show ColumnStep _ ((session.table.warn warning).column warningsKey)
      rw [column_warn_self]
      exact .warn warning
    · exact .stay hpos (column_warn_of_ne _ _ hkey)
  | register other found =>
    rw [step] at h
    rcases register_cases session.table other found with hsame | ⟨existing, hrefused⟩ | ⟨hnone, hnew⟩
    · rw [hsame] at h
      cases h
      exact .stay hpos rfl
    · rw [hrefused] at h
      cases h
      exact .stay hpos rfl
    · rw [hnew] at h
      cases h
      show ColumnStep _ ((session.table.setGlobal other (.id found)).column id)
      by_cases heq : id = other
      · subst heq
        rw [column_setGlobal_self, ← List.replicate_succ', ← length_column session.table id]
        refine .register found fun existing hexisting => ?_
        rw [← get?_eq_column] at hexisting
        rw [id?, hexisting] at hnone
        cases hnone
      · exact .stay hpos (column_setGlobal_of_ne _ _ heq)

/-! ## The two stages of an id -/

/-- The outermost scope has the target for the id, and no scope has another value for it. -/
def Registered (table : Table) (id : String) (target : Target) : Prop :=
  Settled (table.column id) (some (.id target))

/-- No scope has a target for the id. -/
def Unregistered (table : Table) (id : String) : Prop :=
  ∀ target, some (Value.id target) ∉ table.column id

theorem warnColumn_eq_self (warning : Warning) {column : List (Option Value)}
    (h : ∀ given, some (Value.warnings given) ∉ column) : warnColumn warning column = column := by
  induction column with
  | nil => rfl
  | cons value rest ih =>
    have hvalue (given : List Warning) : value ≠ some (.warnings given) := by
      rintro rfl
      exact h given List.mem_cons_self
    have hrest := ih fun given hgiven => h given (List.mem_cons_of_mem _ hgiven)
    rw [warnColumn.eq_3 warning value rest hvalue, hrest]

theorem mem_warnColumn {warning : Warning} {column : List (Option Value)}
    (h : some (Value.id target) ∈ warnColumn warning column) : some (Value.id target) ∈ column := by
  induction column with
  | nil => exact h
  | cons value rest ih =>
    by_cases hvalue : ∃ given, value = some (.warnings given)
    · obtain ⟨given, rfl⟩ := hvalue
      rcases List.mem_cons.1 h with heq | hmem
      · cases heq
      · exact List.mem_cons_of_mem _ hmem
    · rw [warnColumn.eq_3 warning value rest fun given heq => hvalue ⟨given, heq⟩] at h
      rcases List.mem_cons.1 h with rfl | hmem
      · exact List.mem_cons_self
      · exact List.mem_cons_of_mem _ (ih hmem)

theorem settled_replicate {count : Nat} (hcount : 0 < count) (value : Option Value) :
    Settled (List.replicate count value) value := by
  obtain ⟨fewer, rfl⟩ := Nat.exists_eq_succ_of_ne_zero (Nat.ne_of_gt hcount)
  refine ⟨List.replicate fewer value, List.replicate_succ', fun v hv => ?_⟩
  exact .inr (List.eq_of_mem_replicate hv)

/-- A column that has settled on a target stays settled on it. -/
theorem ColumnStep.settled {column later : List (Option Value)} (h : ColumnStep column later)
    (hsettled : Settled column (some (.id target))) : Settled later (some (.id target)) := by
  cases h with
  | drop count hcount => exact hsettled.drop hcount
  | push => exact hsettled.cons_none
  | warn warning =>
    rw [warnColumn_eq_self]
    · exact hsettled
    · intro given hgiven
      obtain ⟨inner, rfl, hinner⟩ := hsettled
      rcases List.mem_append.1 hgiven with hmem | hmem
      · rcases hinner _ hmem with heq | heq <;> cases heq
      · cases List.mem_singleton.1 hmem
  | register other hnone => exact absurd hsettled.findSome?_eq (hnone target)

/-- A column without a target stays without one, or settles on one. -/
theorem ColumnStep.without {column later : List (Option Value)} (h : ColumnStep column later)
    (hlength : 0 < column.length) (hwithout : ∀ target, some (Value.id target) ∉ column) :
    (∀ target, some (Value.id target) ∉ later) ∨ ∃ target, Settled later (some (.id target)) := by
  cases h with
  | drop count hcount =>
    refine .inl fun target hmem => ?_
    exact hwithout target (List.mem_of_mem_drop hmem)
  | push =>
    refine .inl fun target hmem => ?_
    rcases List.mem_cons.1 hmem with heq | hmem
    · cases heq
    · exact hwithout target hmem
  | warn warning => exact .inl fun target hmem => hwithout target (mem_warnColumn hmem)
  | register target hnone => exact .inr ⟨target, settled_replicate hlength _⟩

/-- **What an id was registered for stays**, whatever is done in between. -/
theorem Session.run_registered {operations : List Operation}
    (hspares : ∀ operation ∈ operations, operation.Spares id)
    (h : run operations session = some after) (hregistered : session.table.Registered id target) :
    after.table.Registered id target := by
  induction operations generalizing session with
  | nil =>
    cases h
    exact hregistered
  | cons operation rest ih =>
    obtain ⟨middle, hstep, hrest⟩ := Option.bind_eq_some_iff.1 h
    have hcolumn := Session.column_step (hspares operation List.mem_cons_self) hstep
    have hmiddle : middle.table.Registered id target := hcolumn.settled hregistered
    exact ih (fun other hother => hspares other (List.mem_cons_of_mem _ hother)) hrest hmiddle

/-- **Every id is in one of its two stages.** -/
theorem Session.run_stages {operations : List Operation}
    (hspares : ∀ operation ∈ operations, operation.Spares id)
    (h : run operations session = some after)
    (hstage : session.table.Unregistered id ∨ ∃ target, session.table.Registered id target) :
    after.table.Unregistered id ∨ ∃ target, after.table.Registered id target := by
  induction operations generalizing session with
  | nil =>
    cases h
    exact hstage
  | cons operation rest ih =>
    obtain ⟨middle, hstep, hrest⟩ := Option.bind_eq_some_iff.1 h
    have hcolumn := Session.column_step (hspares operation List.mem_cons_self) hstep
    refine ih (fun other hother => hspares other (List.mem_cons_of_mem _ hother)) hrest ?_
    rcases hstage with hwithout | ⟨target, hregistered⟩
    · refine hcolumn.without ?_ hwithout
      rw [length_column]
      omega
    · exact .inr ⟨target, hcolumn.settled hregistered⟩

theorem unregistered_new (id : String) : Table.new.Unregistered id := by
  intro target hmem
  by_cases hkey : id = warningsKey
  · subst hkey
    simp [column_eq, new, Scope.get?_set_self] at hmem
  · simp [column_new_of_ne hkey] at hmem

/-! ## Registering -/

theorem Registered.id? {table : Table} (h : table.Registered id target) :
    table.id? id = some target := by
  have hsettled : Settled (table.column id) ((some target).map .id) := h
  exact id?_of_settled hsettled

/-- A registered id is accepted for its target and refused for any other. -/
theorem Registered.register {table : Table} (h : table.Registered id target) (other : Target) :
    table.register id other = if other = target then .ok table else .error target := by
  unfold Table.register
  rw [h.id?]
  by_cases heq : other = target
  · rw [if_pos heq]
    exact if_pos heq.symm
  · rw [if_neg heq]
    exact if_neg (Ne.symm heq)

/-- After an id was accepted it is registered, also if it was before. -/
theorem registered_of_register {table registered : Table}
    (hstage : table.Unregistered id ∨ ∃ target, table.Registered id target)
    (h : table.register id target = .ok registered) : registered.Registered id target := by
  rcases hstage with hwithout | ⟨existing, hexisting⟩
  · unfold Table.register at h
    rw [id?_eq_none_of_column hwithout] at h
    cases h
    unfold Registered
    rw [column_setGlobal_self, ← List.replicate_succ']
    exact settled_replicate (Nat.succ_pos _) _
  · rw [hexisting.register] at h
    split at h
    next heq =>
      cases h
      rw [heq]
      exact hexisting
    next => cases h

/-- **The first registration of an id is for good.** Take any use of a new table in which nothing but registrations write
to an id. Once the id was accepted for a target, it stands for that target ever after, whichever scopes have been opened
and closed since; it is accepted again for this target only and refused for any other with this target; and
neither changes any scope. -/
theorem register_for_good {earlier later : List Operation}
    (hearlier : ∀ operation ∈ earlier, operation.Spares id)
    (hlater : ∀ operation ∈ later, operation.Spares id)
    (hbefore : Session.run earlier .new = some before) {registered : Table}
    (hregister : before.table.register id target = .ok registered)
    (hafter : Session.run later ⟨registered, before.begun⟩ = some after) :
    after.table.id? id = some target ∧
      (∀ other, (∃ again, after.table.register id other = .ok again) ↔ other = target) ∧
      (∀ other, other ≠ target → after.table.register id other = .error target) ∧
      ∀ other, after.step (.register id other) = some after := by
  have hstages := Session.run_stages hearlier hbefore (.inl (unregistered_new id))
  have hfirst : registered.Registered id target := registered_of_register hstages hregister
  have hlast : after.table.Registered id target := Session.run_registered hlater hafter hfirst
  refine ⟨hlast.id?, ?_, ?_, ?_⟩
  · intro other
    rw [hlast.register]
    by_cases heq : other = target
    · simp [heq]
    · simp [heq]
  · intro other hne
    rw [hlast.register, if_neg hne]
  · intro other
    rw [Session.step, hlast.register]
    by_cases heq : other = target
    · rw [if_pos heq]
    · rw [if_neg heq]

/-- Two sections of one output. -/
def firstTarget : Target := ⟨.resolve "/out.md" "/", some "#first"⟩

@[inherit_doc firstTarget]
def secondTarget : Target := ⟨.resolve "/out.md" "/", some "#second"⟩

/-- Something that is begun, and opens a scope in its own. -/
def nestedStart : List Operation := [.enter, .push, .append "tags" "x"]

/-- Both scopes are closed, more than there are, and others are opened, where the id is to stand for something else. -/
def nestedEnd : List Operation :=
  [.pop, .warn ⟨"careful", none⟩, .leave, .pop, .push, .enter, .set "note" (.text "n"),
    .register "intro" secondTarget, .register "other" secondTarget]

/-- What was registered in a scope inside another stands when both are closed and new ones were opened. -/
theorem register_for_good_nested : ∃ before registered after,
    Session.run nestedStart .new = some before ∧
    before.table.register "intro" firstTarget = .ok registered ∧
    Session.run nestedEnd ⟨registered, before.begun⟩ = some after ∧ after.table.depth = 3 ∧
    after.table.id? "intro" = some firstTarget ∧
    after.table.register "intro" secondTarget = .error firstTarget := by
  have hfound : ((Session.run nestedStart .new).bind fun before =>
      (before.table.register "intro" firstTarget).toOption.bind fun registered =>
        (Session.run nestedEnd ⟨registered, before.begun⟩).map (·.table.depth)) = some 3 := by
    decide +kernel
  obtain ⟨before, hbefore, hfound⟩ := Option.bind_eq_some_iff.1 hfound
  obtain ⟨registered, hregister, hfound⟩ := Option.bind_eq_some_iff.1 hfound
  obtain ⟨after, hafter, hdepth⟩ := Option.map_eq_some_iff.1 hfound
  have hearlier : ∀ operation ∈ nestedStart, operation.Spares "intro" := by
    simp [nestedStart, Operation.Spares]
  have hlater : ∀ operation ∈ nestedEnd, operation.Spares "intro" := by
    simp [nestedEnd, Operation.Spares]
  have hregister := ok_of_toOption hregister
  obtain ⟨hid, -, hrefused, -⟩ := register_for_good hearlier hlater hbefore hregister hafter
  exact ⟨before, registered, after, hbefore, hregister, hafter, hdepth, hid,
    hrefused secondTarget (by decide)⟩

end Table
end Bindery
