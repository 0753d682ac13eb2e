import Bindery.Proofs.Table.Sound

/-!
# `Proofs.Table.Registry` — how tables grow

Whatever a compilation does to a sound table, it gains ids and warnings by it and keeps all it had. Ids can be gained as
long as none of them stands for two targets. What is gained in a scope of its own outlives that scope.

## Contents
- `Table.Consistent`: ids that could be made known together.
- `Table.Gains`: a table grew by some ids and warnings; `Table.register_gains`, `Table.warn_gains`.
- `Table.exists_register`: an id can be made known unless it stands for something else.
- `Table.Opens`, `Table.Opens.close`: scopes of their own.
-/

namespace Bindery
namespace Table

/-! ## Growing tables -/

/-- No id stands for two targets, in the table or among some more ids. -/
def Consistent (table : Table) (pairs : List (String × Target)) : Prop :=
  ∀ id target other, (table.id? id = some target ∨ (id, target) ∈ pairs) →
    (table.id? id = some other ∨ (id, other) ∈ pairs) → target = other

/-- The table `after` knows what `table` does, and some more ids and warnings. -/
structure Gains (table : Table) (pairs : List (String × Target)) (given : List Warning)
    (after : Table) : Prop where
  sound : after.Sound
  depth : after.inner.length = table.inner.length
  source : after.column sourceKey = table.column sourceKey
  destination : after.column destinationKey = table.column destinationKey
  ids : ∀ id target,
    after.id? id = some target ↔ table.id? id = some target ∨ (id, target) ∈ pairs
  warnings : after.warnings = table.warnings ++ given

variable {table middle after start : Table} {pairs more : List (String × Target)}
  {given others : List Warning}

theorem Gains.refl (h : table.Sound) : table.Gains [] [] table where
  sound := h
  depth := rfl
  source := rfl
  destination := rfl
  ids := by simp
  warnings := by simp

theorem Gains.trans (h : table.Gains pairs given middle) (h' : middle.Gains more others after) :
    table.Gains (pairs ++ more) (given ++ others) after where
  sound := h'.sound
  depth := h'.depth.trans h.depth
  source := h'.source.trans h.source
  destination := h'.destination.trans h.destination
  ids id target := by rw [h'.ids, h.ids, List.mem_append, or_assoc]
  warnings := by rw [h'.warnings, h.warnings, List.append_assoc]

/-- Ids that were gained did not clash. -/
theorem Gains.consistent (h : table.Gains pairs given after) : table.Consistent pairs := by
  intro id target other htarget hother
  rw [← h.ids] at htarget hother
  exact Option.some.inj (htarget.symm.trans hother)

/-- After some ids have been gained, others clash if they clashed before or clash with these. -/
theorem Gains.consistent_iff (h : table.Gains pairs given after) :
    after.Consistent more ↔ table.Consistent (pairs ++ more) := by
  simp only [Consistent, h.ids, List.mem_append, or_assoc]

theorem Consistent.mono (h : table.Consistent pairs) (hsub : more ⊆ pairs) :
    table.Consistent more := by
  intro id target other htarget hother
  exact h id target other (htarget.imp_right (hsub ·)) (hother.imp_right (hsub ·))

theorem appendGlobal_authors_gains (h : table.Sound) (name : String) :
    table.Gains [] [] (table.appendGlobal authorsKey name) where
  sound := h.appendGlobal_authors name
  depth := length_inner_appendGlobal _ _ _
  source := column_appendGlobal_of_ne _ _ (by decide)
  destination := column_appendGlobal_of_ne _ _ (by decide)
  ids id target := by
    have hsame := h.id?_eq (h.appendGlobal_authors name) fun other hother =>
      column_appendGlobal_of_ne table name (ne_of_isId hother isId_authorsKey)
    simp [hsame]
  warnings := by
    have hne : warningsKey ≠ authorsKey := by decide
    rw [warnings_congr (column_appendGlobal_of_ne table name hne), List.append_nil]

theorem warn_gains (h : table.Sound) (warning : Warning) :
    table.Gains [] [warning] (table.warn warning) where
  sound := h.warn warning
  depth := by rw [h.warn_eq]
  source := column_warn_of_ne _ _ (by decide)
  destination := column_warn_of_ne _ _ (by decide)
  ids id target := by
    have hsame := h.id?_eq (h.warn warning) fun other hother =>
      column_warn_of_ne table warning (ne_of_isId hother isId_warningsKey)
    simp [hsame]
  warnings := h.warnings_warn warning

theorem setGlobal_gains (h : table.Sound) {id : String} (hid : isId id = true)
    (hnew : table.id? id = none) (target : Target) :
    table.Gains [(id, target)] [] (table.setGlobal id (.id target)) where
  sound := h.setGlobal_id hid target
  depth := length_inner_setGlobal _ _ _
  source := column_setGlobal_of_ne _ _ (ne_of_isId hid isId_sourceKey).symm
  destination := column_setGlobal_of_ne _ _ (ne_of_isId hid isId_destinationKey).symm
  ids other found := by
    by_cases heq : other = id
    · subst heq
      simp [id?_setGlobal_self, hnew, eq_comm]
    · simp [id?_congr (column_setGlobal_of_ne table (.id target) heq), heq]
  warnings := by
    have hsame := column_setGlobal_of_ne table (.id target) (ne_of_isId hid isId_warningsKey).symm
    rw [warnings_congr hsame, List.append_nil]

/-- **An id that could be made known is known afterwards, and nothing else changed.** -/
theorem register_gains (h : table.Sound) {id : String} (hid : isId id = true) {target : Target}
    (hregister : table.register id target = .ok after) : table.Gains [(id, target)] [] after := by
  unfold register at hregister
  split at hregister
  next existing hexisting =>
    split at hregister
    next heq =>
      cases hregister
      subst heq
      -- the id was known, so the table stays as it is
      have hsame : ∀ other found, table.id? other = some found ↔
          table.id? other = some found ∨ (other, found) ∈ [(id, existing)] := by
        intro other found
        refine ⟨.inl, fun hor => hor.elim (fun hknown => hknown) fun hmem => ?_⟩
        cases List.mem_singleton.1 hmem
        exact hexisting
      exact { Gains.refl h with ids := hsame }
    next => cases hregister
  next hnew =>
    cases hregister
    exact setGlobal_gains h hid hnew target

/-- An id can be made known unless it stands for something else. -/
theorem exists_register {id : String} {target : Target}
    (h : table.Consistent [(id, target)]) : ∃ after, table.register id target = .ok after := by
  unfold register
  split
  next existing hexisting =>
    have heq : existing = target :=
      h id existing target (.inl hexisting) (.inr List.mem_cons_self)
    rw [if_pos heq]
    exact ⟨_, rfl⟩
  next => exact ⟨_, rfl⟩

/-! ### Scopes of their own -/

/-- The table `start` is `table` with one more scope, in which only paths are noted. -/
structure Opens (table start : Table) : Prop where
  sound : start.Sound
  tail : ∀ key, (start.column key).tail = table.column key
  ids : ∀ id, start.id? id = table.id? id
  warnings : start.warnings = table.warnings

theorem opens_push (h : table.Sound) : table.Opens table.push where
  sound := h.push
  tail _ := rfl
  ids := id?_push table
  warnings := warnings_push table

theorem Opens.set_path (h : table.Opens start) {key : String} (hid : isId key = false)
    (hwarnings : key ≠ warningsKey) (path : DocumentPath) :
    table.Opens (start.set key (.path path)) where
  sound := h.sound.set_path hid hwarnings path
  tail other := by
    by_cases heq : other = key
    · subst heq
      rw [column_set_self, List.tail_cons, h.tail]
    · rw [column_set_of_ne _ _ heq, h.tail]
  ids id := by
    have hsame := h.sound.id?_eq (h.sound.set_path hid hwarnings path) fun other hother =>
      column_set_of_ne start (.path path) (ne_of_isId hother hid)
    rw [hsame, h.ids]
  warnings := by
    rw [warnings_congr (column_set_of_ne start _ hwarnings.symm), h.warnings]

theorem Opens.depth (h : table.Opens start) : start.inner.length = table.inner.length + 1 := by
  have hlength := congrArg List.length (h.tail warningsKey)
  simpa using hlength

theorem Opens.consistent_iff (h : table.Opens start) :
    start.Consistent pairs ↔ table.Consistent pairs := by
  simp only [Consistent, h.ids]

/-- What was gained in a scope of its own is kept when that is closed. -/
theorem Opens.close (h : table.Opens start) (hgains : start.Gains pairs given after) :
    table.Gains pairs given (after.keep table.inner.length) := by
  have hdepth : after.inner.length = table.inner.length + 1 := hgains.depth.trans h.depth
  have hfew : table.inner.length ≤ after.inner.length := by omega
  -- exactly the scope that was opened is dropped
  have hone : after.inner.length - table.inner.length = 1 := by omega
  constructor
  case sound => exact hgains.sound.keep hfew
  case depth => exact length_inner_keep hfew
  case source => rw [column_keep, hone, hgains.source, List.drop_one, h.tail]
  case destination => rw [column_keep, hone, hgains.destination, List.drop_one, h.tail]
  case ids =>
    intro id target
    rw [hgains.sound.id?_keep, hgains.ids, h.ids]
  case warnings => rw [hgains.sound.warnings_keep hfew, hgains.warnings, h.warnings]

end Table
end Bindery
