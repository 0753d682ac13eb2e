import Bindery.Location

/-!
# `Proofs.Location.Order` — locations stand in the order they are read

Locations are compared number by number, and by their paths at last. Each of these comparisons is a total order, so the
whole is one; only what it takes for equal is more than what is spelled alike, since paths are compared by components.
Reading a text goes up in this order: each character leads to a later column or to a later line of the same document.

## Contents
- `Path.Component.compare_eq_lex`: the order of components is a lexicographic one.
- `Path.comparePaths_eq_eq_iff`: paths that compare equal have the same components.
- `Location.compare_eq_eq_iff`, `Location.isBefore_iff_of_document_eq`: the order of locations.
- `Location.isBefore_advance`, `Location.isBefore_advanceOver`: reading goes up.
- `Location.compare_follows_reading`.
-/

namespace Bindery

open Std

namespace Path

/-! ## Components and paths -/

namespace Component

/-- The place of a kind of component in the order of the kinds. -/
def rank : Component → Nat
  | .root => 0
  | .current => 1
  | .parent => 2
  | .name _ => 3

/-- The text of a name; the other components have none. -/
def label : Component → String
  | .name text => text
  | _ => ""

/-- **Components are ordered by their kinds**, and names among themselves by their texts. -/
theorem compare_eq_lex (a b : Component) :
    compare a b = compareLex (compareOn rank) (compareOn label) a b := by
  cases a with
  | name text =>
    cases b with
    | name other =>
      show (compare text other).then .eq = compare text other
      exact Ordering.then_eq
    | _ => rfl
  | _ => cases b <;> rfl

theorem eq_of_rank_of_label {a b : Component} (hrank : a.rank = b.rank) (hlabel : a.label = b.label) :
    a = b := by
  cases a <;> cases b <;> simp_all [rank, label]

instance : TransOrd Component where
  eq_swap {a b} := by
    rw [compare_eq_lex, compare_eq_lex]
    exact OrientedCmp.eq_swap
  isLE_trans {a b c} := by
    rw [compare_eq_lex, compare_eq_lex, compare_eq_lex]
    exact TransCmp.isLE_trans

instance : LawfulEqOrd Component where
  eq_of_compare {a b} h := by
    rw [compare_eq_lex, compareLex, Ordering.then_eq_eq] at h
    exact eq_of_rank_of_label (LawfulEqOrd.eq_of_compare h.1) (LawfulEqOrd.eq_of_compare h.2)

end Component

theorem comparePaths_eq_eq_iff {a b : String} : comparePaths a b = .eq ↔ components a = components b :=
  LawfulEqOrd.compare_eq_iff_eq

end Path

namespace Location

/-! ## The order of locations -/

-- Unfolded, the comparison is a lexicographic one of total orders, and those have instances.
instance : TransCmp compare :=
  inferInstanceAs <| TransCmp <|
    compareLex (compareOn fun location : Location => location.document.depth) <|
    compareLex (compareOn fun location => location.document.index) <|
    compareLex (compareOn fun location => location.position.line) <|
    compareLex (compareOn fun location => location.position.column) <|
    compareOn fun location => Path.components location.document.path

/-- Locations compare equal that agree in all numbers and whose paths have the same components. -/
theorem compare_eq_eq_iff {a b : Location} :
    a.compare b = .eq ↔
      a.document.depth = b.document.depth ∧ a.document.index = b.document.index ∧
      a.position.line = b.position.line ∧ a.position.column = b.position.column ∧
      Path.components a.document.path = Path.components b.document.path := by
  simp only [compare, Ordering.then_eq_eq, Nat.compare_eq_eq, Path.comparePaths_eq_eq_iff]

theorem isBefore_iff {a b : Location} : a.isBefore b = true ↔ a.compare b = .lt := beq_iff_eq

theorem isSame_iff {a b : Location} : a.isSame b = true ↔ a.compare b = .eq := beq_iff_eq

/-- Of before, the same and after, one is true. -/
theorem count_outcomes (a b : Location) :
    [a.isBefore b, a.isSame b, a.isAfter b].count true = 1 := by
  unfold isBefore isSame isAfter
  cases a.compare b <;> rfl

/-- What comes after a location has it before. -/
theorem isAfter_eq_isBefore (a b : Location) : a.isAfter b = b.isBefore a := by
  unfold isAfter isBefore
  rw [@OrientedCmp.eq_swap _ compare _ a b]
  cases b.compare a <;> rfl

theorem isBefore_trans {a b c : Location} (hab : a.isBefore b = true) (hbc : b.isBefore c = true) :
    a.isBefore c = true := by
  rw [isBefore_iff] at hab hbc ⊢
  exact TransCmp.lt_trans hab hbc

/-! ## Reading a text -/

/-- In one document, locations are ordered by line and column. -/
theorem isBefore_iff_of_document_eq {a b : Location} (h : a.document = b.document) :
    a.isBefore b = true ↔ a.position.line < b.position.line ∨
      a.position.line = b.position.line ∧ a.position.column < b.position.column := by
  have hpath : Path.comparePaths b.document.path b.document.path = .eq :=
    Path.comparePaths_eq_eq_iff.2 rfl
  rw [isBefore_iff, compare, h, hpath, Nat.compare_eq_eq.2 rfl, Nat.compare_eq_eq.2 rfl,
    Ordering.eq_then, Ordering.eq_then, Ordering.then_eq, Ordering.then_eq_lt, Nat.compare_eq_lt,
    Nat.compare_eq_eq, Nat.compare_eq_lt]

/-- A character leads to a later location. -/
theorem isBefore_advance (location : Location) (c : Char) :
    location.isBefore (location.advance c) = true := by
  rw [isBefore_iff_of_document_eq (document_advance location c).symm, advance, Position.advance]
  split
  · exact .inl (Nat.lt_succ_self _)
  · exact .inr ⟨rfl, Nat.lt_succ_self _⟩

/-- **A text leads to a later location**, unless there is nothing in it. -/
theorem isBefore_advanceOver (location : Location) {text : List Char} (h : text ≠ []) :
    location.isBefore (location.advanceOver text) = true := by
  -- The location moves along with the text; what is left of the text may be empty, and then the step alone goes up.
  induction text generalizing location with
  | nil => exact absurd rfl h
  | cons c rest ih =>
    have hstep := location.isBefore_advance c
    cases rest with
    | nil => exact hstep
    | cons d more => exact isBefore_trans hstep (ih (location.advance c) (List.cons_ne_nil d more))

/-- **The order of locations follows reading.** It is a strict total order: of two locations, one comes before the other or
they are the same, and what comes before is transitive. Locations are the same that agree in depth, index, line and column
and whose paths have the same components, and then no comparison tells them apart. Whatever text is read from a location,
its end comes later and lies in the same document. -/
theorem compare_follows_reading (a b c : Location) :
    [a.isBefore b, a.isSame b, a.isAfter b].count true = 1 ∧
    a.isAfter b = b.isBefore a ∧
    (a.isBefore b = true → b.isBefore c = true → a.isBefore c = true) ∧
    (a.isSame b = true ↔
      a.document.depth = b.document.depth ∧ a.document.index = b.document.index ∧
      a.position.line = b.position.line ∧ a.position.column = b.position.column ∧
      Path.components a.document.path = Path.components b.document.path) ∧
    (a.isSame b = true → a.compare c = b.compare c ∧ c.compare a = c.compare b) ∧
    ∀ text, text ≠ [] →
      (a.advanceOver text).isAfter a = true ∧ (a.advanceOver text).document = a.document := by
  refine ⟨count_outcomes a b, isAfter_eq_isBefore a b, isBefore_trans, ?_, ?_, ?_⟩
  · rw [isSame_iff, compare_eq_eq_iff]
  · intro hsame
    rw [isSame_iff] at hsame
    exact ⟨TransCmp.congr_left hsame, TransCmp.congr_right hsame⟩
  · intro text htext
    have hdocument : (a.advanceOver text).document = a.document := by rw [advanceOver_eq]
    rw [isAfter_eq_isBefore]
    exact ⟨a.isBefore_advanceOver htext, hdocument⟩

/-- A location in a file of a directory. -/
def filed : Location := ⟨⟨"docs/a.md", 1, 1⟩, ⟨2, 7⟩⟩

/-- The same location with its path spelled in another way. -/
def refiled : Location := ⟨⟨"docs//./a.md/", 1, 1⟩, ⟨2, 7⟩⟩

/-- The same numbers in another file. By its text its path would come later, by its components it comes earlier. -/
def misfiled : Location := ⟨⟨"docs/a/md", 1, 1⟩, ⟨2, 7⟩⟩

theorem compare_follows_reading_refiled :
    refiled.isSame filed = true ∧ refiled.compare misfiled = filed.compare misfiled ∧
    misfiled.isBefore refiled = true ∧ misfiled.isBefore (refiled.advanceOver ['x', '\n']) = true := by
  let later := refiled.advanceOver ['x', '\n']
  have hsame : refiled.isSame filed = true := by decide
  have hbefore : misfiled.isBefore refiled = true := by decide
  obtain ⟨-, -, -, -, halike, hread⟩ := compare_follows_reading refiled filed misfiled
  obtain ⟨-, hturned, -⟩ := compare_follows_reading later refiled refiled
  obtain ⟨-, -, htrans, -⟩ := compare_follows_reading misfiled refiled later
  have hlater : refiled.isBefore later = true := by
    rw [← hturned]
    exact (hread ['x', '\n'] (List.cons_ne_nil _ _)).1
  exact ⟨hsame, (halike hsame).1, hbefore, htrans hbefore hlater⟩

end Location
end Bindery
