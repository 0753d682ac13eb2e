import Bindery.Proofs.Path.Walk
import Mathlib.Data.List.Basic

/-!
# `Proofs.Path.Simplified` — a document path has one spelling

Document paths are made from texts, and go on to directories and siblings from there. However one was made, simplifying it
again changes nothing, a `..` stands in it only where nothing stands before it but a root, and its text is the one spelling
of its components. So paths can be stored and looked up by their texts and compared by their components.

## Contents
- `Simplified`: the components of a document path; `simplify_of_simplified`.
- `simplified_simplify`, `DocumentPath.simplified_directory`.
- `DocumentPath.Made`: a path that was made in any way; `DocumentPath.Made.simplified`.
- `DocumentPath.made_told_by_text`.
-/

namespace Bindery
namespace Path

/-- The components of a document path: perhaps a root, then perhaps a `..` that was left over, and then names. -/
structure Simplified (parts : List Component) : Prop where
  canonical : Canonical parts
  shape : ∃ (start : List Component) (climbs : Nat) (names : List String), IsStart start ∧ climbs ≤ 1 ∧
    parts = start ++ (List.replicate climbs .parent ++ names.map .name)

/-- Names lead down, one after the other. -/
theorem foldl_step_names (names : List String) (way : Walk) :
    (names.map Component.name).foldl Walk.step way = ⟨names.reverse ++ way.names, way.leftOver⟩ := by
  induction names generalizing way with
  | nil => rfl
  | cons text rest ih =>
    rw [List.map_cons, List.foldl_cons, ih, List.reverse_cons, List.append_assoc]
    rfl

/-- **Simplifying changes nothing that is simplified.** -/
theorem simplify_of_simplified {parts : List Component} (h : Simplified parts) : simplify parts = parts := by
  obtain ⟨start, climbs, names, hstart, hclimbs, rfl⟩ := h.shape
  have hfirst : start.foldl follow [] = (⟨[], 0⟩ : Walk).trail start := by
    rcases hstart with rfl | rfl <;> rfl
  have hclimb : (List.replicate climbs Component.parent).foldl Walk.step ⟨[], 0⟩ = ⟨[], climbs⟩ := by
    rcases Nat.le_one_iff_eq_zero_or_eq_one.1 hclimbs with rfl | rfl <;> rfl
  have hodd : climbs % 2 = climbs := Nat.mod_eq_of_lt (Nat.lt_succ_of_le hclimbs)
  have hreverse : start.reverse = start := by
    rcases hstart with rfl | rfl <;> rfl
  have hroot : Component.root ∉ List.replicate climbs .parent ++ names.map .name := by simp
  rw [simplify, List.foldl_append, hfirst, foldl_follow_trail hstart hroot,
    List.foldl_append, hclimb, foldl_step_names, reverse_trail, Walk.steps, List.append_nil,
    List.reverse_reverse, hodd, hreverse]

/-! ## Where a `..` can stand -/

theorem parent_not_mem_start {start : List Component} (h : IsStart start) : .parent ∉ start := by
  rcases h with rfl | rfl <;> simp

theorem parent_not_mem_names (names : List String) : Component.parent ∉ names.map .name := by
  simp

/-- A simplified path holds no `..`, or one that stands where the path starts. -/
theorem Simplified.parent_cases {parts : List Component} (h : Simplified parts) :
    .parent ∉ parts ∨
      ∃ start names, IsStart start ∧ .parent ∉ names ∧ parts = start ++ .parent :: names := by
  obtain ⟨start, climbs, names, hstart, hclimbs, rfl⟩ := h.shape
  rcases Nat.le_one_iff_eq_zero_or_eq_one.1 hclimbs with rfl | rfl
  · left
    rw [List.mem_append, not_or]
    exact ⟨parent_not_mem_start hstart, parent_not_mem_names names⟩
  · right
    exact ⟨start, names.map .name, hstart, parent_not_mem_names names, rfl⟩

/-- There is one `..` at most. -/
theorem Simplified.count_parent_le {parts : List Component} (h : Simplified parts) :
    parts.count .parent ≤ 1 := by
  rcases h.parent_cases with hnone | ⟨start, names, hstart, hnames, rfl⟩
  · rw [List.count_eq_zero.2 hnone]
    exact Nat.zero_le 1
  · have hcount : (start ++ .parent :: names).count Component.parent = 1 := by
      rw [List.count_append, List.count_cons_self,
        List.count_eq_zero.2 (parent_not_mem_start hstart), List.count_eq_zero.2 hnames]
    exact Nat.le_of_eq hcount

/-- Nothing stands before a `..` but a root. -/
theorem Simplified.before_parent {before after : List Component}
    (h : Simplified (before ++ .parent :: after)) : IsStart before := by
  rcases h.parent_cases with hnone | ⟨start, names, hstart, hnames, heq⟩
  · exact absurd (List.mem_append_right before List.mem_cons_self) hnone
  · obtain ⟨rfl, -, -⟩ :=
      (List.append_cons_inj_of_notMem (parent_not_mem_start hstart) hnames).1 heq.symm
    exact hstart

/-! ## How document paths are made -/

theorem simplified_simplify (cs : List Char) : Simplified (simplify (componentsOf cs)) where
  canonical := canonical_simplify cs
  shape := ⟨startOf cs, _, _, isStart_startOf cs, Nat.le_of_lt_succ (Nat.mod_lt _ Nat.two_pos),
    simplify_componentsOf cs⟩

/-- What is left when the last component is taken away is simplified. -/
theorem Simplified.dropLast {parts : List Component} (h : Simplified parts) : Simplified parts.dropLast := by
  rcases List.eq_nil_or_concat' parts with rfl | ⟨above, last, rfl⟩
  · exact h
  · constructor
    case canonical =>
      rw [List.dropLast_concat]
      exact h.canonical.of_append
    case shape =>
      obtain ⟨start, climbs, names, hstart, hclimbs, hshape⟩ := h.shape
      rw [hshape]
      rcases List.eq_nil_or_concat' names with rfl | ⟨fewer, name, rfl⟩
      · rcases Nat.le_one_iff_eq_zero_or_eq_one.1 hclimbs with rfl | rfl
        · -- nothing was there but the start, and so the start goes
          exact ⟨[], 0, [], .inl rfl, Nat.zero_le 1, by rcases hstart with rfl | rfl <;> rfl⟩
        · exact ⟨start, 0, [], hstart, Nat.zero_le 1, by rcases hstart with rfl | rfl <;> rfl⟩
      · refine ⟨start, climbs, fewer, hstart, hclimbs, ?_⟩
        rw [List.map_append, List.map_singleton, ← List.append_assoc, ← List.append_assoc,
          List.dropLast_concat, List.append_assoc]

end Path

namespace DocumentPath

open Bindery.Path

theorem simplified_directory {path : DocumentPath} (h : Simplified path.parts) :
    Simplified path.directory.parts := by
  unfold directory
  split
  · exact h
  · exact h
  · exact h.dropLast

/-- A path that was made from texts, going to directories and siblings any number of times. -/
inductive Made : DocumentPath → Prop where
  | resolve (raw base : String) : Made (resolve raw base)
  | directory {path : DocumentPath} (h : Made path) : Made path.directory
  | sibling {path : DocumentPath} (h : Made path) (raw : String) : Made (path.sibling raw)

/-- **However a path was made, it is simplified.** -/
theorem Made.simplified {path : DocumentPath} (h : path.Made) : Simplified path.parts := by
  induction h with
  | resolve raw base => exact simplified_simplify _
  | directory _ ih => exact simplified_directory ih
  | sibling _ raw _ => exact simplified_simplify _

theorem isAbsolute_text {path : DocumentPath} (h : path.isAbsolute = true) :
    Path.isAbsolute path.text = true := by
  obtain ⟨parts⟩ := path
  obtain ⟨steps, rfl⟩ := List.head?_eq_some_iff.1 (beq_iff_eq.1 h)
  cases steps with
  | nil => rfl
  | cons first rest =>
    show ((spelled (.root :: first :: rest)).toList.head? == some '/') = true
    rw [spelled, String.toList_ofList]
    rfl

/-- **A document path is told by its text**, however it was made. The text is read as the components of the path, and
simplifying them changes nothing; so an absolute path is found again from its text, whatever the base. One `..` at most
stands in it, with nothing before it but a root; and two paths have the same components exactly if they have the same
text. -/
theorem made_told_by_text {path : DocumentPath} (h : path.Made) :
    components path.text = path.parts ∧
    (⟨simplify (components path.text)⟩ : DocumentPath) = path ∧
    (path.isAbsolute = true → ∀ base, resolve path.text base = path) ∧
    path.parts.count .parent ≤ 1 ∧
    (∀ before after, path.parts = before ++ .parent :: after → before = [] ∨ before = [.root]) ∧
    ∀ {other : DocumentPath}, other.Made →
      (path = other ↔ path.text = other.text) ∧
      (samePath path.text other.text = true ↔ path.text = other.text) := by
  have hsimplified := h.simplified
  have hread := components_text hsimplified.canonical
  have hfixed : (⟨simplify (components path.text)⟩ : DocumentPath) = path := by
    rw [hread, simplify_of_simplified hsimplified]
  refine ⟨hread, hfixed, ?_, hsimplified.count_parent_le, ?_, ?_⟩
  · intro habsolute base
    rw [resolve, join, isAbsolute_text habsolute, Bool.true_or, if_pos rfl]
    exact hfixed
  · intro before after hparts
    rw [hparts] at hsimplified
    exact hsimplified.before_parent
  · intro other hother
    have hcanonical := hother.simplified.canonical
    have hequal : path.text = other.text → path = other :=
      text_injective hsimplified.canonical hcanonical
    refine ⟨⟨congrArg text, hequal⟩, ?_⟩
    rw [samePath, hread, components_text hcanonical, beq_iff_eq]
    constructor
    · intro hparts
      exact congrArg text (congrArg DocumentPath.mk hparts)
    · intro htext
      exact congrArg parts (hequal htext)

/-- A path that was made in many steps, with more `..` than there were names. -/
def strayPath : DocumentPath := ((resolve "../../../a/./b" "/docs").sibling "../../c//d").directory

theorem strayPath_told_by_text :
    strayPath.Made ∧ strayPath.text = "/../c" ∧ ∀ base, resolve strayPath.text base = strayPath := by
  have hmade : strayPath.Made := ((Made.resolve _ _).sibling _).directory
  obtain ⟨-, -, hagain, -, -, -⟩ := made_told_by_text hmade
  exact ⟨hmade, by decide +kernel, hagain (by decide +kernel)⟩

end DocumentPath
end Bindery
