import Bindery.Path.DocumentPath

/-!
# `Proofs.Path.Canonical` — a document path is told by its text

Files are stored under the texts of paths, while paths are compared by their components. For document paths these come to
the same: what is left of a path once it has been simplified is a root perhaps, and then steps each of which is the only
reading of its characters. So reading the text of a document path gives its components back.

## Contents
- `Component.IsStep`: a component that its characters stand for; `isStep_of_segment`.
- `Canonical`: the components of a simplified path; `canonical_simplify`.
- `segments_joinSlash`: cutting at slashes undoes joining.
- `DocumentPath.components_text`, `DocumentPath.text_injective`.
-/

namespace Bindery
namespace Path

/-! ## Steps -/

/-- A component that can stand between slashes, where its characters stand for it. -/
def Component.IsStep (component : Component) : Prop :=
  '/' ∉ component.chars ∧ Component.ofSegment? component.chars = some component

theorem isStep_parent : Component.parent.IsStep := ⟨by decide, rfl⟩

/-- What stands between two slashes and stands for something is a step. -/
theorem isStep_of_segment {segment : List Char} {component : Component} (hslash : '/' ∉ segment)
    (h : Component.ofSegment? segment = some component) : component.IsStep := by
  unfold Component.ofSegment? at h
  split at h
  next => cases h
  next => cases h
  next =>
    cases h
    exact isStep_parent
  next hempty hdot hdots =>
    cases h
    have hchars : (Component.name (String.ofList segment)).chars = segment := String.toList_ofList
    unfold Component.IsStep
    rw [hchars]
    refine ⟨hslash, ?_⟩
    unfold Component.ofSegment?
    split
    next => exact absurd rfl hempty
    next => exact absurd rfl hdot
    next => exact absurd rfl hdots
    next => rfl

theorem segments_ne_nil (cs : List Char) : segments cs ≠ [] := by
  cases cs with
  | nil => exact List.cons_ne_nil _ _
  | cons c rest =>
    rw [segments]
    split
    · exact List.cons_ne_nil _ _
    · split <;> exact List.cons_ne_nil _ _

theorem not_mem_of_segments {cs segment : List Char} (h : segment ∈ segments cs) : '/' ∉ segment := by
  induction cs generalizing segment with
  | nil =>
    cases List.mem_singleton.1 h
    exact List.not_mem_nil
  | cons c rest ih =>
    rw [segments] at h
    by_cases hc : c = '/'
    · rw [if_pos hc] at h
      rcases List.mem_cons.1 h with rfl | h
      · exact List.not_mem_nil
      · exact ih h
    · rw [if_neg hc] at h
      cases hsegments : segments rest with
      | nil => exact absurd hsegments (segments_ne_nil rest)
      | cons first others =>
        rw [hsegments] at h ih
        rcases List.mem_cons.1 h with rfl | h
        · have hfirst : '/' ∉ first := ih List.mem_cons_self
          simp [Ne.symm hc, hfirst]
        · exact ih (List.mem_cons_of_mem _ h)

theorem isStep_of_mem_filterMap {segments : List (List Char)}
    (hslash : ∀ segment ∈ segments, '/' ∉ segment) {component : Component}
    (h : component ∈ segments.filterMap Component.ofSegment?) : component.IsStep := by
  obtain ⟨segment, hmem, hsome⟩ := List.mem_filterMap.1 h
  exact isStep_of_segment (hslash segment hmem) hsome

/-- Only the first component of a path can be something else than a step: a root or a `.`. -/
theorem componentsOf_cases (cs : List Char) :
    ∃ steps, (∀ step ∈ steps, Component.IsStep step) ∧
      (componentsOf cs = steps ∨ componentsOf cs = .root :: steps ∨
        componentsOf cs = .current :: steps) := by
  have hslash (text : List Char) : ∀ segment ∈ segments text, '/' ∉ segment :=
    fun _ hsegment => not_mem_of_segments hsegment
  unfold componentsOf
  split
  next rest => exact ⟨_, fun _ hstep => isStep_of_mem_filterMap (hslash rest) hstep, .inr (.inl rfl)⟩
  next =>
    have hslash := hslash cs
    split
    next others hsegments =>
      rw [hsegments] at hslash
      refine ⟨_, fun _ hstep => isStep_of_mem_filterMap ?_ hstep, .inr (.inr rfl)⟩
      exact fun segment hsegment => hslash segment (List.mem_cons_of_mem _ hsegment)
    next => exact ⟨_, fun _ hstep => isStep_of_mem_filterMap hslash hstep, .inl rfl⟩

/-! ## Simplified paths -/

/-- The components of a simplified path: perhaps a root, and then steps. -/
def Canonical (parts : List Component) : Prop :=
  ∃ steps, (∀ step ∈ steps, Component.IsStep step) ∧ (parts = steps ∨ parts = .root :: steps)

theorem canonical_nil : Canonical [] := ⟨[], nofun, .inl rfl⟩

theorem canonical_root : Canonical [.root] := ⟨[], nofun, .inr rfl⟩

theorem Canonical.append {parts : List Component} {component : Component} (h : Canonical parts)
    (hstep : component.IsStep) : Canonical (parts ++ [component]) := by
  obtain ⟨steps, hsteps, hparts⟩ := h
  refine ⟨steps ++ [component], fun step hmem => ?_, ?_⟩
  · rcases List.mem_append.1 hmem with hmem | hmem
    · exact hsteps step hmem
    · cases List.mem_singleton.1 hmem
      exact hstep
  · rcases hparts with rfl | rfl
    · exact .inl rfl
    · exact .inr rfl

/-- What leads to a simplified path is simplified. -/
theorem Canonical.of_append {parts : List Component} {component : Component}
    (h : Canonical (parts ++ [component])) : Canonical parts := by
  obtain ⟨steps, hsteps, rfl | hparts⟩ := h
  · exact ⟨parts, fun step hmem => hsteps step (List.mem_append_left _ hmem), .inl rfl⟩
  · cases parts with
    | nil => exact canonical_nil
    | cons first rest =>
      obtain ⟨rfl, rfl⟩ := List.cons.inj hparts
      exact ⟨rest, fun step hmem => hsteps step (List.mem_append_left _ hmem), .inr rfl⟩

/-- **One more step keeps a path simplified.** -/
theorem canonical_follow {trail : List Component} (h : Canonical trail.reverse) {step : Component}
    (hstep : step.IsStep) : Canonical (follow trail step).reverse := by
  cases step with
  | root => exact nomatch hstep.2
  | current => exact nomatch hstep.2
  | name text =>
    show Canonical (Component.name text :: trail).reverse
    rw [List.reverse_cons]
    exact h.append hstep
  | parent =>
    simp only [follow]
    split
    next => exact canonical_nil.append hstep
    next => exact canonical_root.append hstep
    next last earlier _ =>
      rw [List.reverse_cons] at h
      exact h.of_append

theorem canonical_foldl_follow {steps trail : List Component}
    (hsteps : ∀ step ∈ steps, Component.IsStep step) (h : Canonical trail.reverse) :
    Canonical (steps.foldl follow trail).reverse := by
  induction steps generalizing trail with
  | nil => exact h
  | cons step rest ih =>
    have hfirst := canonical_follow h (hsteps step List.mem_cons_self)
    exact ih (fun other hother => hsteps other (List.mem_cons_of_mem _ hother)) hfirst

theorem canonical_simplify (cs : List Char) : Canonical (simplify (componentsOf cs)) := by
  unfold simplify
  obtain ⟨steps, hsteps, hcs | hcs | hcs⟩ := componentsOf_cases cs
  · rw [hcs]
    exact canonical_foldl_follow hsteps canonical_nil
  · rw [hcs, List.foldl_cons]
    exact canonical_foldl_follow hsteps canonical_root
  · rw [hcs, List.foldl_cons]
    exact canonical_foldl_follow hsteps canonical_nil

/-! ## Reading a path back -/

/-- What stands before a slash and what stands behind it are cut apart from each other. -/
theorem segments_append (cs rest : List Char) :
    segments (cs ++ '/' :: rest) = segments cs ++ segments rest := by
  induction cs with
  | nil => rfl
  | cons c cs ih =>
    rw [List.cons_append, segments, segments, ih]
    by_cases hslash : c = '/'
    · rw [if_pos hslash, if_pos hslash]
      rfl
    · rw [if_neg hslash, if_neg hslash]
      cases hsegments : segments cs with
      | nil => exact absurd hsegments (segments_ne_nil cs)
      | cons first others => rfl

theorem segments_of_not_mem {segment : List Char} (h : '/' ∉ segment) :
    segments segment = [segment] := by
  induction segment with
  | nil => rfl
  | cons c cs ih =>
    obtain ⟨hc, hcs⟩ := not_or.1 (mt List.mem_cons.2 h)
    rw [segments, if_neg (Ne.symm hc), ih hcs]

theorem segments_append_slash {segment : List Char} (h : '/' ∉ segment) (rest : List Char) :
    segments (segment ++ '/' :: rest) = segment :: segments rest := by
  rw [segments_append, segments_of_not_mem h]
  rfl

/-- **Cutting at slashes undoes joining with slashes.** -/
theorem segments_joinSlash {first : List Char} {rest : List (List Char)}
    (h : ∀ segment ∈ first :: rest, '/' ∉ segment) : segments (joinSlash (first :: rest)) = first :: rest := by
  induction rest generalizing first with
  | nil => exact segments_of_not_mem (h first List.mem_cons_self)
  | cons second others ih =>
    have hothers := ih fun segment hsegment => h segment (List.mem_cons_of_mem _ hsegment)
    rw [joinSlash, segments_append_slash (h first List.mem_cons_self), hothers]
    exact List.cons_ne_nil _ _

theorem Component.IsStep.chars_ne_nil {step : Component} (h : step.IsStep) : step.chars ≠ [] := by
  intro hnil
  have hsome := h.2
  rw [hnil] at hsome
  cases hsome

theorem Component.IsStep.chars_ne_dot {step : Component} (h : step.IsStep) : step.chars ≠ ['.'] := by
  intro hdot
  have hsome := h.2
  rw [hdot] at hsome
  cases hsome

theorem filterMap_chars {steps : List Component} (h : ∀ step ∈ steps, Component.IsStep step) :
    (steps.map Component.chars).filterMap Component.ofSegment? = steps := by
  induction steps with
  | nil => rfl
  | cons step rest ih =>
    have hrest := ih fun other hother => h other (List.mem_cons_of_mem _ hother)
    rw [List.map_cons, List.filterMap_cons_some (h step List.mem_cons_self).2, hrest]

theorem segments_chars {first : Component} {rest : List Component}
    (h : ∀ step ∈ first :: rest, Component.IsStep step) :
    segments (joinSlash ((first :: rest).map Component.chars)) =
      (first :: rest).map Component.chars := by
  refine segments_joinSlash fun segment hsegment => ?_
  obtain ⟨step, hstep, rfl⟩ := List.mem_map.1 (List.map_cons ▸ hsegment)
  exact (h step hstep).1

/-- Steps are read back from between their slashes. -/
theorem componentsOf_steps {steps : List Component} (h : ∀ step ∈ steps, Component.IsStep step) :
    componentsOf (joinSlash (steps.map Component.chars)) = steps := by
  cases steps with
  | nil => rfl
  | cons first rest =>
    have hsegments := segments_chars h
    have hfirst := h first List.mem_cons_self
    unfold componentsOf
    split
    next others hslash =>
      -- a slash in front would leave an empty segment
      rw [hslash, segments, if_pos rfl, List.map_cons] at hsegments
      exact absurd (List.cons.inj hsegments).1.symm hfirst.chars_ne_nil
    next =>
      rw [hsegments]
      split
      next others hdot => exact absurd (List.cons.inj hdot).1 hfirst.chars_ne_dot
      next => exact filterMap_chars h

theorem componentsOf_root {steps : List Component} (h : ∀ step ∈ steps, Component.IsStep step) :
    componentsOf ('/' :: joinSlash (steps.map Component.chars)) = .root :: steps := by
  rw [componentsOf]
  cases steps with
  | nil => rfl
  | cons first rest => rw [segments_chars h, filterMap_chars h]

end Path

namespace DocumentPath

open Bindery.Path

theorem canonical_resolve (raw base : String) : Canonical (resolve raw base).parts :=
  canonical_simplify _

/-- **The text of a simplified path says its components.** -/
theorem components_text {path : DocumentPath} (h : Canonical path.parts) :
    components path.text = path.parts := by
  obtain ⟨steps, hsteps, hparts⟩ := h
  unfold text
  split
  next hroot =>
    rw [hroot]
    rfl
  next hother =>
    unfold components spelled
    rw [String.toList_ofList]
    rcases hparts with hparts | hparts
    · rw [hparts]
      exact componentsOf_steps hsteps
    · cases steps with
      | nil => exact absurd hparts hother
      | cons first rest =>
        rw [hparts]
        exact componentsOf_root hsteps

theorem text_injective {path other : DocumentPath} (h : Canonical path.parts)
    (hother : Canonical other.parts) (htext : path.text = other.text) : path = other := by
  have hparts : path.parts = other.parts := by
    rw [← components_text h, htext, components_text hother]
  obtain ⟨parts⟩ := path
  obtain ⟨others⟩ := other
  exact congrArg DocumentPath.mk hparts

end DocumentPath
end Bindery
