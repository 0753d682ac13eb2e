import Bindery.Proofs.Path.Canonical

/-!
# `Proofs.Path.Walk` — where a path leads

To read a path is to walk down from where it starts: a name leads one step down, `..` leads back up, and `.` leads nowhere.
A `..` at the start itself has nowhere to lead to. A simplified path tells where the walk ends by its names; but it also
keeps a `..` in front of them if an odd number of `..` were left over. Absolute paths that lead to one place are therefore
the same path only if they agree in that, too.

## Contents
- `Walk`: the names that were not left again, and the `..` that were left over; `Walk.step`, `walk`.
- `Walk.trail`: what simplifying makes of a walk; `follow_trail`, `foldl_follow_trail`.
- `simplify_componentsOf`: a simplified path tells of a walk.
- `stepsOf`: the components that are steps; `foldl_step_componentsOf`, `walk_join`.
- `resolve_tells_walk`: what is left of an absolute path.
-/

namespace Bindery
namespace Path

/-! ## Walks -/

/-- A walk down from a starting point: the names that lead to where it has got (last one first), and how often it was to
leave the starting point upwards. -/
structure Walk where
  names : List String
  leftOver : Nat
deriving DecidableEq, Repr

/-- Go one component further. At the starting point, `..` leads nowhere. -/
def Walk.step (way : Walk) : Component → Walk
  | .name text => { way with names := text :: way.names }
  | .parent =>
    match way.names with
    | [] => { way with leftOver := way.leftOver + 1 }
    | _ :: above => { way with names := above }
  | .root | .current => way

/-- The walk along some components. -/
def walk (parts : List Component) : Walk := parts.foldl Walk.step ⟨[], 0⟩

/-- The names of a walk as the components of a path. -/
def Walk.steps (way : Walk) : List Component := way.names.reverse.map .name

/-- The steps (last one first) that tell of a walk from `start`: each `..` that was left over takes away the one before it,
so at most one of them stays. -/
def Walk.trail (start : List Component) (way : Walk) : List Component :=
  way.names.map .name ++ (List.replicate (way.leftOver % 2) .parent ++ start)

/-- Where a path can start: at the root, or wherever it is used. -/
def IsStart (start : List Component) : Prop := start = [] ∨ start = [.root]

/-- **One more component of a path is one more step of the walk.** -/
theorem follow_trail {start : List Component} (hstart : IsStart start) (way : Walk) {component : Component}
    (hroot : component ≠ .root) : follow (way.trail start) component = (way.step component).trail start := by
  obtain ⟨names, leftOver⟩ := way
  cases component with
  | root => exact absurd rfl hroot
  | current => rfl
  | name text => rfl
  | parent =>
    cases names with
    | cons text above => rfl
    | nil =>
      -- what decides is whether a `..` that was left over before stands there to be taken away
      have hstep : Walk.step ⟨[], leftOver⟩ .parent = ⟨[], leftOver + 1⟩ := rfl
      rw [hstep]
      unfold Walk.trail
      rcases Nat.mod_two_eq_zero_or_one leftOver with heven | hodd
      · have hnext : (leftOver + 1) % 2 = 1 := by omega
        rw [heven, hnext]
        rcases hstart with rfl | rfl <;> rfl
      · have hnext : (leftOver + 1) % 2 = 0 := by omega
        rw [hodd, hnext]
        rcases hstart with rfl | rfl <;> rfl

/-- **So the whole path is the whole walk.** -/
theorem foldl_follow_trail {start : List Component} (hstart : IsStart start) {parts : List Component}
    (hroot : .root ∉ parts) (way : Walk) :
    parts.foldl follow (way.trail start) = (parts.foldl Walk.step way).trail start := by
  induction parts generalizing way with
  | nil => rfl
  | cons component rest ih =>
    obtain ⟨hfirst, hrest⟩ := not_or.1 (mt List.mem_cons.2 hroot)
    rw [List.foldl_cons, List.foldl_cons, follow_trail hstart way (Ne.symm hfirst), ih hrest]

theorem reverse_trail (start : List Component) (way : Walk) :
    (way.trail start).reverse =
      start.reverse ++ (List.replicate (way.leftOver % 2) .parent ++ way.steps) := by
  unfold Walk.trail Walk.steps
  rw [List.reverse_append, List.reverse_append, List.reverse_replicate, List.map_reverse,
    List.append_assoc]

/-! ## The components of a path -/

/-- The starting point of a path given as characters. -/
def startOf (cs : List Char) : List Component := if cs.head? = some '/' then [.root] else []

/-- The components of a path that are steps. -/
def stepsOf (cs : List Char) : List Component := (segments cs).filterMap Component.ofSegment?

theorem isStart_startOf (cs : List Char) : IsStart (startOf cs) := by
  unfold startOf
  split
  · exact .inr rfl
  · exact .inl rfl

theorem isStep_of_mem_stepsOf {cs : List Char} {step : Component} (h : step ∈ stepsOf cs) : step.IsStep :=
  isStep_of_mem_filterMap (fun _ => not_mem_of_segments) h

theorem root_not_mem_stepsOf (cs : List Char) : .root ∉ stepsOf cs := by
  intro hroot
  cases (isStep_of_mem_stepsOf hroot).2

/-- The components are the starting point and the steps, with a `.` perhaps where a relative path starts. -/
theorem componentsOf_eq (cs : List Char) :
    componentsOf cs = startOf cs ++ stepsOf cs ∨
      startOf cs = [] ∧ componentsOf cs = .current :: stepsOf cs := by
  unfold componentsOf
  split
  next rest => exact .inl rfl
  next hslash =>
    have hstart : startOf cs = [] := by
      unfold startOf
      cases cs with
      | nil => rfl
      | cons c rest =>
        refine if_neg fun hhead => hslash rest ?_
        rw [Option.some.inj hhead]
    rw [hstart]
    unfold stepsOf
    split
    next others hsegments =>
      rw [hsegments]
      exact .inr ⟨rfl, rfl⟩
    next => exact .inl rfl

/-- Walking minds the steps only. -/
theorem foldl_step_componentsOf (way : Walk) (cs : List Char) :
    (componentsOf cs).foldl Walk.step way = (stepsOf cs).foldl Walk.step way := by
  rcases componentsOf_eq cs with hparts | ⟨-, hparts⟩
  · rw [hparts, List.foldl_append]
    rcases isStart_startOf cs with hstart | hstart <;> rw [hstart] <;> rfl
  · rw [hparts]
    rfl

/-- **A simplified path tells of a walk**: from where the path starts it keeps the names that lead to where the walk ends,
and a `..` before them if an odd number of `..` were left over. -/
theorem simplify_componentsOf (cs : List Char) :
    simplify (componentsOf cs) =
      startOf cs ++ (List.replicate ((walk (componentsOf cs)).leftOver % 2) .parent ++
        (walk (componentsOf cs)).steps) := by
  have hstart := isStart_startOf cs
  have hfollow : (componentsOf cs).foldl follow [] = (stepsOf cs).foldl follow (startOf cs) := by
    rcases componentsOf_eq cs with hparts | ⟨hnone, hparts⟩
    · rw [hparts, List.foldl_append]
      rcases hstart with hstart | hstart <;> rw [hstart] <;> rfl
    · rw [hparts, hnone]
      rfl
  have hwalk : (componentsOf cs).foldl follow [] = (walk (componentsOf cs)).trail (startOf cs) := by
    rw [hfollow, walk, foldl_step_componentsOf]
    exact foldl_follow_trail hstart (root_not_mem_stepsOf cs) ⟨[], 0⟩
  have hreverse : (startOf cs).reverse = startOf cs := by
    rcases hstart with hstart | hstart <;> rw [hstart] <;> rfl
  rw [simplify, hwalk, reverse_trail, hreverse]

/-! ## Joined paths -/

theorem stepsOf_append (cs rest : List Char) :
    stepsOf (cs ++ '/' :: rest) = stepsOf cs ++ stepsOf rest := by
  rw [stepsOf, segments_append, List.filterMap_append]
  rfl

theorem startOf_append {cs : List Char} (h : cs ≠ []) (rest : List Char) :
    startOf (cs ++ rest) = startOf cs := by
  cases cs with
  | nil => exact absurd rfl h
  | cons c cs => rfl

theorem startOf_of_isAbsolute {path : String} (h : isAbsolute path = true) :
    startOf path.toList = [.root] := if_pos (beq_iff_eq.1 h)

theorem startOf_of_not_isAbsolute {path : String} (h : isAbsolute path = false) :
    startOf path.toList = [] := if_neg (beq_eq_false_iff_ne.1 h)

/-- **A relative path that is joined to a base starts where the base does, and its steps come after those of the base.** -/
theorem join_eq (base : String) {raw : String} (hraw : isAbsolute raw = false) :
    startOf (join base raw).toList = startOf base.toList ∧
      stepsOf (join base raw).toList = stepsOf base.toList ++ stepsOf raw.toList := by
  unfold join
  rw [hraw, Bool.false_or]
  by_cases hempty : base.isEmpty = true
  · obtain rfl := String.isEmpty_iff.1 hempty
    rw [if_pos hempty]
    exact ⟨startOf_of_not_isAbsolute hraw, rfl⟩
  · rw [if_neg hempty]
    have hbase : base.toList ≠ [] := fun hnil => hempty (String.isEmpty_iff.2 (String.toList_eq_nil_iff.1 hnil))
    split
    next hslash =>
      obtain ⟨above, habove⟩ := List.getLast?_eq_some_iff.1 (beq_iff_eq.1 hslash)
      have hjoined : stepsOf (above ++ ['/'] ++ raw.toList) = stepsOf above ++ stepsOf raw.toList := by
        rw [List.append_assoc]
        exact stepsOf_append above raw.toList
      have hwhole : stepsOf (above ++ ['/']) = stepsOf above :=
        (stepsOf_append above []).trans (List.append_nil _)
      rw [String.toList_append]
      refine ⟨startOf_append hbase _, ?_⟩
      rw [habove, hjoined, hwhole]
    next =>
      rw [String.toList_append, String.toList_append, List.append_assoc]
      exact ⟨startOf_append hbase _, stepsOf_append _ _⟩

/-- The components that are followed when `raw` is resolved: its own, after those of the base if it is relative. -/
def reading (raw base : String) : List Component :=
  if isAbsolute raw then components raw else components base ++ components raw

/-- A joined path leads where its components lead. -/
theorem walk_join (raw base : String) : walk (components (join base raw)) = walk (reading raw base) := by
  unfold reading
  cases hraw : isAbsolute raw with
  | true =>
    have hjoin : join base raw = raw := by
      rw [join, hraw, Bool.true_or]
      rfl
    rw [hjoin, if_pos rfl]
  | false =>
    have hsteps := (join_eq base hraw).2
    rw [if_neg Bool.false_ne_true]
    unfold walk components
    rw [foldl_step_componentsOf, hsteps, List.foldl_append, List.foldl_append, foldl_step_componentsOf,
      foldl_step_componentsOf]

/-! ## Absolute paths -/

namespace Walk

/-- The place that a walk from the root leads to, told by its names alone. -/
def place (way : Walk) : DocumentPath := ⟨.root :: way.steps⟩

/-- What simplifying makes of a walk from the root. -/
def told (way : Walk) : DocumentPath :=
  ⟨.root :: (List.replicate (way.leftOver % 2) .parent ++ way.steps)⟩

theorem told_eq_told_iff {way other : Walk} (hnames : way.names = other.names) :
    way.told = other.told ↔ way.leftOver % 2 = other.leftOver % 2 := by
  unfold told steps
  rw [hnames]
  constructor
  · intro heq
    have hlength := congrArg (fun path : DocumentPath => path.parts.length) heq
    simp only [List.length_cons, List.length_append, List.length_replicate] at hlength
    omega
  · intro hsame
    rw [hsame]

/-- A place is told by its names alone only if no `..`, or an even number of them, were left over. -/
theorem told_eq_place_iff (way : Walk) : way.told = way.place ↔ way.leftOver % 2 = 0 :=
  @told_eq_told_iff way ⟨way.names, 0⟩ rfl

theorem current_not_mem_told (way : Walk) : .current ∉ way.told.parts := by
  simp [told, steps]

theorem parent_mem_told_iff (way : Walk) : .parent ∈ way.told.parts ↔ way.leftOver % 2 = 1 := by
  simp only [told, steps, List.mem_cons, List.mem_append, List.mem_replicate, List.mem_map]
  constructor
  · rintro (hroot | ⟨hne, -⟩ | ⟨text, -, hname⟩)
    · cases hroot
    · exact Nat.mod_two_ne_zero.1 hne
    · cases hname
  · intro hodd
    exact .inr (.inl ⟨Nat.mod_two_ne_zero.2 hodd, trivial⟩)

end Walk

end Path

namespace DocumentPath

open Bindery.Path

/-- What is resolved is what is left of the walk along its components. -/
theorem resolve_parts (raw base : String) :
    (resolve raw base).parts =
      startOf (join base raw).toList ++
        (List.replicate ((walk (reading raw base)).leftOver % 2) .parent ++ (walk (reading raw base)).steps) := by
  rw [← walk_join]
  exact simplify_componentsOf _

/-- What is resolved against an absolute base is absolute. -/
theorem resolve_eq_told {base : String} (hbase : Path.isAbsolute base = true) (raw : String) :
    resolve raw base = (walk (reading raw base)).told := by
  have hstart : startOf (join base raw).toList = [.root] := by
    cases hraw : Path.isAbsolute raw with
    | true =>
      rw [join, hraw, Bool.true_or]
      exact startOf_of_isAbsolute hraw
    | false =>
      rw [(join_eq base hraw).1]
      exact startOf_of_isAbsolute hbase
  have hparts := resolve_parts raw base
  rw [hstart] at hparts
  exact congrArg DocumentPath.mk hparts

/-- **An absolute path tells where it leads, up to a `..` at the root.** The components of the text, after those of the base
if it is relative, are walked along from the root; what is resolved is told by the names that lead to where the walk ends,
with a `..` before them if an odd number of `..` were left over at the root. So it holds no `.`, and a `..` in that case
only; and two spellings of one place are the same path exactly if they agree in that. -/
theorem resolve_tells_walk (raw : String) {base : String} (hbase : Path.isAbsolute base = true) :
    resolve raw base = (walk (reading raw base)).told ∧
    (resolve raw base = (walk (reading raw base)).place ↔ (walk (reading raw base)).leftOver % 2 = 0) ∧
    .current ∉ (resolve raw base).parts ∧
    (.parent ∈ (resolve raw base).parts ↔ (walk (reading raw base)).leftOver % 2 = 1) ∧
    ∀ {other root : String}, Path.isAbsolute root = true →
      (walk (reading other root)).names = (walk (reading raw base)).names →
      (resolve other root = resolve raw base ↔
        (walk (reading other root)).leftOver % 2 = (walk (reading raw base)).leftOver % 2) := by
  rw [resolve_eq_told hbase raw]
  refine ⟨rfl, Walk.told_eq_place_iff _, Walk.current_not_mem_told _, Walk.parent_mem_told_iff _, ?_⟩
  intro other root hroot hnames
  rw [resolve_eq_told hroot other]
  exact Walk.told_eq_told_iff hnames

/-- A relative path that leads up and down again, but not above the root. -/
theorem resolve_tells_walk_detour :
    Path.isAbsolute "/docs/a/.." = true ∧
    walk (reading "./.././b/x/../c.md" "/docs/a/..") = ⟨["c.md", "b"], 0⟩ ∧
    resolve "./.././b/x/../c.md" "/docs/a/.." = ⟨[.root, .name "b", .name "c.md"]⟩ := by
  have hbase : Path.isAbsolute "/docs/a/.." = true := by decide +kernel
  have hwalk : walk (reading "./.././b/x/../c.md" "/docs/a/..") = ⟨["c.md", "b"], 0⟩ := by decide +kernel
  have hplace := (resolve_tells_walk "./.././b/x/../c.md" hbase).2.1
  rw [hwalk] at hplace
  exact ⟨hbase, hwalk, hplace.2 rfl⟩

/-- A `..` at the root stays, and a second one takes it away: these three lead to the root, and are two paths. -/
theorem resolve_above_root :
    walk (reading "/.." "/") = ⟨[], 1⟩ ∧ resolve "/.." "/" ≠ (walk (reading "/.." "/")).place ∧
    (resolve "/.." "/").text = "/.." ∧ (resolve "/" "/").text = "/" ∧ (resolve "/../.." "/").text = "/" := by
  decide +kernel

end DocumentPath
end Bindery
