import Bindery.Proofs.Path.Simplified
import Bindery.Section.Emission

/-!
# `Proofs.Path.Links` — a link leads to its target

A link goes up from the directory of the document it stands in, to where the way to the target branches off, and down from
there. Whoever follows it from that directory comes to the target: each `..` of the link takes away one of the names that
lead to the directory, and the names of the link lead down the rest of the way.

## Contents
- `DocumentPath.fromRoot`: a path by the names that lead to it from the root; `Made.exists_fromRoot`.
- `exists_route`: a route as the names it goes up and the names it goes down.
- `IsRelativeLink`, `isRelativeLink_relativeTo`, `stepsOf_relativeTo`: how a route is written, and what is read back.
- `foldl_step_route`, `sibling_linkTo`: following a route.
- `link_leads_to_target`.
-/

namespace Bindery

open Bindery.Path

namespace DocumentPath

/-! ## Paths by their names -/

/-- The path that the given names lead to from the root. -/
def fromRoot (names : List String) : DocumentPath := ⟨.root :: names.map .name⟩

/-- An absolute path without `..` is told by the names that lead to it. -/
theorem Made.exists_fromRoot {path : DocumentPath} (h : path.Made) (habsolute : path.isAbsolute = true)
    (hparent : .parent ∉ path.parts) : ∃ names, path = fromRoot names := by
  obtain ⟨start, climbs, names, hstart, hclimbs, hshape⟩ := h.simplified.shape
  obtain ⟨parts⟩ := path
  obtain rfl : parts = _ := hshape
  refine ⟨names, ?_⟩
  rcases Nat.le_one_iff_eq_zero_or_eq_one.1 hclimbs with rfl | rfl
  · rcases hstart with rfl | rfl
    · cases names <;> cases habsolute
    · rfl
  · exact absurd (by simp) hparent

theorem directory_fromRoot (names : List String) : (fromRoot names).directory = fromRoot names.dropLast := by
  cases names with
  | nil => rfl
  | cons first rest =>
    show (⟨(Component.root :: (first :: rest).map .name).dropLast⟩ : DocumentPath) = _
    rw [List.map_cons, List.dropLast_cons_cons, ← List.map_cons, ← List.map_dropLast]
    rfl

end DocumentPath

/-! ## Routes -/

namespace Path

/-- The route that leaves the names `up` upwards and follows the names `down` from there. -/
def routeOf (up down : List String) : List Component := List.replicate up.length .parent ++ down.map .name

/-- **A route goes up and then down**: up from the base to what both have in common, and down from there. -/
theorem exists_route (target base : List String) :
    ∃ common up down, target = common ++ down ∧ base = common ++ up ∧
      route? (target.map .name) (base.map .name) = some (routeOf up down) := by
  induction target generalizing base with
  | nil =>
    refine ⟨[], base, [], rfl, rfl, ?_⟩
    rw [List.map_nil, route?, List.map_map, routeOf, List.map_nil, List.append_nil]
    exact congrArg some (List.map_const' ..)
  | cons first rest ih =>
    cases base with
    | nil => exact ⟨[], [], first :: rest, rfl, rfl, rfl⟩
    | cons other others =>
      by_cases hsame : first = other
      · subst hsame
        obtain ⟨common, up, down, htarget, hbase, hroute⟩ := ih others
        refine ⟨first :: common, up, down, congrArg (first :: ·) htarget, congrArg (first :: ·) hbase, ?_⟩
        rw [List.map_cons, List.map_cons, route?, if_pos rfl]
        exact hroute
      · refine ⟨[], other :: others, first :: rest, rfl, rfl, ?_⟩
        have hdiffer : Component.name first ≠ .name other := by simpa using hsame
        rw [List.map_cons, List.map_cons, route?, if_neg hdiffer, if_neg (by simp), List.length_map]
        rfl

/-- A link that is relative by its looks. -/
def IsRelativeLink (link : String) : Prop :=
  ['.', '/'] <+: link.toList ∨ ['.', '.', '/'] <+: link.toList ∨ link = ".."

theorem IsRelativeLink.not_isAbsolute {link : String} (h : IsRelativeLink link) :
    isAbsolute link = false := by
  unfold isAbsolute
  rcases h with ⟨rest, hlink⟩ | ⟨rest, hlink⟩ | rfl
  · rw [← hlink]
    rfl
  · rw [← hlink]
    rfl
  · rfl

theorem IsRelativeLink.ne_empty {link : String} (h : IsRelativeLink link) : link ≠ "" := by
  rintro rfl
  rcases h with ⟨rest, hlink⟩ | ⟨rest, hlink⟩ | hlink
  · cases hlink
  · cases hlink
  · exact absurd hlink (by decide)

/-- Steps are read back from their spelling. -/
theorem stepsOf_spelled {steps : List Component} (h : ∀ step ∈ steps, Component.IsStep step) :
    stepsOf (spelled steps).toList = steps := by
  rw [spelled, String.toList_ofList]
  cases steps with
  | nil => rfl
  | cons first rest => rw [stepsOf, segments_chars h, filterMap_chars h]

/-- Each `..` takes away one of the names. -/
theorem foldl_step_climb (up above : List String) (leftOver : Nat) :
    (List.replicate up.length Component.parent).foldl Walk.step ⟨up ++ above, leftOver⟩ =
      ⟨above, leftOver⟩ := by
  induction up with
  | nil => rfl
  | cons name rest ih =>
    rw [List.length_cons, List.replicate_succ, List.foldl_cons]
    exact ih

/-- **Following a route leads from the base to the target.** -/
theorem foldl_step_route (common up down : List String) :
    (routeOf up down).foldl Walk.step ⟨(common ++ up).reverse, 0⟩ = ⟨(common ++ down).reverse, 0⟩ := by
  have hclimb := foldl_step_climb up.reverse common.reverse 0
  rw [List.length_reverse] at hclimb
  rw [routeOf, List.foldl_append, List.reverse_append, hclimb, foldl_step_names, List.reverse_append]

end Path

namespace DocumentPath

/-- A link climbs, or it starts with `./`. -/
theorem isRelativeLink_relativeTo (path base : DocumentPath) : IsRelativeLink (path.relativeTo base) := by
  unfold relativeTo
  dsimp only
  split
  next hlink => exact .inr (.inr (String.toList_inj.1 hlink))
  next rest hlink => exact .inr (.inl ⟨rest, hlink.symm⟩)
  next =>
    left
    rw [String.toList_append]
    exact List.prefix_append _ _

/-- What is read from a link is the route. -/
theorem stepsOf_relativeTo {path base : DocumentPath}
    (h : ∀ step ∈ path.routeFrom base, Component.IsStep step) :
    stepsOf (path.relativeTo base).toList = path.routeFrom base := by
  have hspelled := stepsOf_spelled h
  unfold relativeTo
  dsimp only
  split
  · exact hspelled
  · exact hspelled
  · have hdot : stepsOf ['.'] = [] := rfl
    have hlead := stepsOf_append ['.'] (spelled (path.routeFrom base)).toList
    rw [hdot, List.nil_append, hspelled] at hlead
    rw [String.toList_append]
    exact hlead

/-! ## Following links -/

theorem Made.isStep_of_name {path : DocumentPath} (h : path.Made) {text : String}
    (hname : .name text ∈ path.parts) : (Component.name text).IsStep := by
  obtain ⟨steps, hsteps, hparts | hparts⟩ := h.simplified.canonical
  · exact hsteps _ (hparts ▸ hname)
  · rw [hparts] at hname
    rcases List.mem_cons.1 hname with hroot | hstep
    · cases hroot
    · exact hsteps _ hstep

theorem foldl_step_fromRoot (names : List String) :
    (fromRoot names).parts.foldl Walk.step ⟨[], 0⟩ = ⟨names.reverse, 0⟩ := by
  show (names.map Component.name).foldl Walk.step ⟨[], 0⟩ = _
  rw [foldl_step_names, List.append_nil]

theorem told_eq_fromRoot (names : List String) : Walk.told ⟨names.reverse, 0⟩ = fromRoot names := by
  show (⟨.root :: names.reverse.reverse.map .name⟩ : DocumentPath) = _
  rw [List.reverse_reverse]
  rfl

/-- A route to a path that was made can be written and read back. -/
theorem Made.isStep_of_route {up common down : List String} (h : (fromRoot (common ++ down)).Made)
    {step : Component} (hstep : step ∈ routeOf up down) : step.IsStep := by
  rcases List.mem_append.1 hstep with hup | hdown
  · rw [List.eq_of_mem_replicate hup]
    exact isStep_parent
  · obtain ⟨text, htext, rfl⟩ := List.mem_map.1 hdown
    exact h.isStep_of_name (by simp [fromRoot, htext])

/-- A link is written from a route, up from the directory it is used in and down to the target. -/
theorem exists_routeFrom (target base : List String) :
    ∃ common up down, target = common ++ down ∧ base = common ++ up ∧
      (fromRoot target).routeFrom (fromRoot base) = routeOf up down := by
  obtain ⟨common, up, down, htarget, hbase, hroute⟩ := exists_route target base
  refine ⟨common, up, down, htarget, hbase, ?_⟩
  show (route? (.root :: target.map .name) (.root :: base.map .name)).getD _ = _
  rw [route?, if_pos rfl, hroute]
  rfl

/-- **A link leads to its target**, from the directory of the document it stands in. -/
theorem sibling_linkTo {path target : DocumentPath} (hpath : path.Made) (htarget : target.Made)
    (habsolute : path.isAbsolute = true) (habsolute' : target.isAbsolute = true)
    (hparent : .parent ∉ path.parts) (hparent' : .parent ∉ target.parts) :
    path.sibling (path.linkTo target) = target := by
  have hread := components_text hpath.directory.simplified.canonical
  obtain ⟨names, rfl⟩ := hpath.exists_fromRoot habsolute hparent
  obtain ⟨goal, rfl⟩ := htarget.exists_fromRoot habsolute' hparent'
  rw [directory_fromRoot] at hread
  obtain ⟨common, up, down, rfl, hbase, hroute⟩ := exists_routeFrom goal names.dropLast
  have hsteps : ∀ step ∈ (fromRoot (common ++ down)).routeFrom (fromRoot names.dropLast), step.IsStep := by
    intro step hstep
    rw [hroute] at hstep
    exact htarget.isStep_of_route hstep
  have hrelative := (isRelativeLink_relativeTo (fromRoot (common ++ down)) (fromRoot names.dropLast)).not_isAbsolute
  have hdirectory : Path.isAbsolute (fromRoot names.dropLast).text = true := isAbsolute_text rfl
  -- the walk goes down to the directory first, and then along the route
  have hwalk : walk (reading ((fromRoot (common ++ down)).relativeTo (fromRoot names.dropLast))
      (fromRoot names.dropLast).text) = ⟨(common ++ down).reverse, 0⟩ := by
    rw [reading, hrelative, if_neg Bool.false_ne_true, hread, walk, List.foldl_append, foldl_step_fromRoot,
      components, foldl_step_componentsOf, stepsOf_relativeTo hsteps, hroute, hbase, foldl_step_route]
  rw [sibling, linkTo, directory_fromRoot, resolve_eq_told hdirectory, hwalk, told_eq_fromRoot]

end DocumentPath

/-- **The path that is written for an id leads to what the id stands for.** A link between two absolute paths without `..`
leads from the one to the other, and looks relative. So where the document that is being written has the first of them as
its destination, and the id stands for a place in the second, what is written is the anchor alone exactly if these are one
document and there is an anchor, and otherwise such a link with the anchor behind it. -/
theorem link_leads_to_target {path target : DocumentPath} (hpath : path.Made) (htarget : target.Made)
    (habsolute : path.isAbsolute = true) (habsolute' : target.isAbsolute = true)
    (hparent : .parent ∉ path.parts) (hparent' : .parent ∉ target.parts) :
    path.sibling (path.linkTo target) = target ∧ IsRelativeLink (path.linkTo target) ∧
    ∀ {table : Table} {id : String} {anchor : Option String} (location : Location),
      table.destination? = some path → table.id? id = some ⟨target, anchor⟩ →
      ∃ shown, table.linkTo id location = .ok shown ∧
        (shown = anchor.getD "" ↔ path = target ∧ anchor.getD "" ≠ "") ∧
        (¬(path = target ∧ anchor.getD "" ≠ "") →
          ∃ link, IsRelativeLink link ∧ path.sibling link = target ∧ shown = link ++ anchor.getD "") := by
  have hleads := DocumentPath.sibling_linkTo hpath htarget habsolute habsolute' hparent hparent'
  have hrelative : IsRelativeLink (path.linkTo target) := DocumentPath.isRelativeLink_relativeTo _ _
  refine ⟨hleads, hrelative, ?_⟩
  intro table id anchor location hdestination hid
  have hcurrent : table.current? = some path := by
    rw [Table.current?, hdestination]
    rfl
  rw [Table.linkTo, hid]
  simp only [hcurrent]
  by_cases hhere : path = target ∧ anchor.getD "" ≠ ""
  · rw [if_pos hhere]
    exact ⟨_, rfl, iff_of_true rfl hhere, fun hnot => absurd hhere hnot⟩
  · rw [if_neg hhere]
    refine ⟨_, rfl, iff_of_false ?_ hhere, fun _ => ⟨_, hrelative, hleads, rfl⟩⟩
    -- a link is never empty, so more than the anchor is written
    intro halone
    have hchars := congrArg String.toList halone
    rw [String.toList_append, List.append_left_eq_self, String.toList_eq_nil_iff] at hchars
    exact hrelative.ne_empty hchars

/-- The table while `/out/docs/guide.md` is written, with an id for a place in a document with misleading names. -/
def linkingTable : Table :=
  (Table.new.set Table.destinationKey (.path (.resolve "/out/docs/guide.md" "/"))).setGlobal "notes"
    (.id ⟨.resolve "/out/..notes/read.me." "/", some "#top"⟩)

theorem link_leads_to_notes :
    linkingTable.linkTo "notes" ⟨⟨"/a.md", 1, 1⟩, ⟨1, 1⟩⟩ = .ok "../..notes/read.me.#top" ∧
    ∃ link, IsRelativeLink link ∧
      (DocumentPath.resolve "/out/docs/guide.md" "/").sibling link = .resolve "/out/..notes/read.me." "/" ∧
      "../..notes/read.me.#top" = link ++ "#top" := by
  have hshown : linkingTable.linkTo "notes" ⟨⟨"/a.md", 1, 1⟩, ⟨1, 1⟩⟩ = .ok "../..notes/read.me.#top" := by
    decide +kernel
  obtain ⟨-, -, hwritten⟩ := link_leads_to_target (.resolve "/out/docs/guide.md" "/")
    (.resolve "/out/..notes/read.me." "/") (by decide +kernel) (by decide +kernel) (by decide +kernel)
    (by decide +kernel)
  obtain ⟨shown, hsame, -, hlink⟩ := @hwritten linkingTable "notes" (some "#top") ⟨⟨"/a.md", 1, 1⟩, ⟨1, 1⟩⟩
    (by decide +kernel) (by decide +kernel)
  obtain rfl := Except.ok.inj (hshown.symm.trans hsame)
  have hapart : DocumentPath.resolve "/out/docs/guide.md" "/" ≠ .resolve "/out/..notes/read.me." "/" := by
    decide +kernel
  exact ⟨hshown, hlink fun hsame => hapart hsame.1⟩

end Bindery
