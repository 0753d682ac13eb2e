import Bindery.Proofs.Page.Shape
import Bindery.Proofs.Section.Paragraphs
import Bindery.Proofs.Source.Origins

/-!
# `Proofs.Section.SourceLines` — inline texts and the lines of their document

When a page is written, its document is no longer at hand. Whether an inline text continues the one before it is told from
where this one begins and from the line ends in what is written. A comment that was dropped from prose and the inside of a
directive can hold line ends too, and these are not counted. So two neighbours that share a line of the document stand
together if nothing of that kind lies in the first one, and apart otherwise; and neighbours that share no line always
stand apart.

## Contents
- `exists_dropped`, `exists_kept_of_ofProse?`: what of a run of prose is kept, and on which line it begins.
- `Extent`, `Drawn`: the characters of a document that an inline node comes from.
- `Extent.Fits`, `Item.exists_drawn`: what is known of their lines.
- `Item.exists_of_inline`: an inline node is all that its item makes.
- `inline_neighbours`.
-/

namespace Bindery

open Source Text

/-! ## What is kept of prose -/

/-- Only whole blank lines are dropped at the start of a text, and the place goes on by as many lines. -/
theorem exists_dropped {line : List Char} (hline : ∀ b ∈ line, isBlank b = true ∧ b ≠ '\n')
    (location : Location) (cs : List Char) :
    ∃ lead, line.reverse ++ cs = lead ++ (dropBlankLines location line cs).2 ∧
      (∀ c ∈ lead, isBlank c = true) ∧ ('\n' ∉ lead → lead = []) ∧
      (dropBlankLines location line cs).1.position.line =
        location.position.line + lead.count '\n' := by
  induction cs generalizing line location with
  | nil => exact ⟨[], by simp [dropBlankLines], List.forall_mem_nil _, fun _ => rfl, rfl⟩
  | cons c rest ih =>
    rw [dropBlankLines]
    split
    next hend =>
      subst hend
      obtain ⟨lead, hlead, hblank, -, hplace⟩ := ih (List.forall_mem_nil _) location.nextLine
      have hnone : line.reverse.count '\n' = 0 := by
        rw [List.count_reverse, List.count_eq_zero]
        intro hmem
        exact (hline _ hmem).2 rfl
      refine ⟨line.reverse ++ '\n' :: lead, ?_, ?_, ?_, ?_⟩
      · rw [List.append_assoc, List.cons_append, ← hlead]
        rfl
      · refine List.forall_mem_append.2 ⟨fun b hb => (hline b (List.mem_reverse.1 hb)).1, ?_⟩
        exact List.forall_mem_cons.2 ⟨by decide, hblank⟩
      · intro hmem
        exact absurd (List.mem_append_right _ (List.mem_cons_self ..)) hmem
      · rw [hplace, List.count_append, hnone, List.count_cons_self]
        show location.position.line + 1 + _ = _
        omega
    next hend =>
      split
      next hblank =>
        obtain ⟨lead, hlead, hrest⟩ :=
          ih (List.forall_mem_cons.2 ⟨⟨hblank, hend⟩, hline⟩) location
        refine ⟨lead, ?_, hrest⟩
        rw [← hlead]
        simp
      next => exact ⟨[], rfl, List.forall_mem_nil _, fun _ => rfl, rfl⟩

/-- What is kept at the end of a text does not end with a line end. -/
theorem exists_dropBlankEnd {cs : List Char} (hsome : trimEnd cs ≠ []) :
    ∃ trail, cs = dropBlankEnd cs ++ trail ∧ (∀ c ∈ trail, isBlank c = true) ∧
      dropBlankEnd cs ≠ [] ∧ (dropBlankEnd cs).getLast? ≠ some '\n' := by
  obtain ⟨blanks, hblanks, hblank⟩ := exists_trimEnd cs
  have hseen : (trimEnd cs).getLast? ≠ some '\n' := by
    intro hlast
    have hnot := isBlank_last_trimEnd cs '\n' hlast
    revert hnot
    decide
  unfold dropBlankEnd
  split
  next => exact ⟨blanks, hblanks, hblank, hsome, hseen⟩
  next hnone =>
    have hne : cs ≠ [] := by
      rintro rfl
      exact hsome rfl
    refine ⟨[], (List.append_nil cs).symm, List.forall_mem_nil _, hne, ?_⟩
    -- what is behind the last character that can be seen holds no line end
    have hdrop : (trimEnd cs ++ blanks).drop (trimEnd cs).length = blanks := List.drop_left
    rw [← hblanks] at hdrop
    rw [hdrop] at hnone
    rw [hblanks, List.getLast?_append]
    cases hlast : blanks.getLast? with
    | none => simpa using hseen
    | some c =>
      rintro ⟨⟩
      exact hnone (by simpa using List.mem_of_getLast? hlast)

/-- **What is kept of a run of prose**: all but blanks at its ends. Only whole lines are dropped before it, and the node
begins as many lines below the run. -/
theorem exists_kept_of_ofProse? {cs : List Char} {location : Location} {node : Node}
    (h : Node.ofProse? (String.ofList cs) location = some node) :
    ∃ lead kept trail place, node = .prose (String.ofList kept) place ∧ cs = lead ++ (kept ++ trail) ∧
      (∀ c ∈ lead, isBlank c = true) ∧ (∀ c ∈ trail, isBlank c = true) ∧
      ('\n' ∉ lead → lead = []) ∧ place.position.line = location.position.line + lead.count '\n' ∧
      kept ≠ [] ∧ kept.getLast? ≠ some '\n' := by
  unfold Node.ofProse? at h
  split at h
  next => cases h
  next hblank =>
    rw [String.toList_ofList] at h
    rw [isBlankText, String.toList_ofList] at hblank
    have hsome : ¬ ∀ c ∈ cs, isBlank c = true := fun hall => hblank (List.all_eq_true.2 hall)
    obtain ⟨_, _, _, -, -, -, hseen, hvalue⟩ := exists_kept hsome location
    obtain ⟨lead, hlead, hleadBlank, hwhole, hplace⟩ :=
      exists_dropped (List.forall_mem_nil _) location cs
    have hne : trimEnd (dropBlankLines location [] cs).2 ≠ [] := hvalue ▸ hseen.ne_nil
    obtain ⟨trail, htrail, htrailBlank, hkept, hlast⟩ := exists_dropBlankEnd hne
    refine ⟨lead, _, trail, _, (Option.some.inj h).symm, ?_, hleadBlank, htrailBlank, hwhole, hplace,
      hkept, hlast⟩
    rw [← htrail]
    exact hlead

/-! ## Where nodes come from -/

/-- The characters of a document that an inline node comes from: where they begin, where the first and the last stand that
are kept, and how many line ends are seen on the way from the beginning to the last one. -/
structure Extent where
  opening : Location
  first : Location
  last : Location
  breaks : Nat

/-- An inline node comes from some characters: prose from a run, of which it keeps all but blanks at its ends, and the path
to an id from the two parentheses of a directive. -/
inductive Drawn (found : List Piece) (tokens : List Token) : Node → Extent → Prop where
  | prose {lead kept trail : List Glyph} {start head final : Glyph} {location : Location}
      (hrun : .prose (lead ++ (kept ++ trail)) ∈ found)
      (hnode : Node.ofProse? (textOf (lead ++ (kept ++ trail))) start.location =
        some (.prose (textOf kept) location))
      (hlead : ∀ g ∈ lead, isBlank g.char = true) (htrail : ∀ g ∈ trail, isBlank g.char = true)
      (hstart : (lead ++ kept).head? = some start) (hhead : kept.head? = some head)
      (hfinal : kept.getLast? = some final) :
      Drawn found tokens (.prose (textOf kept) location)
        ⟨start.location, head.location, final.location, (charsOf (lead ++ kept)).count '\n'⟩
  | path {before after : List Token} {words : String} {location place closing : Location}
      (htokens : tokens = before ++
        (.atom "get-path" location :: .parameter words place :: .close closing :: after)) :
      Drawn found tokens (.pathTo (trimmed words) location) ⟨location, location, closing, 0⟩

/-- What is known of the lines of a node that comes from some characters. The text that is written has as many line ends as
are seen, and lies on no more lines than its characters; and it begins below the beginning only if what stands there is
dropped. -/
structure Extent.Fits (extent : Extent) (node : Node) : Prop where
  written : ∀ value location, node = .prose value location →
    location.position.line + value.toList.count '\n' = extent.opening.position.line + extent.breaks
  path : ∀ id location, node = .pathTo id location →
    location.position.line = extent.opening.position.line + extent.breaks
  ends : extent.opening.position.line + extent.breaks ≤ extent.last.position.line
  begins : extent.opening.position.line ≤ node.location.position.line
  starts : node.location.position.line ≤ extent.first.position.line
  same : node.location.position.line = extent.opening.position.line →
    extent.first.position.line = extent.opening.position.line

/-- From the first of some glyphs to a later one there are at least as many lines as line ends between them. -/
theorem line_add_count_le_of_head? {before more : List Glyph} {start last : Glyph}
    (hlines : (before ++ last :: more).Pairwise Glyph.Precedes)
    (hstart : (before ++ [last]).head? = some start) :
    start.location.position.line + (charsOf before).count '\n' ≤ last.location.position.line := by
  cases before with
  | nil =>
    cases hstart
    exact Nat.le_refl _
  | cons first between =>
    cases hstart
    exact line_add_count_le hlines

/-- The lines of what is kept of a run of prose. Whole lines are dropped before it, or nothing. -/
theorem Extent.fits_prose {lead kept trail : List Glyph}
    (hlines : (lead ++ (kept ++ trail)).Pairwise Glyph.Precedes) {start head final : Glyph}
    (hstart : (lead ++ kept).head? = some start) (hhead : kept.head? = some head)
    (hfinal : kept.getLast? = some final) (hseen : final.char ≠ '\n') {place : Location}
    (hplace : place.position.line = start.location.position.line + (charsOf lead).count '\n')
    (hwhole : '\n' ∉ charsOf lead → lead = []) :
    Extent.Fits ⟨start.location, head.location, final.location, (charsOf (lead ++ kept)).count '\n'⟩
      (.prose (textOf kept) place) := by
  obtain ⟨others, hothers⟩ := List.head?_eq_some_iff.1 hhead
  obtain ⟨init, hinit⟩ := List.getLast?_eq_some_iff.1 hfinal
  constructor
  case written =>
    intro value location heq
    cases heq
    rw [hplace, textOf, String.toList_ofList, charsOf_append, List.count_append, Nat.add_assoc]
  case path =>
    intro id location heq
    cases heq
  case ends =>
    -- the last character is no line end
    have hbreaks : (charsOf (lead ++ kept)).count '\n' = (charsOf (lead ++ init)).count '\n' := by
      rw [hinit, ← List.append_assoc, charsOf_append, List.count_append]
      simp [charsOf, hseen]
    show start.location.position.line + (charsOf (lead ++ kept)).count '\n' ≤ _
    rw [hbreaks]
    rw [hinit, ← List.append_assoc, ← List.append_assoc, List.append_assoc _ [final]] at hlines
    rw [hinit, ← List.append_assoc] at hstart
    exact line_add_count_le_of_head? hlines hstart
  case begins =>
    show start.location.position.line ≤ place.position.line
    omega
  case starts =>
    show place.position.line ≤ head.location.position.line
    rw [hplace]
    rw [hothers] at hlines hstart
    refine line_add_count_le_of_head? hlines ?_
    cases lead with
    | nil => exact hstart
    | cons first between => exact hstart
  case same =>
    intro hsame
    -- no line was dropped, so nothing was
    obtain rfl : lead = [] := by
      refine hwhole (List.count_eq_zero.1 ?_)
      change place.position.line = start.location.position.line at hsame
      omega
    rw [List.nil_append, hhead] at hstart
    cases hstart
    rfl

/-- Prose comes from its run. -/
theorem exists_drawn_prose {found : List Piece} (tokens : List Token) {gs : List Glyph}
    (hrun : .prose gs ∈ found) (hlines : gs.Pairwise Glyph.Precedes) {start : Glyph}
    (hstart : gs.head? = some start) {node : Node}
    (hnode : Node.ofProse? (textOf gs) start.location = some node) :
    ∃ extent, Drawn found tokens node extent ∧ extent.Fits node ∧
      extent.opening = start.location ∧ ∃ final ∈ gs, extent.last = final.location := by
  obtain ⟨leadChars, keptChars, trailChars, place, rfl, hchars, hlead, htrail, hwhole, hplace, hkept,
    hlast⟩ := exists_kept_of_ofProse? hnode
  obtain ⟨lead, rest, rfl, rfl, hrest⟩ := List.map_eq_append_iff.1 hchars
  obtain ⟨kept, trail, rfl, rfl, rfl⟩ := List.map_eq_append_iff.1 hrest
  have hsome : kept ≠ [] := fun hnil => hkept (by rw [hnil]; rfl)
  have hhead := List.head?_eq_some_head hsome
  have hfinal := List.getLast?_eq_some_getLast hsome
  have hseen : (kept.getLast hsome).char ≠ '\n' := by
    rw [List.getLast?_map, hfinal] at hlast
    simpa using hlast
  have hopening : (lead ++ kept).head? = some start := by
    rw [← List.append_assoc, List.head?_append_of_ne_nil _ (by simp [hsome])] at hstart
    exact hstart
  refine ⟨_, .prose hrun hnode ?_ ?_ hopening hhead hfinal, ?_, rfl, kept.getLast hsome, ?_, rfl⟩
  · intro g hg
    exact hlead _ (List.mem_map_of_mem hg)
  · intro g hg
    exact htrail _ (List.mem_map_of_mem hg)
  · refine Extent.fits_prose hlines hopening hhead hfinal hseen hplace ?_
    intro hnone
    exact List.map_eq_nil_iff.1 (hwhole hnone)
  · simp

theorem eq_of_unlessClosing {token other : Token} (h : token.unlessClosing = some other) :
    token = other := by
  cases token <;> cases h <;> rfl

theorem exists_close_of_unlessClosing {token : Token} (h : token.unlessClosing = none) :
    ∃ closing, token = .close closing := by
  cases token with
  | close closing => exact ⟨closing, rfl⟩
  | prose | atom | parameter => cases h

/-- The path to an id comes from its directive. -/
theorem exists_drawn_path {found : List Piece} {before after : List Token}
    {traced : List (Token × List Glyph)} {form : Form} {parameter : Parameter} {id : String}
    (hatom : form.atom = "get-path") (hparameter : form.parameter = some parameter)
    (hchildren : form.children = []) (hid : form.readId = .ok id)
    (hsame : SameTokens (traced.map Prod.fst) form.tokens)
    (hfrom : ∀ pair ∈ traced, pair.1.IsFrom found pair.2)
    (hlines : (traced.flatMap Prod.snd).Pairwise Glyph.Precedes) :
    ∃ extent, Drawn found (before ++ (traced.map Prod.fst ++ after)) (.pathTo id form.location) extent ∧
      extent.Fits (.pathTo id form.location) ∧
      (∃ g ∈ traced.flatMap Prod.snd, extent.opening = g.location) ∧
      ∃ g ∈ traced.flatMap Prod.snd, extent.last = g.location := by
  have htokens : form.tokens = [.atom "get-path" form.location,
      .parameter parameter.text parameter.location, .close form.location] := by
    rw [Form.tokens_eq, Form.opened, hatom, hparameter, hchildren]
    rfl
  rw [htokens, SameTokens, List.map_map] at hsame
  obtain ⟨⟨opener, opening⟩, rest, rfl, hopener, hrest⟩ := List.map_eq_cons_iff.1 hsame
  obtain ⟨⟨word, words⟩, rest, rfl, hword, hrest⟩ := List.map_eq_cons_iff.1 hrest
  obtain ⟨⟨closer, closing⟩, rest, rfl, hcloser, hrest⟩ := List.map_eq_cons_iff.1 hrest
  obtain rfl := List.map_eq_nil_iff.1 hrest
  obtain rfl := eq_of_unlessClosing hopener
  obtain rfl := eq_of_unlessClosing hword
  obtain ⟨place, rfl⟩ := exists_close_of_unlessClosing hcloser
  have hopens : opening.map Glyph.location = [form.location] :=
    hfrom (.atom "get-path" form.location, opening) (by simp)
  have hcloses : closing.map Glyph.location = [place] := hfrom (.close place, closing) (by simp)
  obtain ⟨start, rfl, hstart⟩ := List.map_eq_singleton_iff.1 hopens
  obtain ⟨final, rfl, hfinal⟩ := List.map_eq_singleton_iff.1 hcloses
  have hprecedes : start.Precedes final := by
    refine List.rel_of_pairwise_cons hlines ?_
    simp
  have hle : start.location.position.line ≤ final.location.position.line :=
    Nat.le_of_add_right_le hprecedes
  rw [hstart, hfinal] at hle
  obtain rfl : id = trimmed parameter.text := by
    rw [eq_trimmed_of_readId hid, Form.parameterText, Form.parameterText?, hparameter]
    rfl
  refine ⟨⟨form.location, form.location, place, 0⟩, .path rfl, ?_,
    ⟨start, by simp, hstart.symm⟩, ⟨final, by simp, hfinal.symm⟩⟩
  refine ⟨?_, ?_, hle, Nat.le_refl _, Nat.le_refl _, fun _ => rfl⟩
  · intro value location heq
    cases heq
  · intro id location heq
    cases heq
    rfl

/-- An inline node is all that its item makes, and comes from prose or from a directive for a path. -/
theorem Item.inline_cases {item : Item} {read : List Node × List Entry} {notes : List Note}
    (h : item.reading = .ok (read, notes)) {node : Node} (hnode : node ∈ read.1)
    (hinline : node.isInline = true) :
    read.1 = [node] ∧
      ((∃ text location, item = .prose text location ∧ Node.ofProse? text location = some node) ∨
        ∃ form id, item = .form form ∧ form.atom = "get-path" ∧ form.readId = .ok id ∧
          node = .pathTo id form.location) := by
  cases item with
  | prose text location =>
    cases h
    obtain hsome : Node.ofProse? text location = some node := by simpa using hnode
    refine ⟨by rw [hsome]; rfl, .inl ⟨text, location, rfl, hsome⟩⟩
  | form form =>
    rw [Item.reading] at h
    split at h
    next =>
      obtain ⟨⟨⟨title, entries⟩, found⟩, hfound, heq⟩ := except_map_eq_ok.1 h
      cases heq
      obtain ⟨name, label, link, subtitle, heq⟩ := metaReading_nodes hfound
      cases heq
      obtain rfl := List.mem_singleton.1 hnode
      cases hinline
    next =>
      split at h
      next =>
        obtain ⟨nodes, hnodes, heq⟩ := except_map_eq_ok.1 h
        cases heq
        rcases readContent_nodes hnodes with rfl | ⟨label, style, location, rfl⟩
        · obtain rfl := List.mem_singleton.1 hnode
          cases hinline
        · rcases List.mem_cons.1 hnode with rfl | hnode
          · cases hinline
          · obtain rfl := List.mem_singleton.1 hnode
            cases hinline
      next =>
        split at h
        next hpath =>
          obtain ⟨id, hid, heq⟩ := except_map_eq_ok.1 h
          cases heq
          obtain rfl := List.mem_singleton.1 hnode
          exact ⟨rfl, .inr ⟨form, id, rfl, hpath, hid, rfl⟩⟩
        next =>
          cases h
          obtain rfl := List.mem_singleton.1 hnode
          cases hinline

/-- **An inline node comes from the characters of its item.** -/
theorem Item.exists_drawn {document : Coordinate} {items : List Item}
    (hcheck : Grammar.document.check document.start items = .ok ()) {item : Item} (hitem : item ∈ items)
    {read : List Node × List Entry} {notes : List Note} (h : item.reading = .ok (read, notes))
    {node : Node} (hnode : node ∈ read.1) (hinline : node.isInline = true) {found : List Piece}
    (before after : List Token) {traced : List (Token × List Glyph)}
    (hsame : SameTokens (traced.map Prod.fst) item.tokens)
    (hfrom : ∀ pair ∈ traced, pair.1.IsFrom found pair.2)
    (hlines : (traced.flatMap Prod.snd).Pairwise Glyph.Precedes) :
    ∃ extent, Drawn found (before ++ (traced.map Prod.fst ++ after)) node extent ∧ extent.Fits node ∧
      (∃ g ∈ traced.flatMap Prod.snd, extent.opening = g.location) ∧
      ∃ g ∈ traced.flatMap Prod.snd, extent.last = g.location := by
  rcases (Item.inline_cases h hnode hinline).2 with
    ⟨text, location, rfl, hprose⟩ | ⟨form, id, rfl, hatom, hid, rfl⟩
  · rw [Item.tokens, SameTokens, List.map_map] at hsame
    obtain ⟨⟨token, gs⟩, rest, rfl, htoken, hrest⟩ := List.map_eq_cons_iff.1 hsame
    obtain rfl := List.map_eq_nil_iff.1 hrest
    obtain rfl := eq_of_unlessClosing htoken
    have horigin : Token.IsFrom found (.prose text location) gs :=
      hfrom (.prose text location, gs) (List.mem_singleton_self _)
    obtain ⟨hrun, rfl, hplace⟩ := horigin
    obtain ⟨start, hstart, rfl⟩ := Option.map_eq_some_iff.1 hplace
    rw [List.flatMap_singleton] at hlines ⊢
    obtain ⟨extent, hdrawn, hfits, hopening, hlast⟩ := exists_drawn_prose _ hrun hlines hstart hprose
    exact ⟨extent, hdrawn, hfits, ⟨start, List.mem_of_mem_head? hstart, hopening⟩, hlast⟩
  · have hform : form ∈ Item.forms items := Item.mem_forms_iff.2 hitem
    rcases document_form_cases hcheck hform with ⟨hmeta, -⟩ | ⟨hcontent, -⟩ | ⟨-, ⟨parameter, hparameter⟩, hnone⟩
    · exact absurd (hatom.symm.trans hmeta) (by decide)
    · exact absurd (hatom.symm.trans hcontent) (by decide)
    · exact exists_drawn_path hatom hparameter hnone hid hsame hfrom hlines

/-- **An inline node is all that its item makes**, so the items before and behind make the nodes before and behind. -/
theorem Item.exists_of_inline {items : List Item} {nodes : List Node} {entries : List Entry}
    {notes : List Note} (h : Item.readingAll items = .ok ((nodes, entries), notes))
    {earlier later : List Node} {node : Node} (hnodes : nodes = earlier ++ node :: later)
    (hinline : node.isInline = true) :
    ∃ before item after read some others more, items = before ++ item :: after ∧
      item.reading = .ok (read, some) ∧ node ∈ read.1 ∧
      Item.readingAll after = .ok ((later, others), more) := by
  induction items generalizing nodes entries notes earlier with
  | nil =>
    cases h
    simp at hnodes
  | cons item rest ih =>
    rw [Item.readingAll] at h
    obtain ⟨⟨first, firstNotes⟩, hfirst, h⟩ := except_bind_eq_ok.1 h
    obtain ⟨⟨⟨others, otherEntries⟩, otherNotes⟩, hothers, heq⟩ := except_map_eq_ok.1 h
    cases heq
    rcases List.append_eq_append_iff.1 hnodes with ⟨middle, rfl, hrest⟩ | ⟨middle, hmiddle, hrest⟩
    · obtain ⟨before, found, after, hfound⟩ := ih hothers hrest
      obtain ⟨read, some, added, more, rfl, hread⟩ := hfound
      exact ⟨item :: before, found, after, read, some, added, more, rfl, hread⟩
    · cases middle with
      | nil =>
        obtain ⟨before, found, after, read, some, added, more, rfl, hread⟩ :=
          ih hothers (show others = [] ++ node :: later from hrest.symm)
        exact ⟨item :: before, found, after, read, some, added, more, rfl, hread⟩
      | cons head middle =>
        -- the node is one of the item's, and so the only one
        obtain ⟨rfl, rfl⟩ := List.cons.inj hrest
        have hmem : node ∈ first.1 := by
          rw [show first.1 = earlier ++ node :: middle from hmiddle]
          simp
        have hsingle := (Item.inline_cases hfirst hmem hinline).1
        obtain rfl : middle = [] := by
          have hlength := congrArg List.length (hsingle.symm.trans hmiddle)
          rw [List.length_singleton, List.length_append, List.length_cons] at hlength
          exact List.length_eq_zero_iff.1 (by omega)
        exact ⟨[], item, rest, first, firstNotes, otherEntries, otherNotes, rfl, hfirst, hmem, hothers⟩

/-! ## Neighbours -/

theorem exists_append_of_sameTokens {traced : List (Token × List Glyph)} {tokens others : List Token}
    (h : SameTokens (traced.map Prod.fst) (tokens ++ others)) :
    ∃ first second, traced = first ++ second ∧ SameTokens (first.map Prod.fst) tokens ∧
      SameTokens (second.map Prod.fst) others := by
  rw [SameTokens, List.map_map, List.map_append] at h
  obtain ⟨first, second, rfl, hfirst, hsecond⟩ := List.map_eq_append_iff.1 h
  exact ⟨first, second, rfl, by rw [SameTokens, List.map_map, hfirst],
    by rw [SameTokens, List.map_map, hsecond]⟩

/-- **Two neighbouring inline nodes come from characters of the document**, those of the first before those of the
second. -/
theorem exists_extents {document : Coordinate}
    (hkind : DocumentPath.Kind.ofExtension? document.extension? = .markdown) {text : String}
    {page : Page} {notes : List Note} (hread : Page.reading document text = .ok (some page, notes))
    {earlier later : List Node} {first second : Node}
    (hnodes : page.nodes = earlier ++ first :: second :: later) (hfirst : first.isInline = true)
    (hsecond : second.isInline = true) :
    ∃ found tokens extent next,
      pieces (glyphs document.start (unifyNewlines text.toList)) = .ok found ∧
      documentTokens document text = .ok tokens ∧ Drawn (merge found) tokens first extent ∧
      Drawn (merge found) tokens second next ∧ extent.Fits first ∧ next.Fits second ∧
      extent.last.position.line ≤ next.opening.position.line := by
  obtain ⟨items, hitems, hpage⟩ := except_bind_eq_ok.1 hread
  obtain ⟨_, hcheck, hpage⟩ := except_bind_eq_ok.1 hpage
  obtain ⟨⟨⟨nodes, entries⟩, readNotes⟩, hall, heq⟩ := except_map_eq_ok.1 hpage
  obtain rfl := Page.eq_of_outcome (congrArg Prod.fst heq)
  obtain ⟨before, item, after, firstRead, firstNotes, _, _, rfl, hitem, hmem, hafter⟩ :=
    Item.exists_of_inline hall hnodes hfirst
  obtain ⟨between, other, rest, secondRead, secondNotes, _, _, rfl, hother, hothermem, -⟩ :=
    Item.exists_of_inline hafter (show second :: later = [] ++ second :: later from rfl) hsecond
  obtain ⟨tokens, htokens, hofTokens⟩ := except_bind_eq_ok.1 hitems
  obtain ⟨parts, hparts, htokenize⟩ := except_bind_eq_ok.1 htokens
  rw [splitText_markdown hkind] at hparts
  obtain ⟨found, hfound, rfl⟩ := except_map_eq_ok.1 hparts
  obtain ⟨traced, htraced, hfrom, horder⟩ := exists_traces hfound htokenize
  have hlines := (pairwise_precedes_glyphs _ _).sublist horder
  -- the tokens are cut where the items are
  have hsame := ofTokens_iff_sameTokens.1 hofTokens
  simp only [flatten, List.flatMap_append, List.flatMap_cons] at hsame
  rw [← htraced] at hsame
  obtain ⟨leading, _, rfl, -, hsame⟩ := exists_append_of_sameTokens hsame
  obtain ⟨here, _, rfl, hhere, hsame⟩ := exists_append_of_sameTokens hsame
  obtain ⟨middle, _, rfl, -, hsame⟩ := exists_append_of_sameTokens hsame
  obtain ⟨there, trailing, rfl, hthere, -⟩ := exists_append_of_sameTokens hsame
  simp only [List.forall_mem_append] at hfrom
  simp only [List.flatMap_append, List.pairwise_append, List.mem_append] at hlines
  obtain ⟨-, hfromHere, -, hfromThere, -⟩ := hfrom
  obtain ⟨-, ⟨hlinesHere, ⟨-, ⟨hlinesThere, -⟩, -⟩, hcross⟩, -⟩ := hlines
  obtain ⟨extent, hdrawn, hfits, -, final, hfinal, hlast⟩ := Item.exists_drawn hcheck (by simp) hitem hmem
    hfirst (leading.map Prod.fst) ((middle ++ (there ++ trailing)).map Prod.fst) hhere hfromHere hlinesHere
  obtain ⟨next, hnext, hfitsNext, ⟨start, hstart, hopening⟩, -⟩ := Item.exists_drawn hcheck (by simp)
    hother hothermem hsecond ((leading ++ (here ++ middle)).map Prod.fst) (trailing.map Prod.fst) hthere
    hfromThere hlinesThere
  refine ⟨found, tokens, extent, next, hfound, htokens, ?_, ?_, hfits, hfitsNext, ?_⟩
  · rw [← htraced]
    simpa using hdrawn
  · rw [← htraced]
    simpa using hnext
  · rw [hlast, hopening]
    exact Nat.le_of_add_right_le (hcross final hfinal start (.inr (.inl hstart)))

/-- The text that an inline node says. -/
def Node.inline? (table : Table) : Node → Option Emission
  | .prose value location => some (.inline value location)
  | .pathTo id location => (table.id? id).map fun target => .inline (table.linkText target) location
  | _ => none

theorem Node.exists_inline {table : Table} {tree : Section} (hids : tree.IdsKnown table) {node : Node}
    (hnode : node ∈ tree.nodes) (hinline : node.isInline = true) :
    ∃ value, node.inline? table = some (.inline value node.location) ∧
      ∀ depth includes included,
        Section.flatNode table depth includes included node = [.inline value node.location] := by
  cases node with
  | prose value location => exact ⟨value, rfl, fun _ _ _ => rfl⟩
  | pathTo id location =>
    obtain ⟨target, htarget⟩ := hids id location (.here hnode)
    refine ⟨table.linkText target, ?_, fun _ _ _ => ?_⟩
    · rw [inline?, htarget]
      rfl
    · rw [Section.flatNode, htarget]
      rfl
  | title | heading | content | tableOfContents => cases hinline

/-- Nothing that was dropped on the way from the beginning to the last character holds a line end. -/
def Extent.IsStraight (extent : Extent) : Prop :=
  extent.last.position.line = extent.opening.position.line + extent.breaks

/-- A text is taken to continue another exactly if it begins on the line where that ends and that is straight. -/
theorem joins_iff_of_fits {extent next : Extent} {first second : Node} (hfits : extent.Fits first)
    (hnext : next.Fits second) (horder : extent.last.position.line ≤ next.opening.position.line)
    (hdocument : first.location.document = second.location.document) {table : Table}
    {one : String} (hone : first.inline? table = some (.inline one first.location))
    (hlink : ∀ id location, first = .pathTo id location → '\n' ∉ one.toList) (two : String) :
    Emission.joins (.inline one first.location) (.inline two second.location) = true ↔
      extent.last.position.line = next.first.position.line ∧ extent.IsStraight := by
  have hwritten : first.location.position.line + one.toList.count '\n' =
      extent.opening.position.line + extent.breaks := by
    cases first with
    | prose value location =>
      cases hone
      exact hfits.written _ _ rfl
    | pathTo id location =>
      rw [List.count_eq_zero.2 (hlink id location rfl)]
      exact hfits.path id location rfl
    | title | heading | content | tableOfContents => cases hone
  have hends := hfits.ends
  have hbegins := hnext.begins
  have hstarts := hnext.starts
  have hsame := hnext.same
  rw [Emission.joins, hdocument, Path.samePath, beq_self_eq_true, Bool.true_and, beq_iff_eq, hwritten,
    Extent.IsStraight]
  constructor
  · intro hjoins
    -- both ends of the chain of lines are the same, so all lines on it are
    have hopening := hsame (by omega)
    omega
  · rintro ⟨hline, hstraight⟩
    omega

/-- **Where inline neighbours stand.** Two neighbouring inline nodes of a Markdown document come from characters of it. What
is written of them stands together if the second begins on the line where the first ends, and no line end was dropped on
the way from the beginning of the first to its end; otherwise it stands apart. This is for links that hold no line ends
of their own. -/
theorem inline_neighbours {document : Coordinate}
    (hkind : DocumentPath.Kind.ofExtension? document.extension? = .markdown) {text : String}
    {table after : Table} {page : Page}
    (h : Page.ofText document text table = (.ok (some page), after)) {earlier later : List Node}
    {first second : Node} (hnodes : page.nodes = earlier ++ first :: second :: later)
    (hfirst : first.isInline = true) (hsecond : second.isInline = true) :
    ∃ found tokens extent next,
      pieces (glyphs document.start (unifyNewlines text.toList)) = .ok found ∧
      documentTokens document text = .ok tokens ∧ Drawn (merge found) tokens first extent ∧
      Drawn (merge found) tokens second next ∧
      ∀ other includes out, render other (some ⟨page.start, page.nodes, includes⟩) = .ok out →
        ∃ one two before, first.inline? other = some one ∧ second.inline? other = some two ∧
          before = (Section.flat other ⟨page.start, earlier, includes⟩).filter Emission.isSeen ∧
          ((∀ id location, first = .pathTo id location → '\n' ∉ one.text.toList) →
            (extent.last.position.line = next.first.position.line ∧ extent.IsStraight →
              StandTogether out before one two) ∧
            (¬(extent.last.position.line = next.first.position.line ∧ extent.IsStraight) →
              StandApart out before one two)) := by
  obtain ⟨hdepth, hindex⟩ := Page.valid_of_ofText h
  obtain ⟨notes, hread, -⟩ := (Page.ofText_eq_ok_iff hdepth hindex).1 h
  have hsaid := Page.said_eq_ok_iff.2 ⟨notes, hread⟩
  have hmemFirst : first ∈ page.nodes := by simp [hnodes]
  have hmemSecond : second ∈ page.nodes := by simp [hnodes]
  have hdocument : first.location.document = second.location.document :=
    (Page.document_of_node hsaid hmemFirst).trans (Page.document_of_node hsaid hmemSecond).symm
  obtain ⟨found, tokens, extent, next, hfound, htokens, hdrawn, hdrawnNext, hfits, hfitsNext, horder⟩ :=
    exists_extents hkind hread hnodes hfirst hsecond
  refine ⟨found, tokens, extent, next, hfound, htokens, hdrawn, hdrawnNext, ?_⟩
  intro other includes out hout
  obtain ⟨hids, rfl⟩ := pageOf_of_render hout
  obtain ⟨one, hone, hflat⟩ := Node.exists_inline hids hmemFirst hfirst
  obtain ⟨two, htwo, hflat'⟩ := Node.exists_inline hids hmemSecond hsecond
  refine ⟨_, _, _, hone, htwo, rfl, ?_⟩
  intro hlink
  have hseen : (Section.flat other ⟨page.start, page.nodes, includes⟩).filter Emission.isSeen =
      (Section.flat other ⟨page.start, earlier, includes⟩).filter Emission.isSeen ++
        .inline one first.location :: .inline two second.location ::
        (Section.flat other ⟨page.start, later, includes⟩).filter Emission.isSeen := by
    rw [Section.flat, hnodes, List.flatMap_append, List.flatMap_cons, List.flatMap_cons, hflat, hflat',
      List.filter_append, ← Section.flat, ← Section.flat]
    rfl
  obtain ⟨htogether, hapart⟩ := together_or_apart hseen
  have hjoins := joins_iff_of_fits hfits hfitsNext horder hdocument hone hlink two
  constructor
  · intro hcontinues
    exact htogether (hjoins.2 hcontinues)
  · intro hnot
    exact hapart (Bool.eq_false_iff.2 fun hcontinues => hnot (hjoins.1 hcontinues))

/-- A table that knows one id. -/
def guideTable : Table :=
  Table.new.setGlobal "guide" (.id ⟨.resolve "/out/guide.md" "/", none⟩)

/-- Where the texts of this module stand. -/
def guideDocument : Coordinate := ⟨"/docs/readme.md", 1, 1⟩

/-- A path within a line, and a line below it. -/
def splicedText : String := "a <!-- (dl (get-path guide)) -->\nb"

/-- What is written of `splicedText`. -/
def splicedPage : String :=
  "<!-- Generated Document do not edit! -->\n\na /out/guide.md\n\nb\n\n<!-- Generated Document do not edit! -->\n"

theorem inline_neighbours_spliced : ∃ page after found tokens extent next,
    Page.ofText guideDocument splicedText guideTable = (.ok (some page), after) ∧
    page.nodes = [.prose "a " ⟨guideDocument, ⟨1, 1⟩⟩, .pathTo "guide" ⟨guideDocument, ⟨1, 12⟩⟩,
      .prose "b" ⟨guideDocument, ⟨2, 1⟩⟩] ∧
    Drawn (merge found) tokens (.prose "a " ⟨guideDocument, ⟨1, 1⟩⟩) extent ∧
    Drawn (merge found) tokens (.pathTo "guide" ⟨guideDocument, ⟨1, 12⟩⟩) next ∧
    extent.last.position.line = next.first.position.line ∧ extent.IsStraight ∧
    render guideTable (some ⟨page.start, page.nodes, []⟩) = .ok splicedPage ∧
    StandTogether splicedPage [] (.inline "a " ⟨guideDocument, ⟨1, 1⟩⟩)
      (.inline "/out/guide.md" ⟨guideDocument, ⟨1, 12⟩⟩) := by
  have hfound : (Page.ofText guideDocument splicedText guideTable).1.toOption.map
      (Option.map fun page => (page.nodes,
        (render guideTable (some ⟨page.start, page.nodes, []⟩)).toOption)) =
      some (some ([.prose "a " ⟨guideDocument, ⟨1, 1⟩⟩, .pathTo "guide" ⟨guideDocument, ⟨1, 12⟩⟩,
        .prose "b" ⟨guideDocument, ⟨2, 1⟩⟩], some splicedPage)) := by
    decide +kernel
  obtain ⟨page, hresult, htold⟩ := exists_some_of_map hfound
  obtain ⟨hnodes, hrender⟩ := Prod.mk.inj htold
  have hrun := eq_mk_of_fst_eq hresult
  have hkind : DocumentPath.Kind.ofExtension? guideDocument.extension? = .markdown := by
    decide +kernel
  obtain ⟨found, tokens, extent, next, -, -, hdrawn, hnext, hstand⟩ :=
    inline_neighbours hkind hrun (show page.nodes = [] ++ _ :: _ :: [_] from hnodes) rfl rfl
  have hout := ok_of_toOption hrender
  obtain ⟨one, two, before, hone, htwo, rfl, hstands⟩ := hstand guideTable [] _ hout
  have hlink : Node.inline? guideTable (.pathTo "guide" ⟨guideDocument, ⟨1, 12⟩⟩) =
      some (.inline "/out/guide.md" ⟨guideDocument, ⟨1, 12⟩⟩) := by
    decide +kernel
  obtain rfl := Option.some.inj (hlink.symm.trans htwo)
  cases hone
  have hplain : ∀ id location, Node.prose "a " ⟨guideDocument, ⟨1, 1⟩⟩ = .pathTo id location →
      '\n' ∉ "a ".toList := by
    intro id location heq
    cases heq
  obtain ⟨htogether, hapart⟩ := hstands hplain
  -- no blank line follows the first text on the page
  have hline : extent.last.position.line = next.first.position.line ∧ extent.IsStraight := by
    apply Classical.byContradiction
    intro hnot
    obtain ⟨lead, tail, htext⟩ :=
      (hapart hnot).exists_blankLine (by decide +kernel) (by decide +kernel)
    have hends : trimEnd (Emission.text (.inline "a " ⟨guideDocument, ⟨1, 1⟩⟩)).toList = ['a'] := by
      decide +kernel
    rw [hends] at htext
    have hinfix : ['a', '\n', '\n'] <:+: splicedPage.toList :=
      ⟨lead, _, (List.append_assoc _ _ _).trans htext.symm⟩
    revert hinfix
    decide +kernel
  exact ⟨page, _, found, tokens, extent, next, hrun, hnodes, hdrawn, hnext, hline.1, hline.2, hout,
    htogether hline⟩

/-- Prose with a comment of two lines in it, and a path behind it on its last line. -/
def interruptedText : String := "See <!-- a\nb --> the <!-- (dl (get-path guide)) -->."

/-- What is written of `interruptedText`. -/
def tornPage : String :=
  "<!-- Generated Document do not edit! -->\n\nSee  the\n\n/out/guide.md.\n\n<!-- Generated Document do not edit! -->\n"

/-- A comment of two lines tears apart what shares a line: the prose ends with the character at 20, and the directive begins
with the parenthesis at 30. Both are on the second line of the text, and a blank line is put between them. -/
theorem torn_interruptedText : ∃ page after,
    Page.ofText guideDocument interruptedText guideTable = (.ok (some page), after) ∧
    page.nodes = [.prose "See  the " ⟨guideDocument, ⟨1, 1⟩⟩,
      .pathTo "guide" ⟨guideDocument, positionAt interruptedText.toList 30⟩,
      .prose "." ⟨guideDocument, ⟨2, 41⟩⟩] ∧
    (positionAt interruptedText.toList 20).line = (positionAt interruptedText.toList 30).line ∧
    interruptedText.toList.drop 16 = " the <!-- (dl (get-path guide)) -->.".toList ∧
    render guideTable (some page.toSection) = .ok tornPage := by
  have hfound : (Page.ofText guideDocument interruptedText guideTable).1.toOption.map
      (Option.map fun page => (page.nodes, (render guideTable (some page.toSection)).toOption)) =
      some (some ([.prose "See  the " ⟨guideDocument, ⟨1, 1⟩⟩,
        .pathTo "guide" ⟨guideDocument, positionAt interruptedText.toList 30⟩,
        .prose "." ⟨guideDocument, ⟨2, 41⟩⟩],
        some tornPage)) := by
    decide +kernel
  obtain ⟨page, hresult, htold⟩ := exists_some_of_map hfound
  obtain ⟨hnodes, hrender⟩ := Prod.mk.inj htold
  exact ⟨page, _, eq_mk_of_fst_eq hresult, hnodes, by decide, by decide +kernel, ok_of_toOption hrender⟩

end Bindery
