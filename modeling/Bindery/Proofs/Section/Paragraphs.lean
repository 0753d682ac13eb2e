import Bindery.Proofs.Section.Reprinting
import Mathlib.Data.List.SplitBy

/-!
# `Proofs.Section.Paragraphs` — generated text is a list of paragraphs

Text is laid out on a sheet that grows at its end: what stands there is trimmed before a new block, and whether an inline
text begins anew depends on where the last one ended. The outcome can be told without a sheet. A tree says a list of texts;
neighbours that continue each other make up a paragraph; the paragraphs lose the blanks at their ends, those of which
nothing is left are dropped, and the others are written with one blank line in between.

## Contents
- `Table.linkText`, `Section.flat`: what a tree says if no link is missing; `Section.Reaches`.
- `Section.emissions_eq_ok_iff`: a tree says something if the ids it reaches are known.
- `Emission.joins`, `paragraphs`: the texts in groups.
- `spaced`, `pageOf`: a text of paragraphs.
- `Sheet.text_foldl_add`, `layOut_eq_pageOf`: what stands on a sheet.
- `render_eq_ok_iff_paragraphs`.
- `StandTogether`, `StandApart`, `together_or_apart`: two neighbouring texts on a page; `StandApart.exists_blankLine`.
-/

namespace Bindery

open Text

/-! ## What a tree says -/

/-- The link to a target, seen from the document that is being compiled. -/
def Table.linkText (table : Table) (target : Target) : String :=
  let anchor := target.anchor.getD ""
  match table.current? with
  | none => target.destination.text ++ anchor
  | some current =>
    if current = target.destination ∧ anchor ≠ "" then anchor
    else current.linkTo target.destination ++ anchor

theorem Table.linkTo_of_id? {table : Table} {id : String} {target : Target}
    (h : table.id? id = some target) (location : Location) :
    table.linkTo id location = .ok (table.linkText target) := by
  unfold linkTo linkText
  rw [h]
  cases table.current? with
  | none => rfl
  | some current =>
    dsimp only
    split <;> rfl

theorem Table.linkTo_of_id?_none {table : Table} {id : String} (h : table.id? id = none)
    (location : Location) : table.linkTo id location = .error ⟨.idUnknown id, location⟩ := by
  rw [linkTo, h]

namespace Section

/-- What a node of a section says; an id that is not known says nothing. -/
def flatNode (table : Table) (depth : Nat) (includes : List (Entry × Option Section))
    (included : List Emission) : Node → List Emission
  | .prose value location => [.inline value location]
  | .title _ label _ subtitle _ =>
    .block label :: subtitle.toList.map fun text => .block (headingLine (depth + 2) text)
  | .heading level text _ => [.block (headingLine (level + depth) text)]
  | .content _ => included
  | .tableOfContents label style _ =>
    if style = .noTable then []
    else (label.toList.map fun text => .block (headingLine (depth + 1) text)) ++
      [.block (contents style includes)]
  | .pathTo id location =>
    (table.id? id).toList.map fun target => .inline (table.linkText target) location

mutual

/-- What a tree of sections says, in order. -/
def flat (table : Table) : Section → List Emission
  | ⟨start, nodes, includes⟩ =>
    nodes.flatMap (flatNode table start.document.depth includes (flatAll table includes))

/-- What the documents of some entries say, in order. -/
def flatAll (table : Table) : List (Entry × Option Section) → List Emission
  | [] => []
  | (_, none) :: rest => flatAll table rest
  | (_, some document) :: rest => document.flat table ++ flatAll table rest

end

/-- A node stands in a section, or in one that is shown at its place for included sections. -/
inductive Reaches : Section → Node → Prop
  | here {tree : Section} {node : Node} (h : node ∈ tree.nodes) : Reaches tree node
  | shown {tree document : Section} {node : Node} {location : Location} {entry : Entry}
      (hcontent : .content location ∈ tree.nodes) (hentry : (entry, some document) ∈ tree.includes)
      (h : Reaches document node) : Reaches tree node

/-- Every id whose path is shown stands for something. -/
def IdsKnown (table : Table) (tree : Section) : Prop :=
  ∀ id location, tree.Reaches (.pathTo id location) → ∃ target, table.id? id = some target

variable {table : Table}

/-- What a single node says is missing only for want of its id, or of the included sections. -/
theorem nodeEmissions_eq_ok_iff {depth : Nat} {includes : List (Entry × Option Section)}
    {included : Except Fault (List Emission)} {texts : List Emission} {known : Prop}
    (hincluded : ∀ found, included = .ok found ↔ known ∧ found = texts) (node : Node)
    (found : List Emission) :
    nodeEmissions table depth includes included node = .ok found ↔
      ((∀ id location, node = .pathTo id location → ∃ target, table.id? id = some target) ∧
        (∀ location, node = .content location → known)) ∧
        found = flatNode table depth includes texts node := by
  cases node with
  | prose value location => simp [nodeEmissions, flatNode, eq_comm]
  | title name label link subtitle location =>
    cases subtitle <;> simp [nodeEmissions, flatNode, eq_comm]
  | heading level text location => simp [nodeEmissions, flatNode, eq_comm]
  | content location => simp [nodeEmissions, flatNode, hincluded]
  | tableOfContents label style location =>
    cases label <;> cases style <;> simp [nodeEmissions, flatNode, eq_comm]
  | pathTo id location =>
    rw [nodeEmissions, flatNode]
    cases htarget : table.id? id with
    | none => simp [Table.linkTo_of_id?_none htarget, Except.map, htarget]
    | some target => simp [Table.linkTo_of_id? htarget, Except.map, htarget, eq_comm]

/-- Nodes say what each of them says. -/
theorem nodesEmissions_eq_ok_iff {depth : Nat} {includes : List (Entry × Option Section)}
    {included : Except Fault (List Emission)} {texts : List Emission} {known : Prop}
    (hincluded : ∀ found, included = .ok found ↔ known ∧ found = texts) (nodes : List Node)
    (found : List Emission) :
    nodesEmissions table depth includes included nodes = .ok found ↔
      ((∀ id location, .pathTo id location ∈ nodes → ∃ target, table.id? id = some target) ∧
        (∀ location, .content location ∈ nodes → known)) ∧
        found = nodes.flatMap (flatNode table depth includes texts) := by
  induction nodes generalizing found with
  | nil => simp [nodesEmissions, eq_comm]
  | cons node rest ih =>
    show Except.bind _ (fun first => Except.bind _ fun others => .ok (first ++ others)) = _ ↔ _
    simp only [except_bind_eq_ok, nodeEmissions_eq_ok_iff hincluded, ih, List.mem_cons]
    constructor
    · rintro ⟨_, ⟨⟨hid, hcontent⟩, rfl⟩, _, ⟨⟨hids, hcontents⟩, rfl⟩, ⟨⟩⟩
      refine ⟨⟨?_, ?_⟩, rfl⟩
      · rintro id location (hnode | hrest)
        · exact hid id location hnode.symm
        · exact hids id location hrest
      · rintro location (hnode | hrest)
        · exact hcontent location hnode.symm
        · exact hcontents location hrest
    · rintro ⟨⟨hids, hcontents⟩, rfl⟩
      exact ⟨_, ⟨⟨fun id location h => hids id location (.inl h.symm),
          fun location h => hcontents location (.inl h.symm)⟩, rfl⟩,
        _, ⟨⟨fun id location h => hids id location (.inr h),
          fun location h => hcontents location (.inr h)⟩, rfl⟩, rfl⟩

/-- The ids of a tree are those of its own nodes and those of the sections it shows. -/
theorem idsKnown_iff {tree : Section} :
    tree.IdsKnown table ↔
      (∀ id location, .pathTo id location ∈ tree.nodes → ∃ target, table.id? id = some target) ∧
        ∀ location, .content location ∈ tree.nodes →
          ∀ entry document, (entry, some document) ∈ tree.includes → document.IdsKnown table := by
  constructor
  · intro h
    refine ⟨fun id location hnode => h id location (.here hnode), ?_⟩
    intro location hcontent entry document hentry id place hreaches
    exact h id place (.shown hcontent hentry hreaches)
  · rintro ⟨hhere, hbelow⟩ id location hreaches
    cases hreaches with
    | here hnode => exact hhere id location hnode
    | shown hcontent hentry hdocument => exact hbelow _ hcontent _ _ hentry id location hdocument

mutual

/-- **A tree says something exactly if the ids it reaches are known**, and then what its nodes say in order. -/
theorem emissions_eq_ok_iff :
    (tree : Section) → (found : List Emission) →
      (tree.emissions table = .ok found ↔ tree.IdsKnown table ∧ found = tree.flat table)
  | ⟨start, nodes, includes⟩, found => by
    rw [emissions, nodesEmissions_eq_ok_iff (includedEmissions_eq_ok_iff includes), idsKnown_iff, flat]

theorem includedEmissions_eq_ok_iff :
    (includes : List (Entry × Option Section)) → (found : List Emission) →
      (includedEmissions table includes = .ok found ↔
        (∀ entry document, (entry, some document) ∈ includes → document.IdsKnown table) ∧
          found = flatAll table includes)
  | [], found => by simp [includedEmissions, flatAll, eq_comm]
  | (_, none) :: rest, found => by
    rw [includedEmissions, includedEmissions_eq_ok_iff rest, flatAll]
    simp
  | (entry, some document) :: rest, found => by
    rw [includedEmissions, flatAll]
    show Except.bind _ (fun first => Except.bind _ fun others => .ok (first ++ others)) = _ ↔ _
    simp only [except_bind_eq_ok, emissions_eq_ok_iff document, includedEmissions_eq_ok_iff rest]
    constructor
    · rintro ⟨_, ⟨hfirst, rfl⟩, _, ⟨hrest, rfl⟩, ⟨⟩⟩
      refine ⟨?_, rfl⟩
      intro other found hmem
      cases List.mem_cons.1 hmem with
      | inl h =>
        cases h
        exact hfirst
      | inr h => exact hrest other found h
    · rintro ⟨hall, rfl⟩
      exact ⟨_, ⟨hall entry document (List.mem_cons_self ..), rfl⟩,
        _, ⟨fun other found h => hall other found (List.mem_cons_of_mem _ h), rfl⟩, rfl⟩

end

end Section

/-! ## Paragraphs -/

namespace Emission

/-- The text that is written. -/
def text : Emission → String
  | .inline text _ => text
  | .block text => text

/-- An empty block is as if it were not there. -/
def isSeen : Emission → Bool
  | .inline _ _ => true
  | .block text => !text.isEmpty

/-- Both are inline, and the second begins on the line of its file where the first ends. -/
def joins : Emission → Emission → Bool
  | .inline text location, .inline _ next =>
    Path.samePath location.document.path next.document.path &&
      location.position.line + text.toList.count '\n' == next.position.line
  | _, _ => false

end Emission

/-- The texts in groups: each continues the one before it in its group, and none the group before. -/
def paragraphs (emissions : List Emission) : List (List Emission) :=
  (emissions.filter Emission.isSeen).splitBy Emission.joins

/-- The text of a paragraph as it is put together. -/
def paragraphText (paragraph : List Emission) : List Char :=
  paragraph.flatMap fun emission => emission.text.toList

/-- Texts without the blanks at their ends, with a blank line between those that are left. -/
def spaced (texts : List (List Char)) : List Char :=
  ['\n', '\n'].intercalate ((texts.map trimEnd).filter (· ≠ []))

/-- Paragraphs between two marks. -/
def pageOf (groups : List (List Emission)) : String :=
  String.ofList
    (spaced (generatedMark.toList :: groups.map paragraphText ++ [generatedMark.toList]) ++ ['\n'])

/-! ## Spacing -/

/-- What stands before a text that begins anew behind some others. -/
def spacedBefore (texts : List (List Char)) : List Char :=
  if spaced texts = [] then [] else spaced texts ++ ['\n', '\n']

theorem intercalate_append_singleton {sep : List Char} {texts : List (List Char)} (h : texts ≠ [])
    (text : List Char) :
    sep.intercalate (texts ++ [text]) = sep.intercalate texts ++ sep ++ text := by
  induction texts with
  | nil => exact absurd rfl h
  | cons first rest ih =>
    cases rest with
    | nil => simp [List.intercalate]
    | cons second more =>
      have hmore := ih (List.cons_ne_nil _ _)
      simp only [List.intercalate, List.cons_append, List.intersperse_cons_cons, List.flatten_cons,
        List.append_assoc] at hmore ⊢
      rw [hmore]

theorem intercalate_ne_nil {sep : List Char} {texts : List (List Char)} (h : texts ≠ [])
    (hall : ∀ text ∈ texts, text ≠ []) : sep.intercalate texts ≠ [] := by
  cases texts with
  | nil => exact absurd rfl h
  | cons first rest =>
    have hfirst := hall first (List.mem_cons_self ..)
    cases rest with
    | nil => simpa [List.intercalate] using hfirst
    | cons second more => simp [List.intercalate, hfirst]

/-- Nothing is left exactly if nothing is left of each. -/
theorem spaced_eq_nil_iff {texts : List (List Char)} :
    spaced texts = [] ↔ (texts.map trimEnd).filter (· ≠ []) = [] := by
  constructor
  · intro h
    apply Classical.byContradiction
    intro hne
    refine intercalate_ne_nil hne ?_ h
    intro text htext
    simpa using (List.mem_filter.1 htext).2
  · intro h
    rw [spaced, h]
    rfl

/-- One more text: a blank one leaves all as it was. -/
theorem spaced_append_singleton (texts : List (List Char)) (text : List Char) :
    spaced (texts ++ [text]) =
      if trimEnd text = [] then spaced texts else spacedBefore texts ++ trimEnd text := by
  unfold spacedBefore
  by_cases hblank : trimEnd text = []
  · simp [spaced, hblank]
  · rw [if_neg hblank]
    by_cases hnone : (texts.map trimEnd).filter (· ≠ []) = []
    · rw [if_pos (spaced_eq_nil_iff.2 hnone), spaced, List.map_append, List.filter_append, hnone]
      simp [hblank, List.intercalate]
    · rw [if_neg (mt spaced_eq_nil_iff.1 hnone), spaced, List.map_append, List.filter_append]
      have hlast : ([text].map trimEnd).filter (· ≠ []) = [trimEnd text] := by simp [hblank]
      rw [hlast, intercalate_append_singleton hnone]
      rfl

/-- What stands there stays when more texts follow. -/
theorem spaced_prefix_append (texts more : List (List Char)) : spaced texts <+: spaced (texts ++ more) := by
  induction more using List.reverseRecOn with
  | nil => simp
  | append_singleton more text ih =>
    refine ih.trans ?_
    rw [← List.append_assoc, spaced_append_singleton]
    split
    · exact List.prefix_rfl
    · unfold spacedBefore
      split
      · next hnone =>
        rw [hnone]
        exact List.nil_prefix
      · rw [List.append_assoc]
        exact List.prefix_append _ _

theorem trimEnd_spaced (texts : List (List Char)) : trimEnd (spaced texts) = spaced texts := by
  induction texts using List.reverseRecOn with
  | nil => rfl
  | append_singleton texts text ih =>
    rw [spaced_append_singleton]
    split
    · exact ih
    · next hseen => rw [trimEnd_append_of_ne (by rwa [trimEnd_trimEnd]), trimEnd_trimEnd]

/-- Trimming what has grown at its end takes a blank text away together with the line ends before it. -/
theorem trimEnd_spacedBefore_append (texts : List (List Char)) (text : List Char) :
    trimEnd (spacedBefore texts ++ text) = spaced (texts ++ [text]) := by
  rw [spaced_append_singleton]
  split
  · next hblank =>
    rw [trimEnd_append_blank (trimEnd_eq_nil_iff.1 hblank), spacedBefore]
    split
    · next hnone => rw [hnone]; rfl
    · rw [trimEnd_append_blank (List.all_eq_true.1 (by decide)), trimEnd_spaced]
  · next hseen => rw [trimEnd_append_of_ne hseen]

/-! ## The sheet -/

namespace Sheet

/-- An empty block leaves no trace. -/
theorem foldl_add_filter (emissions : List Emission) (sheet : Sheet) :
    (emissions.filter Emission.isSeen).foldl add sheet = emissions.foldl add sheet := by
  rw [List.foldl_filter]
  congr 1
  funext sheet emission
  cases emission with
  | inline text location => rfl
  | block text => cases h : text.isEmpty <;> simp [Emission.isSeen, add, h]

/-- Where the sheet stands in a document behind a text. -/
def lastOf : Emission → Option Location
  | .inline text location => some (endOf text.toList location)
  | .block _ => none

theorem endOf_eq (text : List Char) (location : Location) :
    (endOf text location).document = location.document ∧
      (endOf text location).position.line = location.position.line + text.count '\n' := by
  rw [List.count_eq_length_filter, endOf]
  generalize text.filter (· == '\n') = breaks
  induction breaks generalizing location with
  | nil => exact ⟨rfl, rfl⟩
  | cons c rest ih =>
    obtain ⟨hdocument, hline⟩ := ih location.nextLine
    refine ⟨hdocument, hline.trans ?_⟩
    rw [List.length_cons]
    show location.position.line + 1 + rest.length = _
    omega

/-- The sheet joins what is joined. -/
theorem continues_eq_joins (text : List Char) (before : Emission) (next : String)
    (location : Location) :
    continues ⟨text, lastOf before⟩ location = before.joins (.inline next location) := by
  cases before with
  | block => rfl
  | inline first place =>
    obtain ⟨hdocument, hline⟩ := endOf_eq first.toList place
    show Location.sameLine _ _ = _
    rw [Location.sameLine, hdocument, hline]
    rfl

/-- One text more on a sheet where something can be seen. -/
theorem add_eq {texts : List (List Char)} {text : List Char} {before next : Emission}
    (hseen : next.isSeen = true) (hmark : spaced (texts ++ [text]) ≠ []) :
    add ⟨spacedBefore texts ++ text, lastOf before⟩ next =
      if before.joins next then ⟨spacedBefore texts ++ (text ++ next.text.toList), lastOf next⟩
      else ⟨spacedBefore (texts ++ [text]) ++ next.text.toList, lastOf next⟩ := by
  have hseparated : separated ⟨spacedBefore texts ++ text, lastOf before⟩ =
      spacedBefore (texts ++ [text]) := by
    have htrimmed := trimEnd_spacedBefore_append texts text
    have hsome : (spacedBefore texts ++ text).isEmpty ≠ true := by
      intro hempty
      rw [List.isEmpty_iff.1 hempty] at htrimmed
      exact hmark htrimmed.symm
    rw [separated, if_neg hsome, htrimmed, spacedBefore, if_neg hmark]
  cases next with
  | block words =>
    have hjoins : before.joins (.block words) = false := by cases before <;> rfl
    rw [hjoins, add, hseparated, if_neg (by simpa [Emission.isSeen] using hseen)]
    rfl
  | inline words location =>
    simp only [add, continues_eq_joins _ before words, hseparated]
    cases before.joins (.inline words location) with
    | true => simp [Emission.text, lastOf]
    | false => simp [Emission.text, lastOf]

/-- **What stands on a sheet**: the paragraphs that are complete, spaced, and the last one as it grows. The groups are
built as `List.splitBy` builds them, with the group that grows and the complete ones in reverse. -/
theorem text_foldl_add (emissions : List Emission) (hseen : ∀ e ∈ emissions, e.isSeen = true)
    (last : Emission) (growing : List Emission) (complete : List (List Emission))
    (hmark : spaced (complete.reverse.map paragraphText ++
      [paragraphText (growing.reverse ++ [last])]) ≠ []) :
    ∃ earlier final,
      List.splitBy.loop Emission.joins emissions last growing complete = earlier ++ [final] ∧
        (emissions.foldl add ⟨spacedBefore (complete.reverse.map paragraphText) ++
            paragraphText (growing.reverse ++ [last]), lastOf last⟩).text =
          spacedBefore (earlier.map paragraphText) ++ paragraphText final := by
  induction emissions generalizing last growing complete with
  | nil =>
    refine ⟨complete.reverse, growing.reverse ++ [last], ?_, rfl⟩
    rw [List.splitBy.loop, List.reverse_cons, List.reverse_cons]
  | cons next rest ih =>
    obtain ⟨hnext, hrest⟩ := List.forall_mem_cons.1 hseen
    rw [List.foldl_cons, add_eq hnext hmark, List.splitBy.loop]
    cases hjoins : last.joins next with
    | true =>
      -- the paragraph grows, and what could be seen still can
      have hgrown : paragraphText (growing.reverse ++ [last]) ++ next.text.toList =
          paragraphText ((last :: growing).reverse ++ [next]) := by
        simp [paragraphText]
      have hmore : spaced (complete.reverse.map paragraphText ++
          [paragraphText ((last :: growing).reverse ++ [next])]) ≠ [] := by
        rw [← hgrown]
        intro hnone
        have hnil := trimEnd_spacedBefore_append (complete.reverse.map paragraphText)
          (paragraphText (growing.reverse ++ [last]) ++ next.text.toList)
        rw [hnone, trimEnd_eq_nil_iff] at hnil
        apply hmark
        rw [← trimEnd_spacedBefore_append, trimEnd_eq_nil_iff]
        intro c hc
        apply hnil
        rw [← List.append_assoc]
        exact List.mem_append_left _ hc
      rw [if_pos rfl, hgrown]
      exact ih hrest next (last :: growing) complete hmore
    | false =>
      have hgroups : complete.reverse.map paragraphText ++
          [paragraphText (growing.reverse ++ [last])] =
            ((last :: growing).reverse :: complete).reverse.map paragraphText := by
        simp
      have hmore : spaced (((last :: growing).reverse :: complete).reverse.map paragraphText ++
          [paragraphText ([].reverse ++ [next])]) ≠ [] := by
        rw [← hgroups, spaced_append_singleton]
        split
        · exact hmark
        · next hword => exact List.append_ne_nil_of_right_ne_nil _ hword
      have hword : next.text.toList = paragraphText ([].reverse ++ [next]) := by
        simp [paragraphText]
      rw [if_neg (by simp), hgroups, hword]
      exact ih hrest next [] ((last :: growing).reverse :: complete) hmore

end Sheet

/-- A block is a paragraph of its own. -/
theorem joins_block_left (text : String) (next : Emission) :
    Emission.joins (.block text) next = false := by
  cases next <;> rfl

theorem joins_block_right (before : Emission) (text : String) :
    before.joins (.block text) = false := by
  cases before <;> rfl

/-- The mark. -/
def markEmission : Emission := .block generatedMark

theorem isSeen_markEmission : markEmission.isSeen = true := by decide +kernel

/-- The marks are paragraphs of their own. -/
theorem paragraphs_marked (emissions : List Emission) :
    paragraphs (markEmission :: emissions ++ [markEmission]) =
      [markEmission] :: paragraphs emissions ++ [[markEmission]] := by
  unfold paragraphs
  generalize hseen : emissions.filter Emission.isSeen = seen
  have hfilter : (markEmission :: emissions ++ [markEmission]).filter Emission.isSeen =
      ([markEmission] ++ seen) ++ [markEmission] := by
    rw [List.filter_append, List.filter_cons_of_pos isSeen_markEmission,
      List.filter_cons_of_pos isSeen_markEmission, List.filter_nil, hseen]
    rfl
  have hlast : ∀ before ∈ ([markEmission] ++ seen).getLast?, before.joins markEmission = false :=
    fun before _ => joins_block_right before _
  have hfirst : ∀ before ∈ [markEmission].getLast?, ∀ next ∈ seen.head?, before.joins next = false := by
    intro before hbefore next _
    cases hbefore
    exact joins_block_left _ next
  rw [hfilter, List.splitBy_append_cons [] hlast, List.splitBy_append hfirst]
  rfl

/-- There is nothing to trim at a mark. -/
theorem spacedBefore_append_mark (texts : List (List Char)) :
    spaced (texts ++ [generatedMark.toList]) = spacedBefore texts ++ generatedMark.toList := by
  rw [spaced_append_singleton, trimEnd_generatedMark, if_neg (by decide +kernel)]

/-- **What is laid out is a page of paragraphs.** -/
theorem layOut_eq_pageOf (emissions : List Emission) :
    layOut emissions = pageOf (paragraphs emissions) := by
  have hmarked := paragraphs_marked emissions
  unfold paragraphs at hmarked
  rw [List.cons_append, List.filter_cons_of_pos isSeen_markEmission] at hmarked
  obtain ⟨earlier, final, hgroups, htext⟩ := Sheet.text_foldl_add
    ((emissions ++ [markEmission]).filter Emission.isSeen) (fun e he => (List.mem_filter.1 he).2)
    markEmission [] [] (by decide +kernel)
  have hsplit : earlier ++ [final] =
      ([markEmission] :: paragraphs emissions) ++ [[markEmission]] := hgroups.symm.trans hmarked
  obtain ⟨rfl, hfinal⟩ := List.append_inj' hsplit rfl
  cases hfinal
  have hmark : paragraphText [markEmission] = generatedMark.toList := by
    simp [paragraphText, markEmission, Emission.text]
  rw [Sheet.foldl_add_filter, List.map_cons, hmark, ← spacedBefore_append_mark] at htext
  have hsheet : ((.block generatedMark :: emissions ++ [.block generatedMark] : List Emission).foldl
      Sheet.add Sheet.empty).text = spaced (generatedMark.toList ::
        (paragraphs emissions).map paragraphText ++ [generatedMark.toList]) := htext
  have hend : (spaced (generatedMark.toList :: (paragraphs emissions).map paragraphText ++
      [generatedMark.toList])).getLast? = some '>' := by
    have hlast : generatedMark.toList.getLast? = some '>' := by decide +kernel
    rw [spacedBefore_append_mark, List.getLast?_append, hlast]
    rfl
  rw [layOut, pageOf, Sheet.finish, hsheet, hend]
  rfl

/-- What is written of a tree, if anything is, are the paragraphs of what it says. -/
theorem pageOf_of_render {table : Table} {tree : Section} {out : String}
    (h : render table (some tree) = .ok out) :
    tree.IdsKnown table ∧ out = pageOf (paragraphs (tree.flat table)) := by
  obtain ⟨found, hfound, rfl⟩ := except_map_eq_ok.1 h
  obtain ⟨hids, rfl⟩ := (Section.emissions_eq_ok_iff tree found).1 hfound
  exact ⟨hids, layOut_eq_pageOf _⟩

/-- **A tree is written as its paragraphs.** It can be written exactly if every id that it reaches is known; the text is
then the mark, the paragraphs of what the tree says and the mark again, without the blanks at their ends, with one blank
line between them. -/
theorem render_eq_ok_iff_paragraphs (table : Table) (tree : Section) (out : String) :
    render table (some tree) = .ok out ↔
      (∀ id location, tree.Reaches (.pathTo id location) → ∃ target, table.id? id = some target) ∧
        out = pageOf (paragraphs (tree.flat table)) := by
  constructor
  · exact pageOf_of_render
  · rintro ⟨hids, rfl⟩
    have hfound := (Section.emissions_eq_ok_iff tree _).2 ⟨hids, rfl⟩
    rw [render, hfound, ← layOut_eq_pageOf]
    rfl

/-! ## Neighbours -/

/-- Two texts stand in one paragraph with nothing between them, behind the texts `before`. -/
def StandTogether (out : String) (before : List Emission) (first second : Emission) : Prop :=
  ∃ earlier start rest later,
    out = pageOf (earlier ++ (start ++ first :: second :: rest) :: later) ∧
      earlier.flatten ++ start = before

/-- One text ends a paragraph and another begins the next one, behind the texts `before`. -/
def StandApart (out : String) (before : List Emission) (first second : Emission) : Prop :=
  ∃ earlier start rest later,
    out = pageOf (earlier ++ (start ++ [first]) :: (second :: rest) :: later) ∧
      earlier.flatten ++ start = before

/-- Where a text stands among the groups that were made of a list. -/
theorem exists_group {groups : List (List Emission)} (hnil : [] ∉ groups) {before after : List Emission}
    {first : Emission} (h : groups.flatten = before ++ first :: after) :
    ∃ earlier start rest later, groups = earlier ++ (start ++ first :: rest) :: later ∧
      earlier.flatten ++ start = before ∧ rest ++ later.flatten = after := by
  rcases List.flatten_eq_append_iff.1 h with
    ⟨earlier, later, rfl, rfl, hlater⟩ | ⟨earlier, start, c, rest, later, rfl, rfl, hlater⟩
  · -- the text is the first of its group, and no group is empty
    cases later with
    | nil => cases hlater
    | cons group later =>
      cases group with
      | nil => exact absurd (List.mem_append_right _ (List.mem_cons_self ..)) hnil
      | cons head rest =>
        obtain ⟨rfl, rfl⟩ := List.cons.inj hlater
        exact ⟨earlier, [], rest, later, rfl, List.append_nil _, rfl⟩
  · obtain ⟨rfl, rfl⟩ := List.cons.inj hlater
    exact ⟨earlier, start, rest, later, rfl, rfl, rfl⟩

/-- **Two neighbouring texts stand together if the second continues the first, and apart if not.** -/
theorem together_or_apart {emissions before after : List Emission} {first second : Emission}
    (h : emissions.filter Emission.isSeen = before ++ first :: second :: after) :
    (first.joins second = true → StandTogether (pageOf (paragraphs emissions)) before first second) ∧
      (first.joins second = false → StandApart (pageOf (paragraphs emissions)) before first second) := by
  have hnil : [] ∉ paragraphs emissions := List.nil_notMem_splitBy _ _
  have hchain : ∀ group ∈ paragraphs emissions, group.IsChain fun a b => a.joins b = true :=
    fun group hgroup => List.isChain_of_mem_splitBy hgroup
  have hbreaks := List.isChain_getLast_head_splitBy Emission.joins (emissions.filter Emission.isSeen)
  have hflat : (paragraphs emissions).flatten = before ++ first :: second :: after :=
    (List.flatten_splitBy ..).trans h
  change (paragraphs emissions).IsChain _ at hbreaks
  obtain ⟨earlier, start, rest, later, hgroups, rfl, hafter⟩ := exists_group hnil hflat
  rw [hgroups] at hnil hchain hbreaks ⊢
  cases rest with
  | cons next rest =>
    obtain ⟨rfl, -⟩ := List.cons.inj hafter
    have hjoins : first.joins next = true := by
      have hgroup := hchain _ (List.mem_append_right _ (List.mem_cons_self ..))
      exact (List.isChain_cons_cons.1 (List.isChain_append.1 hgroup).2.1).1
    refine ⟨fun _ => ⟨earlier, start, rest, later, rfl, rfl⟩, ?_⟩
    intro hnot
    rw [hjoins] at hnot
    cases hnot
  | nil =>
    -- no group is empty, so the next one begins with the second text
    obtain ⟨skipped, lead, rest, more, rfl, hnone, -⟩ :=
      exists_group (fun hmem => hnil (List.mem_append_right _ (List.mem_cons_of_mem _ hmem)))
        (show later.flatten = [] ++ second :: after from hafter)
    obtain ⟨hskipped, rfl⟩ := List.append_eq_nil_iff.1 hnone
    obtain rfl : skipped = [] := by
      cases skipped with
      | nil => rfl
      | cons group others =>
        obtain rfl : group = [] := (List.append_eq_nil_iff.1 hskipped).1
        exact absurd (List.mem_append_right _ (by simp)) hnil
    have hbreak : first.joins second = false := by
      obtain ⟨_, _, hpair⟩ := (List.isChain_cons_cons.1 (List.isChain_append.1 hbreaks).2.1).1
      simpa using hpair
    refine ⟨?_, fun _ => ⟨earlier, start, rest, more, rfl, rfl⟩⟩
    intro hjoins
    rw [hbreak] at hjoins
    cases hjoins

theorem trimEnd_prefix_append (first second : List Char) : trimEnd first <+: trimEnd (first ++ second) := by
  by_cases hblank : trimEnd second = []
  · have hsame : trimEnd (first ++ second) = trimEnd first :=
      trimEnd_append_blank (trimEnd_eq_nil_iff.1 hblank)
    simp [hsame]
  · obtain ⟨blanks, hblanks, -⟩ := exists_trimEnd first
    rw [trimEnd_append_of_ne hblank]
    refine List.IsPrefix.trans ?_ (List.prefix_append first _)
    exact ⟨blanks, hblanks.symm⟩

/-- **Where two texts stand apart there is a blank line**, with what is left of the first right before it and what is left
of the second right behind. -/
theorem StandApart.exists_blankLine {out : String} {before : List Emission} {first second : Emission}
    (h : StandApart out before first second) (hfirst : trimEnd first.text.toList ≠ [])
    (hsecond : trimEnd second.text.toList ≠ []) :
    ∃ lead tail, out.toList = lead ++ (trimEnd first.text.toList ++
      '\n' :: '\n' :: (trimEnd second.text.toList ++ tail)) := by
  obtain ⟨earlier, start, rest, later, rfl, -⟩ := h
  generalize hcomplete : generatedMark.toList :: earlier.map paragraphText = complete
  generalize hends : paragraphText (start ++ [first]) = one
  generalize hbegins : paragraphText (second :: rest) = two
  have hgroups : generatedMark.toList :: (earlier ++ (start ++ [first]) :: (second :: rest) :: later).map
      paragraphText ++ [generatedMark.toList] =
        complete ++ [one] ++ [two] ++ (later.map paragraphText ++ [generatedMark.toList]) := by
    simp [← hcomplete, ← hends, ← hbegins]
  have hone : trimEnd one = paragraphText start ++ trimEnd first.text.toList := by
    rw [← hends, paragraphText, List.flatMap_append, List.flatMap_singleton, trimEnd_append_of_ne hfirst]
    rfl
  obtain ⟨more, htwo⟩ : trimEnd second.text.toList <+: trimEnd two := by
    rw [← hbegins]
    exact trimEnd_prefix_append _ _
  have honeSome : trimEnd one ≠ [] := by simp [hone, hfirst]
  have htwoSome : trimEnd two ≠ [] := by simp [← htwo, hsecond]
  have hline : spaced (complete ++ [one] ++ [two]) =
      spacedBefore complete ++ trimEnd one ++ ['\n', '\n'] ++ trimEnd two := by
    rw [spaced_append_singleton, if_neg htwoSome, spacedBefore, spaced_append_singleton, if_neg honeSome,
      if_neg (by simp [honeSome])]
  obtain ⟨tail, htail⟩ := spaced_prefix_append (complete ++ [one] ++ [two])
    (later.map paragraphText ++ [generatedMark.toList])
  refine ⟨spacedBefore complete ++ paragraphText start, more ++ (tail ++ ['\n']), ?_⟩
  rw [pageOf, String.toList_ofList, hgroups, ← htail, hline, hone, ← htwo]
  simp

end Bindery
