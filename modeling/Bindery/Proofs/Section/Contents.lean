import Bindery.Proofs.Section.Boundaries

/-!
# `Proofs.Section.Contents` — a table of contents announces the sections that follow it

The table and the sections are written apart from each other: the table looks for titles among the included documents and
numbers those it finds, and the sections are written in full one after the other. In a completed tree the two agree. A
title is written as a heading with as many marks as its section is deep, and whatever else a section and those below it
write begins with more marks than that, or with none. So the headings of one level below a section, in what is written
where its included sections go, are the titles of its table.

## Contents
- `ContentsItem.row`: how an item is written; `Section.Lists`: the items of a table, with the places of their entries.
- `Section.itemsFrom`, `lists_itemsFrom`, `rows_of_contents`.
- `Emission.level`: the marks that a text begins with; `Node.Levelled.filter_flatNode`.
- `Section.headings`: the headings among addressed emissions; `headings_tracedAll`, `Unfolds.titledAt`.
- `contents_announce_sections`.
-/

namespace Bindery

variable {σ : Type} [Store σ] {store : σ} {vars : Table}

/-! ## The rows of a table -/

/-- What stands before the item with the given number. -/
def BulletStyle.bullet (number : Nat) : BulletStyle → String
  | .numbered | .numberedLabeled => toString number ++ ". "
  | .bulleted | .bulletedLabeled => "* "
  | .unlabeled | .labeled | .noTable => ""

/-- The row of the item with the given number: the title, with the label before it if the style asks for it, as a link. -/
def ContentsItem.row (style : BulletStyle) (number : Nat) (item : ContentsItem) : String :=
  style.bullet number ++
    ("[" ++ (if style.isLabeled then item.label ++ ": " ++ item.title else item.title) ++ "](" ++ item.link ++ ")")

theorem ContentsItem.line_eq_row {style : BulletStyle} (h : style ≠ .noTable) (number : Nat)
    (item : ContentsItem) : item.line style number = item.row style number := by
  cases style with
  | noTable => exact absurd rfl h
  | unlabeled | labeled => exact String.empty_append.symm
  | numbered | numberedLabeled | bulleted | bulletedLabeled => rfl

/-- Lines are numbered one after the other. -/
theorem ContentsItem.getElem?_lines (style : BulletStyle) (number : Nat) (items : List ContentsItem) (k : Nat) :
    (ContentsItem.lines style number items)[k]? =
      items[k]?.map fun item => item.line style (number + k) := by
  induction items generalizing number k with
  | nil => rfl
  | cons item rest ih =>
    cases k with
    | zero => rfl
    | succ k =>
      rw [ContentsItem.lines, List.getElem?_cons_succ, List.getElem?_cons_succ, ih, Nat.add_assoc,
        Nat.add_comm 1 k]

theorem ContentsItem.length_lines (style : BulletStyle) (number : Nat) (items : List ContentsItem) :
    (ContentsItem.lines style number items).length = items.length := by
  induction items generalizing number with
  | nil => rfl
  | cons item rest ih => rw [ContentsItem.lines, List.length_cons, List.length_cons, ih]

namespace Section

/-- These are the items of some entries, each with the place of its entry: there is one for each entry whose document has a
title, in the order of the entries, with the label of the entry and the title and the link of its document. -/
structure Lists (includes : List (Entry × Option Section)) (items : List (Nat × ContentsItem)) : Prop where
  inOrder : (items.map Prod.fst).Pairwise (· < ·)
  listed : ∀ place item, (place, item) ∈ items ↔
    ∃ entry document, includes[place]? = some (entry, some document) ∧ item.label = entry.label ∧
      document.title? = some (item.title, item.link)

/-- The items of some entries, of which the first has the given place. -/
def itemsFrom (first : Nat) (includes : List (Entry × Option Section)) : List (Nat × ContentsItem) :=
  (includes.zipIdx first).filterMap fun placed => (contentsItem? placed.1).map (Prod.mk placed.2)

theorem contentsItem?_eq_some_iff {included : Entry × Option Section} {item : ContentsItem} :
    contentsItem? included = some item ↔
      ∃ entry document, included = (entry, some document) ∧ item.label = entry.label ∧
        document.title? = some (item.title, item.link) := by
  obtain ⟨entry, child⟩ := included
  obtain ⟨label, title, link⟩ := item
  cases child with
  | none => simp [contentsItem?]
  | some document =>
    simp only [contentsItem?, Option.map_eq_some_iff, Prod.exists, ContentsItem.mk.injEq]
    constructor
    · rintro ⟨name, target, htitle, rfl, rfl, rfl⟩
      exact ⟨entry, document, rfl, rfl, htitle⟩
    · rintro ⟨_, _, ⟨⟩, rfl, htitle⟩
      exact ⟨title, link, htitle, rfl, rfl, rfl⟩

theorem map_snd_itemsFrom (first : Nat) (includes : List (Entry × Option Section)) :
    (itemsFrom first includes).map Prod.snd = includes.filterMap contentsItem? := by
  induction includes generalizing first with
  | nil => rfl
  | cons included rest ih =>
    rw [itemsFrom, List.zipIdx_cons, List.filterMap_cons, List.filterMap_cons]
    cases contentsItem? included with
    | none => exact ih (first + 1)
    | some item => exact congrArg (item :: ·) (ih (first + 1))

theorem lists_itemsFrom (includes : List (Entry × Option Section)) :
    Lists includes (itemsFrom 0 includes) := by
  constructor
  case inOrder =>
    have hplaces : (includes.zipIdx 0).Pairwise fun one two => one.2 < two.2 := by
      rw [← List.pairwise_map (f := Prod.snd), List.zipIdx_map_snd]
      exact List.pairwise_lt_range'
    rw [List.pairwise_map, itemsFrom, List.pairwise_filterMap]
    refine hplaces.imp ?_
    rintro ⟨one, i⟩ ⟨two, j⟩ hlt item hitem other hother
    obtain ⟨_, -, rfl⟩ := Option.map_eq_some_iff.1 hitem
    obtain ⟨_, -, rfl⟩ := Option.map_eq_some_iff.1 hother
    exact hlt
  case listed =>
    intro place item
    rw [itemsFrom, List.mem_filterMap]
    constructor
    · rintro ⟨⟨included, i⟩, hmem, hitem⟩
      obtain ⟨_, hfound, heq⟩ := Option.map_eq_some_iff.1 hitem
      cases heq
      obtain ⟨entry, document, rfl, hlabel, htitle⟩ := contentsItem?_eq_some_iff.1 hfound
      exact ⟨entry, document, List.mk_mem_zipIdx_iff_getElem?.1 hmem, hlabel, htitle⟩
    · rintro ⟨entry, document, hentry, hlabel, htitle⟩
      refine ⟨((entry, some document), place), List.mk_mem_zipIdx_iff_getElem?.2 hentry, ?_⟩
      rw [contentsItem?_eq_some_iff.2 ⟨entry, document, rfl, hlabel, htitle⟩]
      rfl

/-- **A table has one row for each of its items, and these are numbered without gaps.** -/
theorem rows_of_contents {style : BulletStyle} (h : style ≠ .noTable)
    (includes : List (Entry × Option Section)) :
    ∃ rows, contents style includes = "\n".intercalate rows ∧
      rows.length = (itemsFrom 0 includes).length ∧
      ∀ (k place : Nat) (item : ContentsItem), (itemsFrom 0 includes)[k]? = some (place, item) →
        rows[k]? = some (item.row style (k + 1)) := by
  refine ⟨_, rfl, ?_, ?_⟩
  · rw [ContentsItem.length_lines, ← map_snd_itemsFrom 0, List.length_map]
  · intro k place item hitem
    rw [ContentsItem.getElem?_lines, ← map_snd_itemsFrom 0, List.getElem?_map, hitem, Nat.add_comm 1 k]
    exact congrArg some (ContentsItem.line_eq_row h _ item)

end Section

/-! ## Levels -/

namespace Emission

/-- How many marks a block begins with. An inline text is no heading, whatever it begins with. -/
def level : Emission → Nat
  | .inline _ _ => 0
  | .block text => (text.toList.takeWhile (· == '#')).length

/-- Whether a text is a heading with no more marks than given. -/
def isHeading (most : Nat) (said : Emission) : Bool := decide (1 ≤ said.level ∧ said.level ≤ most)

end Emission

theorem level_headingLine (level : Nat) (text : String) :
    (Emission.block (headingLine level text)).level = level := by
  have hmarks : ∀ c ∈ List.replicate level '#', (c == '#') = true := by
    intro c hc
    rw [List.eq_of_mem_replicate hc]
    rfl
  rw [Emission.level, toList_headingLine, List.append_assoc, List.takeWhile_append_of_pos hmarks,
    List.cons_append, List.takeWhile_cons_of_neg (by decide), List.append_nil, List.length_replicate]

/-- A block that begins with anything else than a mark is no heading. -/
theorem level_of_head? {text : String} (h : text.toList.head? ≠ some '#') :
    (Emission.block text).level = 0 := by
  rw [Emission.level]
  cases htext : text.toList with
  | nil => rfl
  | cons c rest =>
    have hc : c ≠ '#' := by
      rintro rfl
      exact h (htext ▸ rfl)
    simp [hc]

theorem head?_append_ne {cs rest : List Char} {c : Char} (h : cs.head? ≠ some c)
    (hrest : rest.head? ≠ some c) : (cs ++ rest).head? ≠ some c := by
  cases cs with
  | nil => exact hrest
  | cons first others => exact h

theorem head?_toString (number : Nat) : (toString number).toList.head? ≠ some '#' := by
  rw [Nat.toString_eq_ofList_toDigits, String.toList_ofList]
  intro hhead
  have hdigit := Nat.isDigit_of_mem_toDigits (by decide) Nat.le.refl (List.mem_of_head? hhead)
  exact absurd hdigit (by decide)

/-- A line of a table begins with a number, a bullet or a bracket. -/
theorem ContentsItem.head?_line (style : BulletStyle) (number : Nat) (item : ContentsItem) :
    (item.line style number).toList.head? ≠ some '#' := by
  cases style with
  | numbered | numberedLabeled =>
    rw [ContentsItem.line, String.append_assoc, String.toList_append]
    exact head?_append_ne (head?_toString number) (by simp)
  | bulleted | bulletedLabeled | unlabeled | labeled | noTable =>
    simp [ContentsItem.line, ContentsItem.anchorText]

/-- A table of contents is no heading. -/
theorem Section.level_contents (style : BulletStyle) (includes : List (Entry × Option Section)) :
    (Emission.block (Section.contents style includes)).level = 0 := by
  apply level_of_head?
  rw [Section.contents, String.toList_intercalate]
  cases includes.filterMap Section.contentsItem? with
  | nil => simp [ContentsItem.lines]
  | cons item rest =>
    have hfirst := ContentsItem.head?_line style 1 item
    cases rest with
    | nil => simpa [ContentsItem.lines, List.intercalate] using hfirst
    | cons next others =>
      simp only [ContentsItem.lines, List.map_cons, List.intercalate, List.intersperse_cons_cons,
        List.flatten_cons]
      exact head?_append_ne hfirst (by simp)

/-- A node of a section at the given depth, as it is read: its title has as many marks as the section is deep, and headings
have a level. -/
structure Node.Levelled (depth : Nat) (node : Node) : Prop where
  label : ∀ {name label link subtitle location}, node = .title name label link subtitle location →
    label = headingLine depth name
  heading : ∀ {level text location}, node = .heading level text location → 1 ≤ level

/-- **The title of a section is a heading with as many marks as the section is deep**, and nothing else that its nodes say
is a heading with as few. -/
theorem Node.Levelled.filter_flatNode {depth : Nat} (hdepth : 1 ≤ depth) {node : Node}
    (h : node.Levelled depth) (includes : List (Entry × Option Section)) :
    (Section.flatNode vars depth includes [] node).filter (Emission.isHeading depth) =
      node.title?.toList.map fun title => .block (headingLine depth title.1) := by
  have hdeeper (level : Nat) (hlevel : 1 ≤ level) (text : String) :
      Emission.isHeading depth (.block (headingLine (level + depth) text)) = false := by
    simp only [Emission.isHeading, level_headingLine, decide_eq_false_iff_not]
    omega
  cases node with
  | prose value location => rfl
  | content location => rfl
  | pathTo id location =>
    simp only [Section.flatNode, Node.title?]
    cases vars.id? id <;> rfl
  | heading level text location =>
    simp [Section.flatNode, Node.title?, hdeeper level (h.heading rfl) text]
  | title name label link subtitle location =>
    have hself : Emission.isHeading depth (.block (headingLine depth name)) = true := by
      simp [Emission.isHeading, level_headingLine, hdepth]
    rw [h.label rfl]
    cases subtitle with
    | none => simp [Section.flatNode, Node.title?, hself]
    | some text =>
      have hsub := hdeeper 2 (by decide) text
      rw [Nat.add_comm] at hsub
      simp [Section.flatNode, Node.title?, hself, hsub]
  | tableOfContents label style location =>
    have htable : Emission.isHeading depth (.block (Section.contents style includes)) = false := by
      simp [Emission.isHeading, Section.level_contents]
    by_cases hstyle : style = .noTable
    · simp [Section.flatNode, Node.title?, hstyle]
    · cases label with
      | none => simp [Section.flatNode, Node.title?, hstyle, htable]
      | some text =>
        have hlabel := hdeeper 1 Nat.le.refl text
        rw [Nat.add_comm] at hlabel
        simp [Section.flatNode, Node.title?, hstyle, htable, hlabel]

/-! ## Headings of a tree -/

theorem Node.isSome_title? (node : Node) : node.title?.isSome = node.isTitle := by
  cases node <;> rfl

/-- The shape of a page that was read, whose title was given once at most. -/
theorem Reads.shaped {document : Coordinate} {page : Page} {notes : List Note}
    (h : Reads store document (some page) notes) :
    ∃ forms, Shaped forms page.nodes page.entries ∧ forms.countP (·.atom == "section-meta") ≤ 1 := by
  obtain ⟨text, -, hread⟩ := h
  obtain ⟨items, hitems, hpage⟩ := except_bind_eq_ok.1 hread
  obtain ⟨_, hcheck, hpage⟩ := except_bind_eq_ok.1 hpage
  obtain ⟨⟨read, found⟩, hfound, heq⟩ := except_map_eq_ok.1 hpage
  obtain rfl := Page.eq_of_outcome (Prod.mk.inj heq).1
  have hanswered : ∀ form ∈ Item.forms items, form.Answered :=
    fun form hform => answered_of_check hitems hcheck hform
  refine ⟨Item.forms items, Item.shaped_of_readingAll hcheck hanswered (List.Subset.refl items) hfound, ?_⟩
  have hsection : governing? Grammar.document.root "section-meta" =
      some ((Grammar.sectionMeta, .atMostOnce), 0) := rfl
  rw [Grammar.check_eq] at hcheck
  exact countP_atom_of_checkForms hsection rfl hcheck

theorem Reads.levelled {document : Coordinate} {page : Page} {notes : List Note}
    (h : Reads store document (some page) notes) {node : Node} (hnode : node ∈ page.nodes) :
    node.Levelled document.depth := by
  obtain ⟨forms, hshaped, -⟩ := h.shaped
  obtain ⟨text, -, hsaid⟩ := h.said
  constructor
  case label =>
    rintro name label link subtitle location rfl
    exact Page.label_of_title hsaid hnode
  case heading =>
    rintro level words location rfl
    exact (hshaped.sound _ hnode).1

/-- Where a list has one value at most, looking for all of them is looking for the first. -/
theorem filterMap_eq_findSome? {α β : Type} {f : α → Option β} {xs : List α}
    (h : xs.countP (fun x => (f x).isSome) ≤ 1) : xs.filterMap f = (xs.findSome? f).toList := by
  induction xs with
  | nil => rfl
  | cons x rest ih =>
    rw [List.countP_cons] at h
    rw [List.filterMap_cons, List.findSome?_cons]
    cases hx : f x with
    | none =>
      rw [hx] at h
      exact ih h
    | some b =>
      rw [hx] at h
      have hrest : rest.countP (fun x => (f x).isSome) = 0 := by
        simp only [Option.isSome_some, if_true] at h
        omega
      have hnone : rest.filterMap f = [] := by
        rw [List.filterMap_eq_nil_iff]
        simpa [List.countP_eq_zero] using hrest
      rw [hnone]
      rfl

namespace Section

/-- The headings with no more marks than given, of texts with addresses. -/
def headings (most : Nat) (said : List (List Nat × Emission)) : List (List Nat × Emission) :=
  said.filter fun text => text.2.isHeading most

/-- The headings that the items of a table announce: each is the title of the section of its entry. -/
def announced (depth : Nat) (items : List (Nat × ContentsItem)) : List (List Nat × Emission) :=
  items.map fun listed => ([listed.1], .block (headingLine depth listed.2.title))

/-- Of what a tree says, the headings with no more marks than it is deep are its title. -/
def TitledAt (vars : Table) (depth : Nat) (tree : Section) : Prop :=
  headings depth (tree.traced vars) =
    tree.title?.toList.map fun title => ([], .block (headingLine depth title.1))

/-- **The headings of included sections are those that their table announces**, if those of each section are its title. -/
theorem headings_tracedAll {depth : Nat} {includes : List (Entry × Option Section)}
    (h : ∀ entry child, (entry, some child) ∈ includes → child.TitledAt vars depth) (first : Nat) :
    headings depth (tracedAll vars first includes) = announced depth (itemsFrom first includes) := by
  induction includes generalizing first with
  | nil => rfl
  | cons included rest ih =>
    have hrest := ih (fun entry child hmem => h entry child (List.mem_cons_of_mem _ hmem)) (first + 1)
    obtain ⟨entry, child⟩ := included
    rw [itemsFrom, List.zipIdx_cons]
    cases child with
    | none => exact hrest
    | some document =>
      have hself := h entry document List.mem_cons_self
      have hmoved : headings depth ((document.traced vars).map (Prod.map (List.cons first) id)) =
          (headings depth (document.traced vars)).map (Prod.map (List.cons first) id) := List.filter_map
      rw [tracedAll, headings, List.filter_append]
      show headings depth _ ++ headings depth _ = _
      rw [hmoved, hself, hrest]
      cases htitle : document.title? with
      | none => simp [contentsItem?, htitle, itemsFrom]
      | some title => simp [contentsItem?, htitle, itemsFrom, announced]

/-- None of them has fewer marks. -/
theorem headings_tracedAll_eq_nil {depth : Nat} {includes : List (Entry × Option Section)}
    (h : ∀ entry child, (entry, some child) ∈ includes → child.TitledAt vars (depth + 1)) (first : Nat) :
    headings depth (tracedAll vars first includes) = [] := by
  refine List.filter_eq_nil_iff.2 fun said hsaid hheading => ?_
  have hmarks := of_decide_eq_true hheading
  have hmem : said ∈ announced (depth + 1) (itemsFrom first includes) := by
    rw [← headings_tracedAll h]
    refine List.mem_filter.2 ⟨hsaid, decide_eq_true ?_⟩
    exact ⟨hmarks.1, Nat.le_succ_of_le hmarks.2⟩
  obtain ⟨listed, -, rfl⟩ := List.mem_map.1 hmem
  rw [level_headingLine] at hmarks
  omega

theorem headings_tracedNode {depth : Nat} (hdepth : 1 ≤ depth) {node : Node} (h : node.Levelled depth)
    (includes : List (Entry × Option Section)) {below : List (List Nat × Emission)}
    (hbelow : headings depth below = []) :
    headings depth (tracedNode vars depth includes below node) =
      node.title?.toList.map fun title => ([], .block (headingLine depth title.1)) := by
  have hown : (flatNode vars depth includes [] node).filter (Emission.isHeading depth) = _ :=
    h.filter_flatNode hdepth includes
  cases node with
  | content location => exact hbelow
  | prose | title | heading | tableOfContents | pathTo =>
    rw [tracedNode, headings, List.filter_map]
    · show ((flatNode vars depth includes [] _).filter (Emission.isHeading depth)).map _ = _
      rw [hown, List.map_map]
      rfl
    · rintro _ ⟨⟩

end Section

/-- **Of what a section and those below it say, the headings with no more marks than it is deep are its title.** -/
theorem Unfolds.titledAt {document : Coordinate} {root : Option Section} {notes : List Note}
    (h : Unfolds store document root notes) (hdepth : 1 ≤ document.depth) {tree : Section}
    (htree : root = some tree) : tree.TitledAt vars document.depth := by
  induction h generalizing tree with
  | nothing hread => cases htree
  | @page document page notes found hread hentries hbelow ih =>
    cases htree
    obtain ⟨forms, hshaped, honce⟩ := hread.shaped
    obtain ⟨text, -, hsaid⟩ := hread.said
    have hstart : page.start.document.depth = document.depth := by
      rw [Page.start_of_said hsaid]
      rfl
    have hchildren : ∀ entry child, (entry, some child) ∈ found.map Found.included →
        child.TitledAt vars (document.depth + 1) := by
      intro entry child hmem
      obtain ⟨i, f, hf, hincluded⟩ := exists_found_of_mem hmem
      exact ih i f hf (Nat.le_add_left 1 _) (Prod.mk.inj hincluded).2
    have hnodes : ∀ node ∈ page.nodes,
        Section.headings document.depth (Section.tracedNode vars document.depth (found.map Found.included)
          (Section.tracedAll vars 0 (found.map Found.included)) node) =
        node.title?.toList.map fun title => ([], .block (headingLine document.depth title.1)) := by
      intro node hnode
      exact Section.headings_tracedNode hdepth (hread.levelled hnode) _
        (Section.headings_tracedAll_eq_nil hchildren 0)
    have hone : page.nodes.countP (fun node => node.title?.isSome) ≤ 1 := by
      simp only [Node.isSome_title?]
      exact hshaped.titles ▸ honce
    unfold Section.TitledAt Section.headings
    rw [Section.traced, List.filter_flatMap, hstart]
    refine (List.flatMap_congr hnodes).trans ?_
    rw [← List.map_flatMap, ← List.filterMap_eq_flatMap_toList, filterMap_eq_findSome? hone]
    rfl

/-- So it is with the sections that an unfolded section includes. -/
theorem Unfolds.titledAt_of_mem {document : Coordinate} {tree : Section} {notes : List Note}
    (h : Unfolds store document (some tree) notes) {entry : Entry} {child : Section}
    (hentry : (entry, some child) ∈ tree.includes) : child.TitledAt vars (document.depth + 1) := by
  obtain ⟨i, hi⟩ := List.mem_iff_getElem?.1 hentry
  obtain ⟨below, hbelow⟩ := h.of_entry hi
  exact hbelow.titledAt (Nat.le_add_left 1 _) rfl

/-! ## A table and what follows it -/

namespace Section

/-- A table is written by itself, below its label if it has one. -/
theorem tracedNode_table {style : BulletStyle} (h : style ≠ .noTable) (depth : Nat)
    (includes : List (Entry × Option Section)) (below : List (List Nat × Emission))
    (label : Option String) (location : Location) :
    tracedNode vars depth includes below (.tableOfContents label style location) =
      (label.toList.map fun text => ([], .block (headingLine (depth + 1) text))) ++
        [([], .block (contents style includes))] := by
  simp [tracedNode, flatNode, h]

/-- Where a table stands right before the place of the included sections, what these say is written right behind it. -/
theorem traced_of_table (vars : Table) {tree : Section} {before behind : List Node} {label : Option String}
    {style : BulletStyle} {location place : Location} (h : style ≠ .noTable)
    (hnodes : tree.nodes = before ++ .tableOfContents label style location :: .content place :: behind) :
    ∃ first last, tree.traced vars = first ++ ([], .block (contents style tree.includes)) ::
      (tracedAll vars 0 tree.includes ++ last) := by
  obtain ⟨start, nodes, includes⟩ := tree
  obtain rfl : nodes = _ := hnodes
  refine ⟨before.flatMap (tracedNode vars start.document.depth includes (tracedAll vars 0 includes)) ++
    label.toList.map fun text => ([], .block (headingLine (start.document.depth + 1) text)), ?_⟩
  refine ⟨behind.flatMap (tracedNode vars start.document.depth includes (tracedAll vars 0 includes)), ?_⟩
  rw [traced, List.flatMap_append, List.flatMap_cons, List.flatMap_cons, tracedNode_table h,
    List.append_assoc, List.append_assoc]
  rfl

theorem includedEmissions_of_emissions {tree : Section} {texts : List Emission}
    (h : tree.emissions vars = .ok texts) {place : Location} (hplace : .content place ∈ tree.nodes) :
    includedEmissions vars tree.includes = .ok (flatAll vars tree.includes) := by
  obtain ⟨hknown, -⟩ := (emissions_eq_ok_iff tree texts).1 h
  exact (includedEmissions_eq_ok_iff tree.includes _).2 ⟨(idsKnown_iff.1 hknown).2 place hplace, rfl⟩

end Section

/-- **A table of contents announces the sections that follow it.** For every section there are the items of its entries, one
for each entry whose document has a title; and in every style but the one without a table, the table has one row for each
item, numbered from one without gaps. In a completed tree the place of the included sections comes right behind the
table, and of what is written there, the headings with at most one mark more than the section is deep are the titles of
the items, in their order, each from the section of its entry. -/
theorem contents_announce_sections (tree : Section) :
    ∃ items, Section.Lists tree.includes items ∧
      (∀ {style : BulletStyle}, style ≠ .noTable →
        ∃ rows, Section.contents style tree.includes = "\n".intercalate rows ∧
          rows.length = items.length ∧
          ∀ (k place : Nat) (item : ContentsItem), items[k]? = some (place, item) →
            rows[k]? = some (item.row style (k + 1))) ∧
      ∀ {settings : Settings} {path : DocumentPath} {table after : Table} {later : σ} {root : Section},
        ((Section.resolve settings path).exec table).run store = ((.ok (some root), after), later) →
        root.Contains tree →
        ∀ {before rest : List Node} {label : Option String} {style : BulletStyle} {location : Location},
          tree.nodes = before ++ .tableOfContents label style location :: rest → style ≠ .noTable →
          ∀ {vars : Table} {texts : List Emission}, tree.emissions vars = .ok texts →
            ∃ place behind first inner last,
              rest = .content place :: behind ∧
              (tree.traced vars).map Prod.snd = texts ∧
              tree.traced vars = first ++ ([], .block (Section.contents style tree.includes)) :: (inner ++ last) ∧
              Section.includedEmissions vars tree.includes = .ok (inner.map Prod.snd) ∧
              Section.headings (tree.start.document.depth + 1) inner =
                Section.announced (tree.start.document.depth + 1) items := by
  refine ⟨Section.itemsFrom 0 tree.includes, Section.lists_itemsFrom _, ?_, ?_⟩
  · intro style hstyle
    exact Section.rows_of_contents hstyle tree.includes
  · intro settings path table after later root hrun hcontains before rest label style location hnodes hstyle
      vars texts htexts
    obtain ⟨-, notes, hunfolds, -, -⟩ := resolve_yields_iff.1 hrun
    obtain ⟨document, below, -, -, hpart⟩ := hunfolds.of_contains Nat.le.refl Nat.le.refl hcontains
    have hdepth : tree.start.document.depth = document.depth := by
      rw [hpart.start_eq]
      rfl
    obtain ⟨noted, hread⟩ := hpart.reads_page
    obtain ⟨forms, hshaped, -⟩ := hread.shaped
    obtain ⟨place, behind, rfl⟩ := hshaped.follows before label style location rest hnodes
    obtain ⟨first, last, htraced⟩ := Section.traced_of_table vars hstyle hnodes
    have hplace : .content place ∈ tree.nodes := by simp [hnodes]
    refine ⟨place, behind, first, Section.tracedAll vars 0 tree.includes, last, rfl, ?_, htraced, ?_, ?_⟩
    · rw [Section.map_snd_traced]
      exact ((Section.emissions_eq_ok_iff tree texts).1 htexts).2.symm
    · rw [Section.map_snd_tracedAll]
      exact Section.includedEmissions_of_emissions htexts hplace
    · rw [hdepth]
      exact Section.headings_tracedAll (fun entry child hentry => hpart.titledAt_of_mem hentry) 0

/-- A document whose table announces the first and the last of four sections: the second has no title, and the third says
nothing. -/
def listedShelf : Shelf where
  files :=
    [("/r", "<!-- (dl (section-meta (title R) (include (Part-1 a) (2 b) (3 c) (Part-4 d)))" ++
        "(content (toc numbered-labeled))) -->"),
     ("/a", "<!-- (dl (section-meta (title A))) -->"), ("/b", "## B ##"), ("/c", ""),
     ("/d", "<!-- (dl (section-meta (title D))(# H)) -->")]
  readOnly := []

/-- What is written of it. -/
def listedTexts : List Emission :=
  [.block "# R #", .block "1. [Part 1: A](#a)\n2. [Part 4: D](#d)", .block "## A ##",
    .inline "## B ##" ⟨⟨"/b", 2, 2⟩, ⟨1, 1⟩⟩, .block "## D ##", .block "### H ###"]

theorem contents_announce_listedShelf : ∃ root after later items inner,
    ((Section.resolve {} (.resolve "/r" "/")).exec Table.new).run listedShelf =
      ((.ok (some root), after), later) ∧
    root.emissions Table.new = .ok listedTexts ∧
    Section.contents .numberedLabeled root.includes = "1. [Part 1: A](#a)\n2. [Part 4: D](#d)" ∧
    Section.Lists root.includes items ∧
    Section.includedEmissions Table.new root.includes = .ok (inner.map Prod.snd) ∧
    Section.headings 2 inner = Section.announced 2 items := by
  have hfound : (((Section.resolve {} (.resolve "/r" "/")).exec Table.new).run
      listedShelf).1.1.toOption.map (Option.map fun root =>
        ((root.nodes, root.start.document.depth), (root.emissions Table.new).toOption,
          Section.contents .numberedLabeled root.includes)) =
      some (some (([.title "R" "# R #" "#r" none ⟨⟨"/r", 1, 1⟩, ⟨1, 10⟩⟩,
          .tableOfContents none .numberedLabeled ⟨⟨"/r", 1, 1⟩, ⟨1, 87⟩⟩,
          .content ⟨⟨"/r", 1, 1⟩, ⟨1, 78⟩⟩], 1), some listedTexts,
        "1. [Part 1: A](#a)\n2. [Part 4: D](#d)")) := by
    decide +kernel
  obtain ⟨root, hresult, htold⟩ := exists_some_of_map hfound
  have hrun := eq_mk_of_fst_eq (eq_mk_of_fst_eq hresult)
  obtain ⟨hroot, htold⟩ := Prod.mk.inj htold
  obtain ⟨hnodes, hdepth⟩ := Prod.mk.inj hroot
  obtain ⟨hsaid, htable⟩ := Prod.mk.inj htold
  have htexts := ok_of_toOption hsaid
  obtain ⟨items, hitems, -, hannounced⟩ := @contents_announce_sections Shelf _ listedShelf root
  have hsplit : root.nodes = [_] ++ .tableOfContents none .numberedLabeled _ :: _ := hnodes
  obtain ⟨_, _, _, inner, _, -, -, -, hinner, hheadings⟩ :=
    hannounced hrun .itself hsplit (by decide) htexts
  rw [hdepth] at hheadings
  exact ⟨root, _, _, items, inner, hrun, htexts, htable, hitems, hinner, hheadings⟩

end Bindery
