import Bindery.Proofs.Page.Shape
import Bindery.Proofs.Path.Canonical
import Bindery.Proofs.Section.IncludeGraph
import Bindery.Proofs.Section.Paragraphs
import Bindery.Proofs.Section.Parts

/-!
# `Proofs.Section.Boundaries` — where the text of one section ends and that of another begins

Whether a text continues the one before it is told from their files and lines, and not from the sections they stand in.
A document never includes itself, however far round. So a section and the sections it includes come from different
files, and a blank line is put between them. Sections side by side come from different files too, unless one file was
included twice: then the second copy may go on in the last line of the first.

## Contents
- `Section.part?`: the section at an address, which says which entry to follow at each level.
- `Section.traced`: what a tree says, each text with the address of its section; `mem_traced`.
- `Page.canonical_of_entry`: entries lead to simplified paths.
- `UnfoldsFrom`: a section that a document unfolds to; `UnfoldsFrom.child`, `UnfoldsFrom.of_part?`: what lies below it.
- `Section.Twins`: one file at two places side by side; `UnfoldsFrom.twins_of_joins`.
- `sections_apart_or_twins`.
-/

namespace Bindery

open Relation

variable {σ : Type} [Store σ] {store : σ}

/-! ## Addresses -/

namespace Section

/-- The section that is found by following the entries with the given places, from the top down. -/
def part? : List Nat → Section → Option Section
  | [], tree => some tree
  | i :: address, tree => (tree.includes[i]?.bind Prod.snd).bind (part? address)

theorem part?_append (address more : List Nat) (tree : Section) :
    tree.part? (address ++ more) = (tree.part? address).bind (part? more) := by
  induction address generalizing tree with
  | nil => rfl
  | cons i rest ih =>
    rw [List.cons_append, part?, part?]
    cases tree.includes[i]?.bind Prod.snd with
    | none => rfl
    | some child => exact ih child

theorem exists_entry_of_part? {tree part : Section} {i : Nat} {rest : List Nat}
    (h : tree.part? (i :: rest) = some part) :
    ∃ entry child, tree.includes[i]? = some (entry, some child) ∧ child.part? rest = some part := by
  obtain ⟨child, hchild, hrest⟩ := Option.bind_eq_some_iff.1 h
  obtain ⟨⟨entry, _⟩, hentry, rfl⟩ := Option.bind_eq_some_iff.1 hchild
  exact ⟨entry, child, hentry, hrest⟩

/-- What a node says, each text with the address of the section that says it. -/
def tracedNode (table : Table) (depth : Nat) (includes : List (Entry × Option Section))
    (below : List (List Nat × Emission)) : Node → List (List Nat × Emission)
  | .content _ => below
  | node => (flatNode table depth includes [] node).map (Prod.mk [])

mutual

/-- What a tree of sections says, in order, each text with the address of the section that says it. -/
def traced (table : Table) : Section → List (List Nat × Emission)
  | ⟨start, nodes, includes⟩ =>
    nodes.flatMap (tracedNode table start.document.depth includes (tracedAll table 0 includes))

/-- What the documents of some entries say, of which the first has the place `i` in its list. -/
def tracedAll (table : Table) (i : Nat) : List (Entry × Option Section) → List (List Nat × Emission)
  | [] => []
  | (_, none) :: rest => tracedAll table (i + 1) rest
  | (_, some document) :: rest =>
    (document.traced table).map (Prod.map (List.cons i) id) ++ tracedAll table (i + 1) rest

end

variable {table : Table}

theorem map_snd_tracedNode {depth : Nat} {includes : List (Entry × Option Section)}
    {below : List (List Nat × Emission)} {texts : List Emission} (hbelow : below.map Prod.snd = texts)
    (node : Node) :
    (tracedNode table depth includes below node).map Prod.snd =
      flatNode table depth includes texts node := by
  cases node with
  | content location => exact hbelow
  | prose | title | heading | tableOfContents | pathTo =>
    rw [tracedNode, List.map_map]
    · exact List.map_id _
    · rintro _ ⟨⟩

mutual

/-- Addresses aside, this is what the tree says. -/
theorem map_snd_traced : (tree : Section) → (tree.traced table).map Prod.snd = tree.flat table
  | ⟨start, nodes, includes⟩ => by
    rw [traced, flat, List.map_flatMap]
    congr 1
    funext node
    exact map_snd_tracedNode (map_snd_tracedAll 0 includes) node

theorem map_snd_tracedAll : (i : Nat) → (includes : List (Entry × Option Section)) →
    (tracedAll table i includes).map Prod.snd = flatAll table includes
  | _, [] => rfl
  | i, (_, none) :: rest => by
    rw [tracedAll, flatAll]
    exact map_snd_tracedAll (i + 1) rest
  | i, (_, some document) :: rest => by
    rw [tracedAll, flatAll, List.map_append, map_snd_tracedAll (i + 1) rest, ← map_snd_traced document,
      List.map_map]
    rfl

end

theorem mem_tracedAll {i : Nat} {includes : List (Entry × Option Section)} {address : List Nat}
    {emission : Emission} (h : (address, emission) ∈ tracedAll table i includes) :
    ∃ k rest entry child, address = (i + k) :: rest ∧ includes[k]? = some (entry, some child) ∧
      (rest, emission) ∈ child.traced table := by
  induction includes generalizing i with
  | nil => cases h
  | cons included others ih =>
    obtain ⟨entry, child⟩ := included
    have hlater (h : (address, emission) ∈ tracedAll table (i + 1) others) :
        ∃ k rest other child', address = (i + k) :: rest ∧
          ((entry, child) :: others)[k]? = some (other, some child') ∧
            (rest, emission) ∈ child'.traced table := by
      obtain ⟨k, rest, other, child', rfl, hk, hmem⟩ := ih h
      refine ⟨k + 1, rest, other, child', ?_, hk, hmem⟩
      rw [Nat.add_assoc, Nat.add_comm 1 k]
    cases child with
    | none => exact hlater h
    | some document =>
      rw [tracedAll] at h
      rcases List.mem_append.1 h with hhere | hrest
      · obtain ⟨⟨rest, said⟩, hmem, heq⟩ := List.mem_map.1 hhere
        cases heq
        exact ⟨0, rest, entry, document, rfl, rfl, hmem⟩
      · exact hlater hrest

/-- A text is said by a node of the section itself, or by a section that it includes. -/
theorem traced_cases {tree : Section} {address : List Nat} {emission : Emission}
    (h : (address, emission) ∈ tree.traced table) :
    (address = [] ∧ ∃ node ∈ tree.nodes,
      emission ∈ flatNode table tree.start.document.depth tree.includes [] node) ∨
    ∃ i rest entry child, address = i :: rest ∧ tree.includes[i]? = some (entry, some child) ∧
      (rest, emission) ∈ child.traced table := by
  obtain ⟨start, nodes, includes⟩ := tree
  obtain ⟨node, hnode, hsaid⟩ := List.mem_flatMap.1 h
  cases node with
  | content location =>
    obtain ⟨i, rest, entry, child, rfl, hentry, hmem⟩ := mem_tracedAll hsaid
    exact .inr ⟨_, rest, entry, child, rfl, (Nat.zero_add i).symm ▸ hentry, hmem⟩
  | prose | title | heading | tableOfContents | pathTo =>
    obtain ⟨said, hmem, heq⟩ := List.mem_map.1 hsaid
    cases heq
    exact .inl ⟨rfl, _, hnode, hmem⟩

/-- A text is said by a node of the section at its address. -/
theorem mem_traced {address : List Nat} {emission : Emission} {tree : Section}
    (h : (address, emission) ∈ tree.traced table) :
    ∃ part, tree.part? address = some part ∧ ∃ node ∈ part.nodes,
      emission ∈ flatNode table part.start.document.depth part.includes [] node := by
  induction address generalizing tree with
  | nil =>
    rcases traced_cases h with ⟨-, hnode⟩ | ⟨i, rest, entry, child, heq, -, -⟩
    · exact ⟨tree, rfl, hnode⟩
    · cases heq
  | cons i address ih =>
    rcases traced_cases h with ⟨heq, -⟩ | ⟨_, rest, entry, child, heq, hentry, hmem⟩
    · cases heq
    · cases heq
      obtain ⟨part, hpart, hnode⟩ := ih hmem
      refine ⟨part, ?_, hnode⟩
      rw [part?, hentry]
      exact hpart

/-- An inline text stands where the node that says it does. -/
theorem location_of_flatNode {depth : Nat} {includes : List (Entry × Option Section)} {node : Node}
    {text : String} {location : Location}
    (h : .inline text location ∈ flatNode table depth includes [] node) : node.location = location := by
  cases node with
  | prose value place =>
    cases List.mem_singleton.1 h
    rfl
  | pathTo id place =>
    obtain ⟨target, -, heq⟩ := List.mem_map.1 h
    cases heq
    rfl
  | content place => cases h
  | title name label link subtitle place => cases subtitle <;> simp [flatNode] at h
  | heading level words place => simp [flatNode] at h
  | tableOfContents label style place => cases label <;> cases style <;> simp [flatNode] at h

end Section

/-! ## Entries lead to simplified paths -/

theorem canonical_readEntries {form : Form} {entry : Entry} (h : entry ∈ readEntries form) :
    Path.Canonical entry.path.parts := by
  unfold readEntries at h
  split at h
  · cases h
  · obtain ⟨_, -, rfl⟩ := List.mem_map.1 h
    exact DocumentPath.canonical_resolve _ _

theorem Item.canonical_of_readingAll {items : List Item} {read : List Node × List Entry}
    {notes : List Note} (h : Item.readingAll items = .ok (read, notes)) {entry : Entry}
    (hentry : entry ∈ read.2) : Path.Canonical entry.path.parts := by
  induction items generalizing read notes with
  | nil =>
    cases h
    cases hentry
  | cons item rest ih =>
    obtain ⟨⟨first, added⟩, hfirst, hrest⟩ := except_bind_eq_ok.1 h
    obtain ⟨⟨more, others⟩, hmore, heq⟩ := except_map_eq_ok.1 hrest
    cases heq
    rcases List.mem_append.1 hentry with hhere | hlater
    · rcases Item.reading_cases hfirst with ⟨form, title, entries, -, -, hmeta, rfl⟩ | ⟨-, -, hnone, -⟩
      · obtain ⟨name, label, link, subtitle, heq⟩ := metaReading_nodes hmeta
        cases heq
        exact canonical_readEntries hhere
      · rw [hnone] at hhere
        cases hhere
    · exact ih hmore hlater

/-- **Entries lead to simplified paths.** -/
theorem Page.canonical_of_entry {document : Coordinate} {page : Page} {notes : List Note}
    (h : Reads store document (some page) notes) {entry : Entry} (hentry : entry ∈ page.entries) :
    Path.Canonical entry.path.parts := by
  obtain ⟨text, -, hread⟩ := h
  obtain ⟨items, -, hpage⟩ := except_bind_eq_ok.1 hread
  obtain ⟨_, -, hpage⟩ := except_bind_eq_ok.1 hpage
  obtain ⟨⟨read, found⟩, hfound, heq⟩ := except_map_eq_ok.1 hpage
  obtain ⟨hsome, -⟩ := Prod.mk.inj heq
  obtain rfl := Page.eq_of_outcome hsome
  exact Item.canonical_of_readingAll hfound hentry

/-! ## Down the tree -/

/-- A section that the document at a simplified path unfolds to. -/
def UnfoldsFrom (store : σ) (path : DocumentPath) (part : Section) : Prop :=
  Path.Canonical path.parts ∧ ∃ document notes, document.path = path.text ∧
    Unfolds store document (some part) notes

namespace UnfoldsFrom

variable {path other : DocumentPath} {part : Section}

theorem start_path (h : UnfoldsFrom store path part) : part.start.document.path = path.text := by
  obtain ⟨-, document, notes, hpath, hunfolds⟩ := h
  rw [hunfolds.start_eq]
  exact hpath

/-- What a section holds lies in its file. -/
theorem node_path (h : UnfoldsFrom store path part) {node : Node} (hnode : node ∈ part.nodes) :
    node.location.document.path = path.text := by
  obtain ⟨-, document, notes, hpath, hunfolds⟩ := h
  obtain ⟨notes, hread⟩ := hunfolds.reads_page
  obtain ⟨text, -, hsaid⟩ := hread.said
  rw [Page.document_of_node hsaid hnode]
  exact hpath

theorem not_transGen_self (h : UnfoldsFrom store path part) : ¬TransGen (Includes store) path path := by
  obtain ⟨-, document, notes, hpath, hunfolds⟩ := h
  exact not_transGen_self_of_acc (hunfolds.acc hpath)

/-- One level down: the file of an included section is included. -/
theorem child (h : UnfoldsFrom store path part) {i : Nat} {entry : Entry} {document : Section}
    (hentry : part.includes[i]? = some (entry, some document)) :
    Includes store path entry.path ∧ UnfoldsFrom store entry.path document := by
  obtain ⟨-, place, notes, hpath, hunfolds⟩ := h
  obtain ⟨noted, hread⟩ := hunfolds.reads_page
  have hmem : entry ∈ part.page.entries := List.mem_map_of_mem (List.mem_of_getElem? hentry)
  obtain ⟨below, hbelow⟩ := hunfolds.of_entry hentry
  constructor
  · exact (includes_iff_reads hpath).2 ⟨_, noted, hread, entry, hmem, rfl⟩
  · exact ⟨Page.canonical_of_entry hread hmem, _, below, rfl, hbelow⟩

/-- Any number of levels down. -/
theorem of_part? (h : UnfoldsFrom store path part) {address : List Nat} {below : Section}
    (hbelow : part.part? address = some below) :
    ∃ file, UnfoldsFrom store file below ∧ ReflTransGen (Includes store) path file := by
  induction address generalizing path part with
  | nil =>
    cases hbelow
    exact ⟨path, h, .refl⟩
  | cons i rest ih =>
    obtain ⟨entry, document, hentry, hrest⟩ := Section.exists_entry_of_part? hbelow
    obtain ⟨hincludes, hchild⟩ := h.child hentry
    obtain ⟨file, hfile, hreach⟩ := ih hchild hrest
    exact ⟨file, hfile, hreach.head hincludes⟩

/-- A section comes from one file. -/
theorem unique (h : UnfoldsFrom store path part) (h' : UnfoldsFrom store other part) : path = other :=
  DocumentPath.text_injective h.1 h'.1 (h.start_path.symm.trans h'.start_path)

/-- **A section below another comes from another file**, since no document includes itself, however far round. -/
theorem ne_of_below (h : UnfoldsFrom store path part) {i : Nat} {rest : List Nat} {below : Section}
    (hbelow : part.part? (i :: rest) = some below) (h' : UnfoldsFrom store other below) :
    path ≠ other := by
  rintro rfl
  obtain ⟨entry, document, hentry, hrest⟩ := Section.exists_entry_of_part? hbelow
  obtain ⟨hincludes, hchild⟩ := h.child hentry
  obtain ⟨file, hfile, hreach⟩ := hchild.of_part? hrest
  obtain rfl := h'.unique hfile
  exact h.not_transGen_self (.head' hincludes hreach)

end UnfoldsFrom

/-! ## Neighbours from different sections -/

/-- The sections at two addresses come from one file, and neither lies below the other. -/
structure Section.Twins (tree : Section) (p q : List Nat) : Prop where
  file : ∃ one two, tree.part? p = some one ∧ tree.part? q = some two ∧
    one.start.document.path = two.start.document.path
  notAbove : ¬p <+: q
  notBelow : ¬q <+: p

/-- Sections at different addresses that come from one file are twins. -/
theorem UnfoldsFrom.twins {file : DocumentPath} {tree one two : Section} {p q : List Nat}
    (hone : UnfoldsFrom store file one) (htwo : UnfoldsFrom store file two)
    (hp : tree.part? p = some one) (hq : tree.part? q = some two) (hpq : p ≠ q) : tree.Twins p q := by
  have hapart {a b : List Nat} {above below : Section} (hab : a ≠ b) (ha : tree.part? a = some above)
      (hb : tree.part? b = some below) (habove : UnfoldsFrom store file above)
      (hbelow : UnfoldsFrom store file below) : ¬a <+: b := by
    rintro ⟨rest, rfl⟩
    rw [Section.part?_append, ha] at hb
    cases rest with
    | nil => exact hab (List.append_nil a).symm
    | cons i rest => exact habove.ne_of_below hb hbelow rfl
  constructor
  · exact ⟨one, two, hp, hq, hone.start_path.trans htwo.start_path.symm⟩
  · exact hapart hpq hp hq hone htwo
  · exact hapart hpq.symm hq hp htwo hone

/-- An inline text of a tree lies in the file of the section at its address. -/
theorem UnfoldsFrom.exists_file {path : DocumentPath} {tree : Section} (h : UnfoldsFrom store path tree)
    {table : Table} {address : List Nat} {text : String} {location : Location}
    (hsaid : (address, .inline text location) ∈ tree.traced table) :
    ∃ file part, tree.part? address = some part ∧ UnfoldsFrom store file part ∧
      location.document.path = file.text := by
  obtain ⟨part, hpart, node, hnode, hmem⟩ := Section.mem_traced hsaid
  obtain ⟨file, hfile, -⟩ := h.of_part? hpart
  refine ⟨file, part, hpart, hfile, ?_⟩
  rw [← Section.location_of_flatNode hmem]
  exact hfile.node_path hnode

/-- Texts from different sections continue each other only where one file stands twice. -/
theorem UnfoldsFrom.twins_of_joins {path : DocumentPath} {tree : Section} (h : UnfoldsFrom store path tree)
    {table : Table} {p q : List Nat} {one two : Emission} (hone : (p, one) ∈ tree.traced table)
    (htwo : (q, two) ∈ tree.traced table) (hpq : p ≠ q) (hjoins : one.joins two = true) :
    tree.Twins p q := by
  cases one with
  | block text => cases two <;> cases hjoins
  | inline text location =>
    cases two with
    | block other => cases hjoins
    | inline other next =>
      obtain ⟨file, part, hpart, hfile, hpath⟩ := h.exists_file hone
      obtain ⟨file', part', hpart', hfile', hpath'⟩ := h.exists_file htwo
      -- simplified paths that are the same by their components are the same
      have hsame := (Bool.and_eq_true_iff.1 hjoins).1
      rw [hpath, hpath', Path.samePath, DocumentPath.components_text hfile.1,
        DocumentPath.components_text hfile'.1, beq_iff_eq] at hsame
      obtain ⟨parts⟩ := file
      obtain ⟨others⟩ := file'
      obtain rfl : parts = others := hsame
      exact hfile.twins hfile' hpart hpart' hpq

/-- **Sections do not run together**, unless a file stands next to itself. Of two neighbouring texts from different sections
of a completed tree, one ends a paragraph and the other begins the next; so it is wherever one of the sections includes the
other, however far down, and wherever they come from different files. Only the texts of a file that stands twice in the
tree, at places side by side, stand together if the second begins on the line on which the first ends. -/
theorem sections_apart_or_twins {settings : Settings} {raw base : String} {table after : Table} {later : σ}
    {tree : Section}
    (h : ((Section.resolve settings (.resolve raw base)).exec table).run store =
      ((.ok (some tree), after), later))
    {other : Table} {out : String} (hout : render other (some tree) = .ok out)
    {before rest : List (List Nat × Emission)} {p q : List Nat} {one two : Emission}
    (hnext : (tree.traced other).filter (fun said => said.2.isSeen) =
      before ++ (p, one) :: (q, two) :: rest)
    (hpq : p ≠ q) :
    (StandApart out (before.map Prod.snd) one two ∧ one.joins two = false) ∨
      (StandTogether out (before.map Prod.snd) one two ∧ one.joins two = true ∧ tree.Twins p q) := by
  obtain ⟨-, notes, hunfolds, -, -⟩ := resolve_yields_iff.1 h
  have hfrom : UnfoldsFrom store (.resolve raw base) tree :=
    ⟨DocumentPath.canonical_resolve raw base, _, notes, rfl, hunfolds⟩
  obtain ⟨-, rfl⟩ := pageOf_of_render hout
  have hseen : (tree.flat other).filter Emission.isSeen =
      before.map Prod.snd ++ one :: two :: rest.map Prod.snd := by
    rw [← Section.map_snd_traced, List.filter_map]
    show ((tree.traced other).filter fun said => said.2.isSeen).map Prod.snd = _
    rw [hnext, List.map_append]
    rfl
  have hmem : ∀ said ∈ before ++ (p, one) :: (q, two) :: rest, said ∈ tree.traced other := by
    rw [← hnext]
    exact fun said hsaid => (List.mem_filter.1 hsaid).1
  obtain ⟨htogether, hapart⟩ := together_or_apart hseen
  cases hjoins : one.joins two with
  | false => exact .inl ⟨hapart hjoins, rfl⟩
  | true =>
    have htwins := hfrom.twins_of_joins (hmem (p, one) (by simp)) (hmem (q, two) (by simp)) hpq hjoins
    exact .inr ⟨htogether hjoins, rfl, htwins⟩

/-- A document that shows two others and goes on behind them, all in the first line of their files. -/
def adjacentShelf : Shelf where
  files :=
    [("/r.md", "<!-- (dl (section-meta (title R) (include (A a.md) (B b.md))) (content)) --> z"),
     ("/a.md", "x"), ("/b.md", "y")]
  readOnly := []

/-- What these documents say, with addresses. -/
def adjacentTexts : List (List Nat × Emission) :=
  [([], .block "# R #"), ([0], .inline "x" ⟨⟨"/a.md", 2, 1⟩, ⟨1, 1⟩⟩),
    ([1], .inline "y" ⟨⟨"/b.md", 2, 2⟩, ⟨1, 1⟩⟩), ([], .inline " z" ⟨⟨"/r.md", 1, 1⟩, ⟨1, 77⟩⟩)]

/-- Both boundaries of the second document are kept. -/
theorem apart_adjacentShelf : ∃ tree after later out,
    ((Section.resolve {} (.resolve "/r.md" "/")).exec Table.new).run adjacentShelf =
      ((.ok (some tree), after), later) ∧
    render Table.new (some tree) = .ok out ∧ tree.traced Table.new = adjacentTexts ∧
    StandApart out [.block "# R #"] (.inline "x" ⟨⟨"/a.md", 2, 1⟩, ⟨1, 1⟩⟩)
      (.inline "y" ⟨⟨"/b.md", 2, 2⟩, ⟨1, 1⟩⟩) ∧
    StandApart out [.block "# R #", .inline "x" ⟨⟨"/a.md", 2, 1⟩, ⟨1, 1⟩⟩]
      (.inline "y" ⟨⟨"/b.md", 2, 2⟩, ⟨1, 1⟩⟩) (.inline " z" ⟨⟨"/r.md", 1, 1⟩, ⟨1, 77⟩⟩) := by
  have hfound : (((Section.resolve {} (.resolve "/r.md" "/")).exec Table.new).run
      adjacentShelf).1.1.toOption.map (Option.map fun tree =>
        (tree.traced Table.new, (render Table.new (some tree)).toOption.isSome)) =
      some (some (adjacentTexts, true)) := by
    decide +kernel
  obtain ⟨tree, hresult, htold⟩ := exists_some_of_map hfound
  have hrun := eq_mk_of_fst_eq (eq_mk_of_fst_eq hresult)
  obtain ⟨htraced, hrender⟩ := Prod.mk.inj htold
  obtain ⟨out, hsome⟩ := Option.isSome_iff_exists.1 hrender
  have hout := ok_of_toOption hsome
  have hapart (before : List (List Nat × Emission)) {rest : List (List Nat × Emission)} {p q : List Nat}
      {one two : Emission} (hnext : adjacentTexts.filter (fun said => said.2.isSeen) =
        before ++ (p, one) :: (q, two) :: rest) (hpq : p ≠ q) (hjoins : one.joins two = false) :
      StandApart out (before.map Prod.snd) one two := by
    rw [← htraced] at hnext
    rcases sections_apart_or_twins hrun hout hnext hpq with ⟨hfound, -⟩ | ⟨-, htrue, -⟩
    · exact hfound
    · rw [hjoins] at htrue
      cases htrue
  have hfirst := hapart [_] rfl (by decide) (by decide +kernel)
  have hsecond := hapart [_, _] rfl (by decide) (by decide +kernel)
  exact ⟨tree, _, _, out, hrun, hout, htraced, hfirst, hsecond⟩

/-- A document that shows another twice. -/
def doubledShelf : Shelf where
  files :=
    [("/r.md", "<!-- (dl (section-meta (title R) (include (A a.md) (B a.md)))(content)) -->"), ("/a.md", "x")]
  readOnly := []

/-- What is written of it. -/
def doubledPage : String :=
  "<!-- Generated Document do not edit! -->\n\n# R #\n\nxx\n\n<!-- Generated Document do not edit! -->\n"

/-- Two copies of a file run together: no line end is put between them. -/
theorem together_doubledShelf : ∃ tree after later,
    ((Section.resolve {} (.resolve "/r.md" "/")).exec Table.new).run doubledShelf =
      ((.ok (some tree), after), later) ∧
    tree.traced Table.new = [([], .block "# R #"), ([0], .inline "x" ⟨⟨"/a.md", 2, 1⟩, ⟨1, 1⟩⟩),
      ([1], .inline "x" ⟨⟨"/a.md", 2, 2⟩, ⟨1, 1⟩⟩)] ∧
    render Table.new (some tree) = .ok doubledPage := by
  have hfound : (((Section.resolve {} (.resolve "/r.md" "/")).exec Table.new).run
      doubledShelf).1.1.toOption.map (Option.map fun tree =>
        (tree.traced Table.new, (render Table.new (some tree)).toOption)) =
      some (some ([([], .block "# R #"), ([0], .inline "x" ⟨⟨"/a.md", 2, 1⟩, ⟨1, 1⟩⟩),
        ([1], .inline "x" ⟨⟨"/a.md", 2, 2⟩, ⟨1, 1⟩⟩)], some doubledPage)) := by
    decide +kernel
  obtain ⟨tree, hresult, htold⟩ := exists_some_of_map hfound
  have hrun := eq_mk_of_fst_eq (eq_mk_of_fst_eq hresult)
  obtain ⟨htraced, hrender⟩ := Prod.mk.inj htold
  exact ⟨tree, _, _, hrun, htraced, ok_of_toOption hrender⟩

end Bindery
