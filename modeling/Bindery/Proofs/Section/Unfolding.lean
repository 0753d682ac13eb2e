import Bindery.Proofs.Page.Notes

/-!
# `Proofs.Section.Unfolding` — a tree of sections as the unfolding of its files

Following includes works on the table and is guarded by settings. Neither has a say in the tree: that is the unfolding of
the files, found by reading each document at its coordinate and unfolding its entries below it. The guards admit a
tree or not, and the table is what results from entering the notes of all documents in the order they were read.

## Contents
- `Reads`: what the document at a coordinate says; `Unfolds`: what it says with all it includes.
- `Unfolds.of_entry`, `Unfolds.unique`.
- `Admits`: what the settings require of a tree.
- `resolve_yields_iff`: following includes succeeds exactly with the unfolding that is admitted and can be noted.
-/

namespace Bindery

variable {σ : Type} [Store σ] {store later : σ} {settings : Settings} {table after : Table}

/-- What the document at a coordinate says and notes, by what the store holds at its path. -/
def Reads (store : σ) (document : Coordinate) (page : Option Page) (notes : List Note) : Prop :=
  ∃ text, Store.read store document.path = .ok text ∧
    Page.reading document text = .ok (page, notes)

/-- What an entry of a page was found to lead to, and what was noted below it. -/
structure Found where
  entry : Entry
  tree : Option Section
  notes : List Note

namespace Found

/-- The entry as it stands in a tree. -/
def included (found : Found) : Entry × Option Section := (found.entry, found.tree)

/-- What was noted below an entry, in a scope of its own. -/
def note (found : Found) : Note := .within found.entry.path found.notes

end Found

/-- What the document at a coordinate says with all it includes, and what is noted on the way. An entry is unfolded one
level deeper, with its place in the list as its index. -/
inductive Unfolds (store : σ) : Coordinate → Option Section → List Note → Prop where
  | nothing {document : Coordinate} {notes : List Note} (hread : Reads store document none notes) :
      Unfolds store document none notes
  | page {document : Coordinate} {page : Page} {notes : List Note} {found : List Found}
      (hread : Reads store document (some page) notes)
      (hentries : found.map Found.entry = page.entries)
      (hbelow : ∀ (i : Nat) (f : Found), found[i]? = some f →
        Unfolds store ⟨f.entry.path.text, document.depth + 1, i + 1⟩ f.tree f.notes) :
      Unfolds store document (some ⟨page.start, page.nodes, found.map Found.included⟩)
        (notes ++ found.map Found.note)

/-- What the settings require of a tree with `remaining` levels to go, which the chain of documents led to: no entry lies
deeper, and if cycles are looked for, none leads back into the chain. -/
inductive Admits (settings : Settings) : Nat → List DocumentPath → Option Section → Prop where
  | nothing {remaining : Nat} {chain : List DocumentPath} : Admits settings remaining chain none
  | tree {remaining : Nat} {chain : List DocumentPath} {start : Location} {nodes : List Node}
      {includes : List (Entry × Option Section)}
      (hroom : ∀ included ∈ includes, 0 < remaining)
      (hcycle : ∀ included ∈ includes, settings.checkIncludeCycles = true → included.1.path ∉ chain)
      (hbelow : ∀ included ∈ includes,
        Admits settings (remaining - 1) (chain ++ [included.1.path]) included.2) :
      Admits settings remaining chain (some ⟨start, nodes, includes⟩)

/-! ## Unfoldings are unique -/

/-- A document says and notes one thing. -/
theorem Reads.unique {document : Coordinate} {page page' : Option Page} {notes notes' : List Note}
    (h : Reads store document page notes) (h' : Reads store document page' notes') :
    page = page' ∧ notes = notes' := by
  obtain ⟨text, htext, hread⟩ := h
  obtain ⟨text', htext', hread'⟩ := h'
  cases htext.symm.trans htext'
  cases hread.symm.trans hread'
  exact ⟨rfl, rfl⟩

/-- What lies below the entry with index `i + 1`. -/
theorem Unfolds.of_entry {document : Coordinate} {tree : Section} {notes : List Note}
    (h : Unfolds store document (some tree) notes) {i : Nat} {entry : Entry}
    {child : Option Section} (hentry : tree.includes[i]? = some (entry, child)) :
    ∃ notes, Unfolds store ⟨entry.path.text, document.depth + 1, i + 1⟩ child notes := by
  cases h with
  | page hread hentries hbelow =>
    obtain ⟨f, hf, heq⟩ := Option.map_eq_some_iff.1 (List.getElem?_map.symm.trans hentry)
    cases heq
    exact ⟨f.notes, hbelow i f hf⟩

/-- **A document unfolds in one way only.** -/
theorem Unfolds.unique {document : Coordinate} {tree tree' : Option Section}
    {notes notes' : List Note} (h : Unfolds store document tree notes)
    (h' : Unfolds store document tree' notes') : tree = tree' ∧ notes = notes' := by
  induction h generalizing tree' notes' with
  | nothing hread =>
    cases h' with
    | nothing hread' => exact ⟨rfl, (hread.unique hread').2⟩
    | page hread' _ _ => cases (hread.unique hread').1
  | @page document page notes found hread hentries hbelow ih =>
    cases h' with
    | nothing hread' => cases (hread.unique hread').1
    | @page _ page' notes' found' hread' hentries' hbelow' =>
      obtain ⟨hpage, rfl⟩ := hread.unique hread'
      cases hpage
      -- the entries are the same, so they were found to lead to the same, place by place
      have hfound : found = found' := by
        refine List.ext_getElem? fun i => ?_
        have hsame := congrArg (·[i]?) (hentries.trans hentries'.symm)
        simp only [List.getElem?_map] at hsame
        cases hf : found[i]? with
        | none =>
          rw [hf] at hsame
          exact (Option.map_eq_none_iff.1 hsame.symm).symm
        | some f =>
          rw [hf] at hsame
          obtain ⟨f', hf', hentry⟩ := Option.map_eq_some_iff.1 hsame.symm
          have hleads := hbelow' i f' hf'
          rw [hentry] at hleads
          obtain ⟨htree, hnotes⟩ := ih i f hf hleads
          rw [hf']
          cases f
          cases f'
          cases hentry
          cases htree
          cases hnotes
          rfl
      subst hfound
      exact ⟨rfl, rfl⟩

/-! ## One document -/

theorem loadPage_yields_iff {path : DocumentPath} {chain : List DocumentPath} {depth index : Nat}
    (hdepth : 1 ≤ depth) (hindex : 1 ≤ index) {page : Option Page} :
    (loadPage path chain ⟨path.text, depth, index⟩).Yields store table page later after ↔
      later = store ∧ ∃ notes, Reads store ⟨path.text, depth, index⟩ page notes ∧
        Note.enterAll notes table = some after := by
  unfold loadPage
  rw [CompileM.yields_bind]
  constructor
  · rintro ⟨text, between, middle, hload, hread⟩
    obtain ⟨rfl, rfl, htext⟩ := CompileM.yields_load.1 hload
    obtain ⟨rfl, hpage⟩ := CompileM.yields_ofTable.1 hread
    obtain ⟨notes, hnotes, hentered⟩ := (Page.ofText_eq_ok_iff hdepth hindex).1 hpage
    exact ⟨rfl, notes, ⟨text, htext, hnotes⟩, hentered⟩
  · rintro ⟨rfl, notes, ⟨text, htext, hnotes⟩, hentered⟩
    refine ⟨text, later, table, CompileM.yields_load.2 ⟨rfl, rfl, htext⟩, ?_⟩
    refine CompileM.yields_ofTable.2 ⟨rfl, ?_⟩
    exact (Page.ofText_eq_ok_iff hdepth hindex).2 ⟨notes, hnotes, hentered⟩

/-! ## The entries of a page -/

/-- Visiting an entry succeeds exactly where `Leads` says what it leads to, and enters what is noted below it. -/
def VisitsAs (store : σ) (visit : Nat → Entry → CompileM (Option Section))
    (Leads : Nat → Found → Prop) : Prop :=
  ∀ (index : Nat) (entry : Entry) (tree : Option Section) (later : σ) (table after : Table),
    1 ≤ index → ((visit index entry).Yields store table tree later after ↔
      later = store ∧ ∃ notes, Leads index ⟨entry, tree, notes⟩ ∧
        Note.enter (.within entry.path notes) table = some after)

/-- Visiting entries one after the other succeeds exactly where each visit does. -/
theorem fillEntries_yields_iff {visit : Nat → Entry → CompileM (Option Section)}
    {Leads : Nat → Found → Prop} (hvisit : VisitsAs store visit Leads) {index : Nat}
    (hindex : 1 ≤ index) {entries : List Entry} {includes : List (Entry × Option Section)} :
    (fillEntries visit index entries).Yields store table includes later after ↔
      later = store ∧ ∃ found : List Found, found.map Found.entry = entries ∧
        includes = found.map Found.included ∧
        (∀ (i : Nat) (f : Found), found[i]? = some f → Leads (i + index) f) ∧
        Note.enterAll (found.map Found.note) table = some after := by
  induction entries generalizing index table includes with
  | nil =>
    rw [fillEntries, CompileM.yields_pure]
    constructor
    · rintro ⟨rfl, rfl, rfl⟩
      exact ⟨rfl, [], rfl, rfl, by simp, rfl⟩
    · rintro ⟨rfl, found, hentries, rfl, -, hentered⟩
      obtain rfl := List.map_eq_nil_iff.1 hentries
      cases hentered
      exact ⟨rfl, rfl, rfl⟩
  | cons entry rest ih =>
    rw [fillEntries, CompileM.yields_bind]
    constructor
    · rintro ⟨tree, between, middle, hfirst, hrest⟩
      obtain ⟨others, last, final, hothers, hpure⟩ := CompileM.yields_bind.1 hrest
      obtain ⟨rfl, rfl, rfl⟩ := CompileM.yields_pure.1 hpure
      obtain ⟨rfl, notes, hleads, hmiddle⟩ := (hvisit _ _ _ _ _ _ hindex).1 hfirst
      obtain ⟨rfl, found, rfl, rfl, hbelow, hentered⟩ := (ih (Nat.le_succ_of_le hindex)).1 hothers
      refine ⟨rfl, ⟨entry, tree, notes⟩ :: found, rfl, rfl, ?_, ?_⟩
      · -- places in the tail count from the next index
        intro i f hf
        cases i with
        | zero =>
          cases hf
          rwa [Nat.zero_add]
        | succ i =>
          rw [Nat.add_right_comm]
          exact hbelow i f hf
      · exact Option.bind_eq_some_iff.2 ⟨middle, hmiddle, hentered⟩
    · rintro ⟨rfl, found, hentries, rfl, hbelow, hentered⟩
      obtain ⟨f, found, rfl, rfl, rfl⟩ := List.map_eq_cons_iff.1 hentries
      obtain ⟨middle, hmiddle, hlast⟩ := Option.bind_eq_some_iff.1 hentered
      have hleads : Leads index f := by
        have := hbelow 0 f rfl
        rwa [Nat.zero_add] at this
      have hfirst : (visit index f.entry).Yields later table f.tree later middle :=
        (hvisit _ _ _ _ _ _ hindex).2 ⟨rfl, f.notes, hleads, hmiddle⟩
      have hothers : (fillEntries visit (index + 1) (found.map Found.entry)).Yields later middle
          (found.map Found.included) later after := by
        refine (ih (Nat.le_succ_of_le hindex)).2 ⟨rfl, found, rfl, rfl, fun i g hg => ?_, hlast⟩
        have := hbelow (i + 1) g hg
        rwa [Nat.add_right_comm] at this
      refine ⟨f.tree, later, middle, hfirst, ?_⟩
      exact CompileM.yields_bind.2
        ⟨_, later, after, hothers, CompileM.yields_pure.2 ⟨rfl, rfl, rfl⟩⟩

/-- What an entry of a document at the given depth leads to, by the files and by the settings. -/
def LeadsTo (store : σ) (settings : Settings) (remaining : Nat) (chain : List DocumentPath)
    (depth index : Nat) (found : Found) : Prop :=
  Unfolds store ⟨found.entry.path.text, depth + 1, index⟩ found.tree found.notes ∧
    0 < remaining ∧ (settings.checkIncludeCycles = true → found.entry.path ∉ chain) ∧
    Admits settings (remaining - 1) (chain ++ [found.entry.path]) found.tree

theorem fill_yields_iff {visit : Nat → Entry → CompileM (Option Section)}
    {Leads : Nat → Found → Prop} (hvisit : VisitsAs store visit Leads) {page : Page}
    {tree : Section} :
    (page.fill visit).Yields store table tree later after ↔
      later = store ∧ ∃ found : List Found, found.map Found.entry = page.entries ∧
        tree = ⟨page.start, page.nodes, found.map Found.included⟩ ∧
        (∀ (i : Nat) (f : Found), found[i]? = some f → Leads (i + 1) f) ∧
        Note.enterAll (found.map Found.note) table = some after := by
  unfold Page.fill
  rw [CompileM.yields_bind]
  constructor
  · rintro ⟨includes, between, middle, hfill, hpure⟩
    obtain ⟨rfl, rfl, rfl⟩ := CompileM.yields_pure.1 hpure
    obtain ⟨rfl, found, hentries, rfl, hbelow, hentered⟩ :=
      (fillEntries_yields_iff hvisit Nat.le.refl).1 hfill
    exact ⟨rfl, found, hentries, rfl, hbelow, hentered⟩
  · rintro ⟨rfl, found, hentries, rfl, hbelow, hentered⟩
    refine ⟨_, later, after, ?_, CompileM.yields_pure.2 ⟨rfl, rfl, rfl⟩⟩
    exact (fillEntries_yields_iff hvisit Nat.le.refl).2
      ⟨rfl, found, hentries, rfl, hbelow, hentered⟩

/-- The members of an include list are what was found at its places. -/
theorem exists_found_of_mem {found : List Found} {included : Entry × Option Section}
    (h : included ∈ found.map Found.included) :
    ∃ (i : Nat) (f : Found), found[i]? = some f ∧ f.included = included := by
  obtain ⟨f, hf, heq⟩ := List.mem_map.1 h
  obtain ⟨i, hi⟩ := List.mem_iff_getElem?.1 hf
  exact ⟨i, f, hi, heq⟩

/-- A document with all it includes, where `visit` leads from its entries to what lies below it. -/
theorem page_yields_iff {path : DocumentPath} {chain : List DocumentPath}
    {depth index remaining : Nat} (hdepth : 1 ≤ depth) (hindex : 1 ≤ index)
    {visit : Nat → Entry → CompileM (Option Section)}
    (hvisit : VisitsAs store visit (LeadsTo store settings remaining chain depth))
    {tree : Option Section} :
    (do
      match ← loadPage path chain ⟨path.text, depth, index⟩ with
      | none => return none
      | some page => return some (← page.fill visit) : CompileM (Option Section)).Yields
        store table tree later after ↔
      later = store ∧ ∃ notes, Unfolds store ⟨path.text, depth, index⟩ tree notes ∧
        Admits settings remaining chain tree ∧ Note.enterAll notes table = some after := by
  rw [CompileM.yields_bind]
  constructor
  · rintro ⟨page, between, middle, hload, hrest⟩
    obtain ⟨rfl, notes, hread, hmiddle⟩ := (loadPage_yields_iff hdepth hindex).1 hload
    cases page with
    | none =>
      obtain ⟨rfl, rfl, rfl⟩ := CompileM.yields_pure.1 hrest
      exact ⟨rfl, notes, .nothing hread, .nothing, hmiddle⟩
    | some page =>
      obtain ⟨filled, last, final, hfill, hpure⟩ := CompileM.yields_bind.1 hrest
      obtain ⟨rfl, rfl, rfl⟩ := CompileM.yields_pure.1 hpure
      obtain ⟨rfl, found, hentries, rfl, hleads, hfinal⟩ := (fill_yields_iff hvisit).1 hfill
      refine ⟨rfl, notes ++ found.map Found.note, ?_, ?_, ?_⟩
      · exact .page hread hentries fun i f hf => (hleads i f hf).1
      · refine .tree (fun included hmem => ?_) (fun included hmem => ?_) (fun included hmem => ?_)
        all_goals obtain ⟨i, f, hf, rfl⟩ := exists_found_of_mem hmem
        · exact (hleads i f hf).2.1
        · exact (hleads i f hf).2.2.1
        · exact (hleads i f hf).2.2.2
      · exact Note.enterAll_append_eq_some.2 ⟨middle, hmiddle, hfinal⟩
  · rintro ⟨rfl, notes, hunfolds, hadmits, hentered⟩
    cases hunfolds with
    | nothing hread =>
      refine ⟨none, later, after, ?_, CompileM.yields_pure.2 ⟨rfl, rfl, rfl⟩⟩
      exact (loadPage_yields_iff hdepth hindex).2 ⟨rfl, notes, hread, hentered⟩
    | @page _ page notes found hread hentries hbelow =>
      cases hadmits with
      | tree hroom hcycle hadmits =>
        obtain ⟨middle, hmiddle, hfinal⟩ := Note.enterAll_append_eq_some.1 hentered
        refine ⟨some page, later, middle,
          (loadPage_yields_iff hdepth hindex).2 ⟨rfl, notes, hread, hmiddle⟩, ?_⟩
        refine CompileM.yields_bind.2
          ⟨_, later, after, ?_, CompileM.yields_pure.2 ⟨rfl, rfl, rfl⟩⟩
        refine (fill_yields_iff hvisit).2 ⟨rfl, found, hentries, rfl, fun i f hf => ?_, hfinal⟩
        have hmem : f.included ∈ found.map Found.included :=
          List.mem_map_of_mem (List.mem_of_getElem? hf)
        exact ⟨hbelow i f hf, hroom _ hmem, hcycle _ hmem, hadmits _ hmem⟩

/-! ## The whole tree -/

theorem follow_visitsAs (remaining : Nat) (chain : List DocumentPath) (parent : Coordinate) :
    VisitsAs store (follow settings remaining chain parent)
      (LeadsTo store settings remaining chain parent.depth) := by
  induction remaining generalizing chain parent with
  | zero =>
    -- no level is left, so nothing is visited and nothing is admitted
    intro index entry tree later table after _
    constructor
    · intro h
      exact absurd h CompileM.not_yields_throw
    · rintro ⟨-, notes, ⟨-, hroom, -⟩, -⟩
      exact absurd hroom (Nat.lt_irrefl 0)
  | succ remaining ih =>
    intro index entry tree later table after hindex
    have hdepth : 1 ≤ parent.depth + 1 := Nat.le_add_left 1 _
    have hbelow := ih (chain ++ [entry.path]) ⟨entry.path.text, parent.depth + 1, index⟩
    rw [follow]
    by_cases hback : (settings.checkIncludeCycles && chain.contains entry.path) = true
    · -- an entry that is looked at and leads back is refused by both sides
      rw [if_pos hback]
      simp only [Bool.and_eq_true, List.contains_iff_mem] at hback
      constructor
      · intro h
        exact absurd h CompileM.not_yields_throw
      · rintro ⟨-, notes, ⟨-, -, hcycle, -⟩, -⟩
        exact absurd hback.2 (hcycle hback.1)
    · rw [if_neg hback, CompileM.yields_inScope]
      simp only [Bool.and_eq_true, List.contains_iff_mem, not_and] at hback
      constructor
      · rintro ⟨inner, hrun, rfl⟩
        obtain ⟨_, between, middle, hset, hrest⟩ := CompileM.yields_bind.1 hrun
        obtain ⟨rfl, rfl⟩ := CompileM.yields_modify.1 hset
        obtain ⟨rfl, notes, hunfolds, hadmits, hentered⟩ :=
          (page_yields_iff hdepth hindex hbelow).1 hrest
        refine ⟨rfl, notes, ⟨hunfolds, Nat.succ_pos _, hback, hadmits⟩, ?_⟩
        rw [Note.enter, hentered]
        rfl
      · rintro ⟨rfl, notes, ⟨hunfolds, -, -, hadmits⟩, hentered⟩
        rw [Note.enter] at hentered
        obtain ⟨inner, hinner, rfl⟩ := Option.map_eq_some_iff.1 hentered
        refine ⟨inner, CompileM.yields_bind.2 ?_, rfl⟩
        refine ⟨(), later, _, CompileM.yields_modify.2 ⟨rfl, rfl⟩, ?_⟩
        exact (page_yields_iff hdepth hindex hbelow).2 ⟨rfl, notes, hunfolds, hadmits, hinner⟩

/-- **Following includes succeeds exactly with the unfolding of the files that the settings admit, and leaves the table with
all its notes entered.** -/
theorem resolve_yields_iff {path : DocumentPath} {tree : Option Section} :
    (Section.resolve settings path).Yields store table tree later after ↔
      later = store ∧ ∃ notes, Unfolds store ⟨path.text, 1, 1⟩ tree notes ∧
        Admits settings (settings.maxIncludeDepth - 1) [path] tree ∧
        Note.enterAll notes table = some after :=
  page_yields_iff Nat.le.refl Nat.le.refl (follow_visitsAs _ _ _)

end Bindery
