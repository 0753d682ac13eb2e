import Bindery.Proofs.Grammar.Acceptance
import Bindery.Proofs.Page.Notes
import Bindery.Proofs.Table.Registry

/-!
# `Proofs.Page.Entering` — what entering notes does to a sound table

Notes make ids known and give warnings. Which ids stand for what depends on the document that links are seen from, and on
nothing else in the table. So entering notes adds these ids and warnings, and it fails only where two of the ids
clash. The notes of a single page never clash with each other, since it has one section and that declares one id.

## Contents
- `Note.pairs`, `Note.warnings`: the ids and the warnings of a note; `Note.Valid`.
- `Note.enterAll_gains`, `Note.exists_enterAll`: what entering does, and that it succeeds where no ids clash.
- `Page.reading_spec`: the notes of a page declare at most one id; `Page.ofText_new_eq_ok_iff`.
-/

namespace Bindery

open Source Text

mutual

/-- The ids that a note declares and what they stand for, where links are seen from the given output, or else from the
given source. -/
def Note.pairs (destination source : Option DocumentPath) : Note → List (String × Target)
  | .author _ => []
  | .declaration id document link =>
    [(id, ⟨(destination <|> source).getD (.resolve document.path "/"), some link⟩)]
  | .warning _ => []
  | .within inner notes => Note.pairsAll destination (some inner) notes

/-- The ids that some notes declare and what they stand for. -/
def Note.pairsAll (destination source : Option DocumentPath) : List Note → List (String × Target)
  | [] => []
  | note :: rest => note.pairs destination source ++ Note.pairsAll destination source rest

end

mutual

/-- The warnings of a note. -/
def Note.warnings : Note → List Warning
  | .author _ => []
  | .declaration _ _ _ => []
  | .warning given => [given]
  | .within _ notes => Note.warningsAll notes

/-- The warnings of some notes, in order. -/
def Note.warningsAll : List Note → List Warning
  | [] => []
  | note :: rest => note.warnings ++ Note.warningsAll rest

end

mutual

/-- A note declares nothing but ids. -/
def Note.Valid : Note → Prop
  | .author _ => True
  | .declaration id _ _ => isId id = true
  | .warning _ => True
  | .within _ notes => Note.AllValid notes

/-- Notes declare nothing but ids. -/
def Note.AllValid : List Note → Prop
  | [] => True
  | note :: rest => note.Valid ∧ Note.AllValid rest

end

/-! ## Entering -/

theorem Table.get?_set_self (table : Table) (key : String) (value : Value) :
    (table.set key value).get? key = some value := by
  rw [Table.get?_eq_column, Table.column_set_self]
  rfl

/-- The table in which the notes of an included document are entered. -/
def Table.entering (table : Table) (source : DocumentPath) : Table :=
  table.push.set Table.sourceKey (.path source)

theorem Table.source?_entering (table : Table) (source : DocumentPath) :
    (table.entering source).source? = some source := by
  rw [Table.source?, Table.path?, Table.entering, Table.get?_set_self]

theorem Table.destination?_entering (table : Table) (source : DocumentPath) :
    (table.entering source).destination? = table.destination? := by
  have hcolumn : (table.entering source).column Table.destinationKey =
      table.push.column Table.destinationKey := Table.column_set_of_ne _ _ (by decide)
  rw [Table.destination?, Table.path?_congr hcolumn, Table.path?, Table.get?_push]
  rfl

/-- The scope of an included document is opened on what the table knows. -/
theorem Table.opens_entering {table : Table} (h : table.Sound) (source : DocumentPath) :
    table.Opens (table.entering source) :=
  (Table.opens_push h).set_path isId_sourceKey (by decide) source

theorem Table.Gains.source? {table after : Table} {pairs : List (String × Target)}
    {given : List Warning} (h : table.Gains pairs given after) : after.source? = table.source? :=
  Table.path?_congr h.source

theorem Table.Gains.destination? {table after : Table} {pairs : List (String × Target)}
    {given : List Warning} (h : table.Gains pairs given after) :
    after.destination? = table.destination? :=
  Table.path?_congr h.destination

mutual

/-- A note makes its ids known and gives its warnings. -/
theorem Note.enter_gains {table after : Table} (hsound : table.Sound) :
    (note : Note) → note.Valid → note.enter table = some after →
      table.Gains (note.pairs table.destination? table.source?) note.warnings after
  | .author name, _, henter => by
    cases henter
    exact Table.appendGlobal_authors_gains hsound name
  | .declaration id document link, hvalid, henter => by
    rw [Note.enter] at henter
    cases hregister : table.register id (sectionTarget document link table) with
    | error existing =>
      rw [hregister] at henter
      cases henter
    | ok registered =>
      rw [hregister] at henter
      cases henter
      exact Table.register_gains hsound hvalid hregister
  | .warning given, _, henter => by
    cases henter
    exact Table.warn_gains hsound given
  | .within source notes, hvalid, henter => by
    rw [Note.enter] at henter
    obtain ⟨inner, hinner, rfl⟩ := Option.map_eq_some_iff.1 henter
    -- the notes are entered in a scope of their own, where another source is noted
    have hopens := Table.opens_entering hsound source
    have hgains := Note.enterAll_gains hopens.sound notes hvalid hinner
    rw [Table.destination?_entering, Table.source?_entering] at hgains
    exact hopens.close hgains

/-- **Entering notes makes their ids known and gives their warnings.** -/
theorem Note.enterAll_gains {table after : Table} (hsound : table.Sound) :
    (notes : List Note) → Note.AllValid notes → Note.enterAll notes table = some after →
      table.Gains (Note.pairsAll table.destination? table.source? notes)
        (Note.warningsAll notes) after
  | [], _, henter => by
    cases henter
    exact .refl hsound
  | note :: rest, hvalid, henter => by
    rw [Note.enterAll] at henter
    obtain ⟨middle, hmiddle, hrest⟩ := Option.bind_eq_some_iff.1 henter
    have hfirst := Note.enter_gains hsound note hvalid.1 hmiddle
    have hothers := Note.enterAll_gains hfirst.sound rest hvalid.2 hrest
    rw [hfirst.destination?, hfirst.source?] at hothers
    exact hfirst.trans hothers

end

mutual

/-- A note can be entered where none of its ids clash. -/
theorem Note.exists_enter {table : Table} (hsound : table.Sound) :
    (note : Note) → note.Valid →
      table.Consistent (note.pairs table.destination? table.source?) →
      ∃ after, note.enter table = some after
  | .author name, _, _ => ⟨_, rfl⟩
  | .declaration id document link, _, hpairs => by
    obtain ⟨after, hafter⟩ := Table.exists_register hpairs
    refine ⟨after, ?_⟩
    rw [Note.enter]
    exact congrArg Except.toOption hafter
  | .warning given, _, _ => ⟨_, rfl⟩
  | .within source notes, hvalid, hpairs => by
    have hopens := Table.opens_entering hsound source
    have hinner : (table.entering source).Consistent
        (Note.pairsAll (table.entering source).destination? (table.entering source).source? notes) := by
      rw [Table.destination?_entering, Table.source?_entering]
      exact hopens.consistent_iff.2 hpairs
    obtain ⟨inner, hinner⟩ := Note.exists_enterAll hopens.sound notes hvalid hinner
    refine ⟨inner.keep table.inner.length, ?_⟩
    rw [Note.enter]
    exact Option.map_eq_some_iff.2 ⟨inner, hinner, rfl⟩

/-- **Notes can be entered where none of their ids clash.** -/
theorem Note.exists_enterAll {table : Table} (hsound : table.Sound) :
    (notes : List Note) → Note.AllValid notes →
      table.Consistent (Note.pairsAll table.destination? table.source? notes) →
      ∃ after, Note.enterAll notes table = some after
  | [], _, _ => ⟨table, rfl⟩
  | note :: rest, hvalid, hpairs => by
    rw [Note.pairsAll] at hpairs
    obtain ⟨middle, hmiddle⟩ := Note.exists_enter hsound note hvalid.1
      (hpairs.mono (List.subset_append_left _ _))
    have hfirst := Note.enter_gains hsound note hvalid.1 hmiddle
    have hothers : middle.Consistent (Note.pairsAll middle.destination? middle.source? rest) := by
      rw [hfirst.destination?, hfirst.source?]
      exact hfirst.consistent_iff.2 hpairs
    obtain ⟨after, hafter⟩ := Note.exists_enterAll hfirst.sound rest hvalid.2 hothers
    exact ⟨after, Option.bind_eq_some_iff.2 ⟨middle, hmiddle, hafter⟩⟩

end

/-! ## The notes of a page -/

theorem Note.pairsAll_append (destination source : Option DocumentPath) (notes more : List Note) :
    Note.pairsAll destination source (notes ++ more) =
      Note.pairsAll destination source notes ++ Note.pairsAll destination source more := by
  induction notes with
  | nil => rfl
  | cons note rest ih =>
    rw [List.cons_append, Note.pairsAll, ih, Note.pairsAll, List.append_assoc]

theorem Note.allValid_iff {notes : List Note} :
    Note.AllValid notes ↔ ∀ note ∈ notes, note.Valid := by
  induction notes with
  | nil => simp [Note.AllValid]
  | cons note rest ih => simp [Note.AllValid, ih]

theorem Note.AllValid.append {notes more : List Note} (h : Note.AllValid notes)
    (hmore : Note.AllValid more) : Note.AllValid (notes ++ more) := by
  rw [Note.allValid_iff] at h hmore ⊢
  intro note hnote
  exact (List.mem_append.1 hnote).elim (h note) (hmore note)

/-- What is read as an id is one. -/
theorem isId_of_readId {form : Form} {id : String} (h : form.readId = .ok id) : isId id = true := by
  unfold Form.readId at h
  dsimp only at h
  split at h
  next hid =>
    cases h
    exact hid
  next => cases h

theorem authorNotes_spec (form : Form) (destination source : Option DocumentPath) :
    Note.AllValid (authorNotes form) ∧ Note.pairsAll destination source (authorNotes form) = [] := by
  unfold authorNotes
  induction (form.childrenNamed "author").filterMap Form.parameterText? with
  | nil => exact ⟨trivial, rfl⟩
  | cons name rest ih => exact ⟨⟨trivial, ih.1⟩, ih.2⟩

/-- A section declares one id at most. -/
theorem idNotes_spec {form : Form} {link : String} {notes : List Note}
    (h : idNotes form link = .ok notes) (destination source : Option DocumentPath) :
    Note.AllValid notes ∧ (Note.pairsAll destination source notes).length ≤ 1 := by
  unfold idNotes at h
  split at h
  next =>
    cases h
    exact ⟨trivial, Nat.zero_le 1⟩
  next idForm _ =>
    obtain ⟨id, hid, rfl⟩ := except_map_eq_ok.1 h
    exact ⟨⟨isId_of_readId hid, trivial⟩, Nat.le_refl 1⟩

theorem metaReading_spec {form : Form} {read : Node × List Entry} {notes : List Note}
    (h : metaReading form = .ok (read, notes)) (destination source : Option DocumentPath) :
    Note.AllValid notes ∧ (Note.pairsAll destination source notes).length ≤ 1 := by
  unfold metaReading at h
  split at h
  next => cases h
  next titleForm _ =>
    obtain ⟨ids, hids, heq⟩ := except_map_eq_ok.1 h
    cases heq
    obtain ⟨hauthors, hnone⟩ := authorNotes_spec form destination source
    obtain ⟨hvalid, hone⟩ := idNotes_spec hids destination source
    refine ⟨hauthors.append hvalid, ?_⟩
    rw [Note.pairsAll_append, hnone]
    exact hone

/-- Only what is said about a section declares an id. -/
theorem Item.reading_spec {item : Item} {read : List Node × List Entry} {notes : List Note}
    (h : item.reading = .ok (read, notes)) (destination source : Option DocumentPath) :
    Note.AllValid notes ∧ (Note.pairsAll destination source notes).length ≤
      (Item.forms [item]).countP (·.atom == "section-meta") := by
  cases item with
  | prose text location =>
    cases h
    exact ⟨trivial, Nat.le_refl 0⟩
  | form root =>
    rw [Item.reading] at h
    split at h
    next hmeta =>
      obtain ⟨found, hfound, heq⟩ := except_map_eq_ok.1 h
      cases heq
      obtain ⟨hvalid, hone⟩ := metaReading_spec hfound destination source
      refine ⟨hvalid, ?_⟩
      simpa [Item.forms, hmeta] using hone
    next =>
      -- the other items note nothing
      have hnotes : notes = [] := by
        split at h
        · obtain ⟨nodes, -, heq⟩ := except_map_eq_ok.1 h
          cases heq
          rfl
        · split at h
          · obtain ⟨id, -, heq⟩ := except_map_eq_ok.1 h
            cases heq
            rfl
          · cases h
            rfl
      subst hnotes
      exact ⟨trivial, Nat.zero_le _⟩

theorem Item.forms_cons (item : Item) (rest : List Item) :
    Item.forms (item :: rest) = Item.forms [item] ++ Item.forms rest := by
  cases item <;> rfl

/-- Items declare as many ids as there are titles at most. -/
theorem Item.readingAll_spec {items : List Item} {read : List Node × List Entry}
    {notes : List Note} (h : Item.readingAll items = .ok (read, notes))
    (destination source : Option DocumentPath) :
    Note.AllValid notes ∧ (Note.pairsAll destination source notes).length ≤
      (Item.forms items).countP (·.atom == "section-meta") := by
  induction items generalizing read notes with
  | nil =>
    cases h
    exact ⟨trivial, Nat.le_refl 0⟩
  | cons item rest ih =>
    rw [Item.readingAll] at h
    obtain ⟨⟨first, firstNotes⟩, hfirst, h⟩ := except_bind_eq_ok.1 h
    obtain ⟨⟨others, otherNotes⟩, hothers, heq⟩ := except_map_eq_ok.1 h
    cases heq
    obtain ⟨hvalid, hfew⟩ := Item.reading_spec hfirst destination source
    obtain ⟨hrest, hless⟩ := ih hothers
    refine ⟨hvalid.append hrest, ?_⟩
    rw [Note.pairsAll_append, List.length_append, Item.forms_cons, List.countP_append]
    exact Nat.add_le_add hfew hless

/-- A form that may stand once stands once at most. -/
theorem countP_atom_of_checkForms {parent : String} {location : Location}
    {rules : List (Rule × Occurrence)} {atom : String} {rule : Rule} {occurrence : Occurrence}
    {number : Nat} (hgoverned : governing? rules atom = some ((rule, occurrence), number))
    (hsingle : occurrence.isSingle = true) {used : List Nat} {forms : List Form}
    (h : checkForms parent location rules used forms = .ok ()) :
    forms.countP (·.atom == atom) ≤ 1 := by
  have hfits := checkForms_eq_ok_iff_fitsAfter.1 h
  have hone := (hfits.single _ _ (mem_of_governing? hgoverned) hsingle).1
  exact Nat.le_trans (countP_atom_le_usedBy hgoverned forms) hone

theorem Page.outcome_spec (page : Page) (destination source : Option DocumentPath) :
    Note.AllValid page.outcome.2 ∧ Note.pairsAll destination source page.outcome.2 = [] := by
  unfold Page.outcome
  split
  · exact ⟨trivial, rfl⟩
  · dsimp only
    split
    · exact ⟨⟨trivial, trivial⟩, rfl⟩
    · exact ⟨trivial, rfl⟩

/-- A page declares at most one id. -/
theorem Page.reading_spec {document : Coordinate} {text : String} {page : Option Page}
    {notes : List Note} (h : Page.reading document text = .ok (page, notes))
    (destination source : Option DocumentPath) :
    Note.AllValid notes ∧ (Note.pairsAll destination source notes).length ≤ 1 := by
  unfold Page.reading at h
  obtain ⟨items, -, h⟩ := except_bind_eq_ok.1 h
  unfold Page.readingOf at h
  obtain ⟨_, hcheck, h⟩ := except_bind_eq_ok.1 h
  obtain ⟨⟨read, readNotes⟩, hread, heq⟩ := except_map_eq_ok.1 h
  cases heq
  have hforms : checkForms Grammar.document.name document.start Grammar.document.root []
      (Item.forms items) = .ok () := by
    rw [Grammar.check_eq] at hcheck
    exact hcheck
  have hsection : governing? Grammar.document.root "section-meta" =
      some ((Grammar.sectionMeta, .atMostOnce), 0) := rfl
  -- ids are declared by a `section-meta` only, and the grammar lets one through
  obtain ⟨hvalid, hfew⟩ := Item.readingAll_spec hread destination source
  obtain ⟨hnoted, hnone⟩ :=
    Page.outcome_spec ⟨document.start, read.1, read.2⟩ destination source
  refine ⟨hvalid.append hnoted, ?_⟩
  rw [Note.pairsAll_append, hnone, List.append_nil]
  exact Nat.le_trans hfew (countP_atom_of_checkForms hsection rfl hforms)

/-- The notes of a page can be entered in a table that knows no ids. -/
theorem Page.exists_enterAll_new {document : Coordinate} {text : String} {page : Option Page}
    {notes : List Note} (h : Page.reading document text = .ok (page, notes)) :
    ∃ after, Note.enterAll notes Table.new = some after := by
  obtain ⟨hvalid, hone⟩ :=
    Page.reading_spec h Table.new.destination? Table.new.source?
  refine Note.exists_enterAll Table.sound_new notes hvalid ?_
  intro id target other htarget hother
  have hmem : ∀ found, (Table.new.id? id = some found ∨
      (id, found) ∈ Note.pairsAll Table.new.destination? Table.new.source? notes) →
      (id, found) ∈ Note.pairsAll Table.new.destination? Table.new.source? notes := by
    intro found hor
    rw [Table.id?_new] at hor
    exact hor.resolve_left (by simp)
  -- there is one pair at most, so both are that one
  have htarget := hmem target htarget
  have hother := hmem other hother
  obtain ⟨pair, hpair⟩ := List.length_eq_one_iff.1
    (Nat.le_antisymm hone (List.length_pos_of_mem htarget))
  rw [hpair, List.mem_singleton] at htarget hother
  exact congrArg Prod.snd (htarget.trans hother.symm)

/-- **A document says what it says to a table that knows no ids.** -/
theorem Page.ofText_new_eq_ok_iff {document : Coordinate} (hdepth : 1 ≤ document.depth)
    (hindex : 1 ≤ document.index) {text : String} {page : Option Page} :
    (Page.ofText document text Table.new).1 = .ok page ↔ Page.said document text = .ok page := by
  rw [Page.said_eq_ok_iff]
  constructor
  · intro h
    have hpair : Page.ofText document text Table.new =
        (.ok page, (Page.ofText document text Table.new).2) := Prod.ext h rfl
    obtain ⟨notes, hread, -⟩ := (Page.ofText_eq_ok_iff hdepth hindex).1 hpair
    exact ⟨notes, hread⟩
  · rintro ⟨notes, hread⟩
    obtain ⟨after, hafter⟩ := Page.exists_enterAll_new hread
    rw [(Page.ofText_eq_ok_iff hdepth hindex).2 ⟨notes, hread, hafter⟩]

end Bindery
