import Bindery.Project
import Bindery.Proofs.Form.Printing
import Bindery.Proofs.Grammar.Acceptance
import Bindery.Proofs.Path.Canonical
import Bindery.Proofs.Source.Wrapping
import Mathlib.Data.List.Find
import Mathlib.Data.List.Nodup

/-!
# `Proofs.Project.Listing` — a project file lists its documents

Documents are written down in a project file as forms, with the fields of each in any order and blanks of any kind around
them. Whatever text results, the project that is read from it has these documents in this order: no field is taken for
another, and none is lost and replaced by a default.

## Contents
- `Written.unified`: line ends among the blanks do not matter.
- `Form.child?_shape`, `Form.childText_eq`: what is looked up in a form by its shape.
- `Listing`, `Lists`: documents as a project file lists them, and its texts; `lists_printed`.
- `Listing.check_documents`, `Listing.readDocuments_eq`: the grammar, and what is read.
- `Project.ofText_lists`: reading undoes listing.
-/

namespace Bindery

open Source Text

/-! ## Line ends among blanks -/

theorem isBlank_of_mem_unifyNewlines {blanks : List Char} (h : ∀ c ∈ blanks, isBlank c = true) :
    ∀ c ∈ unifyNewlines blanks, isBlank c = true := by
  have hnewline : isBlank '\n' = true := by decide
  fun_induction unifyNewlines blanks with
  | case1 => exact h
  | case2 rest ih =>
    obtain ⟨-, -, hrest⟩ := by simpa using h
    exact List.forall_mem_cons.2 ⟨hnewline, ih hrest⟩
  | case3 rest _ ih =>
    exact List.forall_mem_cons.2 ⟨hnewline, ih (List.forall_mem_cons.1 h).2⟩
  | case4 c rest _ _ ih =>
    obtain ⟨hc, hrest⟩ := List.forall_mem_cons.1 h
    exact List.forall_mem_cons.2 ⟨hc, ih hrest⟩

theorem unifyNewlines_ne_nil {cs : List Char} (h : cs ≠ []) : unifyNewlines cs ≠ [] := by
  fun_cases unifyNewlines cs with
  | case1 => exact absurd rfl h
  | case2 => exact List.cons_ne_nil _ _
  | case3 => exact List.cons_ne_nil _ _
  | case4 => exact List.cons_ne_nil _ _

/-- A parameter begins with a character that is no blank, so a line end before it ends there. -/
theorem WrittenParameter.unified {parameter : Option String} {words : List Char}
    (h : WrittenParameter parameter words) :
    ∃ words', WrittenParameter parameter words' ∧
      ∀ rest, unifyNewlines (words ++ rest) = words' ++ unifyNewlines rest := by
  cases h with
  | absent => exact ⟨[], .absent, fun _ => rfl⟩
  | @present text blanks htext hsome hblanks =>
    refine ⟨_, .present htext (unifyNewlines_ne_nil hsome) (isBlank_of_mem_unifyNewlines hblanks),
      fun rest => ?_⟩
    have hchars : text.toList ≠ [] := fun heq => htext.nonempty (String.toList_eq_nil_iff.1 heq)
    obtain ⟨c, chars, hchars⟩ := List.exists_cons_of_ne_nil hchars
    obtain ⟨d, more, hescaped, hd, -⟩ := head_escaped c chars
    have hnewline : d ≠ '\n' := by
      rcases hd with rfl | rfl
      · decide
      · rintro rfl
        exact absurd (htext.head '\n' (by rw [hchars]; rfl)) (by decide)
    have hreturn := not_mem_escaped htext.unified (by decide)
    rw [List.append_assoc, List.append_assoc, ← unifyNewlines_plain_append hreturn, hchars, hescaped]
    exact unifyNewlines_append hnewline blanks (more ++ rest)

/-- **Line ends among the blanks do not matter**: what was written down still is when they are unified. -/
theorem Written.unified {shapes : List Shape} {cs : List Char} (h : Written shapes cs) :
    Written shapes (unifyNewlines cs) := by
  induction h with
  | nil hblanks => exact .nil (isBlank_of_mem_unifyNewlines hblanks)
  | @cons atom parameter children rest blanks words inner more hblanks hatom hparameter _ _
      ihChildren ihRest =>
    obtain ⟨words', hwords, hunified⟩ := hparameter.unified
    have hname : '\r' ∉ '(' :: atom.toList := by
      intro hmem
      rcases List.mem_cons.1 hmem with hparen | hmem
      · exact absurd hparen (by decide)
      · exact absurd (hatom.plain _ hmem).1 (by decide)
    have hclose : unifyNewlines (')' :: more) = ')' :: unifyNewlines more :=
      unifyNewlines_plain_append (show '\r' ∉ [')'] by decide) more
    have hform : unifyNewlines (blanks ++ '(' :: ((atom.toList ++ (words ++ inner)) ++ ')' :: more)) =
        unifyNewlines blanks ++
          '(' :: ((atom.toList ++ (words' ++ unifyNewlines inner)) ++ ')' :: unifyNewlines more) := by
      calc unifyNewlines (blanks ++ '(' :: ((atom.toList ++ (words ++ inner)) ++ ')' :: more))
          = unifyNewlines blanks ++
              unifyNewlines (('(' :: atom.toList) ++ (words ++ (inner ++ ')' :: more))) := by
            rw [unifyNewlines_append (by decide)]
            simp
        _ = _ := by
            rw [unifyNewlines_plain_append hname, hunified, unifyNewlines_append (by decide), hclose]
            simp
    rw [hform]
    exact .cons (isBlank_of_mem_unifyNewlines hblanks) hatom hwords ihChildren ihRest

/-- What is read of a file of directives, whatever its line ends. -/
theorem Written.readsBack {shapes : List Shape} {text : String} (h : Written shapes text.toList)
    {document : Coordinate} (hdepth : 1 ≤ document.depth) (hindex : 1 ≤ document.index)
    (hkind : DocumentPath.Kind.ofExtension? document.extension? ≠ .markdown) :
    ReadsBack document text shapes := by
  have hreturn := not_mem_unifyNewlines text.toList
  have hread := h.unified.readsBack_directives hreturn hdepth hindex hkind
  have hsame : split document (String.ofList (unifyNewlines text.toList)) = split document text := by
    rw [split_eq hdepth hindex hreturn, split_valid hdepth hindex]
  unfold ReadsBack at hread ⊢
  rwa [hsame] at hread

/-! ## Looking up fields -/

theorem Form.shape_eq (form : Form) :
    form.shape = ⟨form.atom, form.parameterText?, form.children.map Form.shape⟩ := by
  cases form
  rw [Form.shape, Form.shapes_eq_map]
  rfl

@[simp] theorem Form.atom_shape (form : Form) : form.shape.atom = form.atom := by rw [shape_eq]

@[simp] theorem Form.parameter_shape (form : Form) :
    form.shape.parameter = form.parameterText? := by rw [shape_eq]

@[simp] theorem Form.children_shape (form : Form) :
    form.shape.children = form.children.map Form.shape := by rw [shape_eq]

/-- The first of some shapes with the given atom. -/
def Shape.field? (shapes : List Shape) (atom : String) : Option Shape :=
  shapes.find? (·.atom == atom)

/-- Looking up a sub-form depends on the shapes of the sub-forms only. -/
theorem Form.child?_shape (form : Form) (atom : String) :
    (form.child? atom).map Form.shape = Shape.field? form.shape.children atom := by
  rw [Form.child?, Shape.field?, children_shape, List.find?_map]
  congr 2
  funext child
  simp

theorem Form.childText_eq (form : Form) (atom : String) :
    form.childText atom =
      ((Shape.field? form.shape.children atom).bind Shape.parameter).getD "" := by
  rw [← Form.child?_shape, Form.childText]
  cases form.child? atom with
  | none => rfl
  | some child => simp

/-- Where all atoms differ, it does not matter in which order the shapes are. -/
theorem Shape.field?_of_perm {shapes fields : List Shape} (h : shapes.Perm fields)
    (hnodup : (fields.map Shape.atom).Nodup) (atom : String) :
    Shape.field? shapes atom = Shape.field? fields atom := by
  refine List.find?_eq_find?_of_perm h ?_
  rintro first ⟨hfirst, hatom⟩ second ⟨hsecond, hatom'⟩
  have hsame : first.atom = second.atom := by
    rw [beq_iff_eq.1 hatom, beq_iff_eq.1 hatom']
  exact List.inj_on_of_nodup_map hnodup (h.mem_iff.1 hfirst) (h.mem_iff.1 hsecond) hsame

/-! ## Ids -/

theorem isIdChar_or_hyphen_of_finishesId {inWord : Bool} {cs : List Char}
    (h : finishesId inWord cs = true) : ∀ c ∈ cs, isIdChar c = true ∨ c = '-' := by
  induction cs generalizing inWord with
  | nil => exact List.forall_mem_nil _
  | cons c rest ih =>
    rw [finishesId] at h
    split at h
    next hc => exact List.forall_mem_cons.2 ⟨.inl hc, ih h⟩
    next =>
      simp only [Bool.and_eq_true, beq_iff_eq] at h
      exact List.forall_mem_cons.2 ⟨.inr h.1.1, ih h.2⟩

theorem isBlank_eq_false_of_isIdChar {c : Char} (h : isIdChar c = true) : isBlank c = false := by
  have hrange : 97 ≤ c.toNat ∧ c.toNat ≤ 122 ∨ 48 ≤ c.toNat ∧ c.toNat ≤ 57 := by
    simpa [isIdChar, Char.le_def, UInt32.le_iff_toNat_le] using h
  rw [Bool.eq_false_iff, isBlank, Ne, Ranges.contains_iff]
  rintro ⟨range, hmem, hlow, hhigh⟩
  simp only [blank, List.mem_cons, List.not_mem_nil, or_false] at hmem
  rcases hmem with rfl | rfl | rfl | rfl | rfl | rfl | rfl | rfl | rfl | rfl <;>
    simp only at hlow hhigh <;> omega

theorem isBlank_eq_false_of_isId {id : String} (h : isId id = true) :
    ∀ c ∈ id.toList, isBlank c = false := by
  intro c hc
  rcases isIdChar_or_hyphen_of_finishesId h c hc with hword | rfl
  · exact isBlank_eq_false_of_isIdChar hword
  · decide

/-- An id can be written as a parameter. -/
theorem isParameter_of_isId {id : String} (h : isId id = true) : IsParameter id := by
  have hblank := isBlank_eq_false_of_isId h
  refine ⟨?_, ?_, ?_, ?_⟩
  · rintro rfl
    cases h
  · intro hmem
    exact absurd (hblank _ hmem) (by decide)
  · intro c hc
    exact hblank c (List.mem_of_mem_head? hc)
  · intro c hc
    exact hblank c (List.mem_of_mem_getLast? hc)

theorem trimStart_eq_self {cs : List Char} (h : ∀ c ∈ cs.head?, isBlank c = false) :
    trimStart cs = cs := by
  cases cs with
  | nil => rfl
  | cons c rest => rw [trimStart, List.dropWhile_cons_of_neg (by simp [h c rfl])]

/-- A text that can be written as a parameter has nothing to be trimmed. -/
theorem IsParameter.trimmed_eq {text : String} (h : IsParameter text) : trimmed text = text := by
  rw [trimmed, trim, trimEnd_eq_self h.last, trimStart_eq_self h.head, String.ofList_toList]

/-! ## Documents as they are listed -/

/-- A document as a project file lists it. -/
structure Listing where
  source : String
  output : String
  id : Option String
deriving DecidableEq, Repr

/-- What a project says about a document, apart from where it says so. -/
def ProjectDocument.content (document : ProjectDocument) :
    DocumentPath × DocumentPath × Option String :=
  (document.source, document.output, document.id)

namespace Listing

/-- What the project at `path` says about a document that is listed there. -/
def content (path : DocumentPath) (listing : Listing) : DocumentPath × DocumentPath × Option String :=
  (path.sibling listing.source, path.sibling listing.output, listing.id)

/-- Whether a document can be listed: its texts can be written as parameters, and its id is one. -/
structure Valid (listing : Listing) : Prop where
  source : IsParameter listing.source
  output : IsParameter listing.output
  id : ∀ id ∈ listing.id, isId id = true

/-- The fields of a document. -/
def fields (listing : Listing) : List Shape :=
  ⟨"source", some listing.source, []⟩ :: ⟨"output", some listing.output, []⟩ ::
    listing.id.toList.map fun id => ⟨"id", some id, []⟩

/-- A form lists a document: it holds the fields, in any order. -/
structure Entry (listing : Listing) (shape : Shape) : Prop where
  atom : shape.atom = "document"
  parameter : shape.parameter = none
  children : shape.children.Perm listing.fields

theorem nodup_fields (listing : Listing) : (listing.fields.map Shape.atom).Nodup := by
  cases hid : listing.id <;> simp [fields, hid]

theorem mem_fields_iff {listing : Listing} {shape : Shape} :
    shape ∈ listing.fields ↔ shape = ⟨"source", some listing.source, []⟩ ∨
      shape = ⟨"output", some listing.output, []⟩ ∨
      ∃ id, listing.id = some id ∧ shape = ⟨"id", some id, []⟩ := by
  cases hid : listing.id <;> simp [fields, hid]

/-- What is looked up in a form that lists a document are its fields. -/
theorem Entry.field?_eq {listing : Listing} {shape : Shape} (h : listing.Entry shape) (atom : String) :
    Shape.field? shape.children atom = Shape.field? listing.fields atom :=
  Shape.field?_of_perm h.children listing.nodup_fields atom

/-! ## What is read -/

variable {listing : Listing} {form : Form}

theorem childText_source (h : listing.Entry form.shape) : form.childText "source" = listing.source := by
  rw [Form.childText_eq, h.field?_eq]
  rfl

theorem childText_output (h : listing.Entry form.shape) : form.childText "output" = listing.output := by
  rw [Form.childText_eq, h.field?_eq]
  rfl

/-- An id is read as it is, and where there is none it is not made up. -/
theorem readDocumentId_eq (h : listing.Entry form.shape) (hid : ∀ id ∈ listing.id, isId id = true) :
    readDocumentId form = .ok listing.id := by
  have hchild := form.child?_shape "id"
  rw [h.field?_eq] at hchild
  unfold readDocumentId
  cases hlisted : listing.id with
  | none =>
    have hnone : Shape.field? listing.fields "id" = none := by simp [fields, hlisted, Shape.field?]
    rw [hnone, Option.map_eq_none_iff] at hchild
    rw [hchild]
  | some id =>
    have hsome : Shape.field? listing.fields "id" = some ⟨"id", some id, []⟩ := by
      simp [fields, hlisted, Shape.field?]
    rw [hsome] at hchild
    obtain ⟨idForm, hidForm, hshape⟩ := Option.map_eq_some_iff.1 hchild
    have htext : idForm.parameterText = id := by
      rw [Form.parameterText, ← Form.parameter_shape, hshape]
      rfl
    have hvalid := hid id hlisted
    rw [hidForm]
    simp only [Form.readId, htext, (isParameter_of_isId hvalid).trimmed_eq, hvalid, if_true]
    rfl

theorem readDocuments_eq (path : DocumentPath) {listings : List Listing} {forms : List Form}
    (h : List.Forall₂ Entry listings (forms.map Form.shape))
    (hid : ∀ listing ∈ listings, ∀ id ∈ listing.id, isId id = true) :
    ∃ documents, readDocuments path forms = .ok documents ∧
      documents.map ProjectDocument.content = listings.map (Listing.content path) := by
  induction forms generalizing listings with
  | nil =>
    cases h
    exact ⟨[], rfl, rfl⟩
  | cons form rest ih =>
    cases h with
    | @cons listing _ others _ hentry hrest =>
      obtain ⟨documents, hread, hcontent⟩ :=
        ih hrest fun other hother => hid other (List.mem_cons_of_mem _ hother)
      have hfirst := readDocumentId_eq hentry (hid listing List.mem_cons_self)
      refine ⟨⟨path.sibling listing.source, path.sibling listing.output, listing.id,
        form.location⟩ :: documents, ?_, ?_⟩
      · rw [readDocuments, readDocument, hfirst, childText_source hentry, childText_output hentry, hread]
        rfl
      · rw [List.map_cons, List.map_cons, hcontent]
        rfl

/-! ## What the grammar asks for -/

/-- A field with a text and nothing inside of it follows its rule. -/
theorem check_field {name text atom : String} {child : Form} (h : child.shape = ⟨atom, some text, []⟩) :
    (Rule.exactly name .required []).check child = .ok () := by
  rw [Form.shape_eq] at h
  obtain ⟨atom', location, parameter, children⟩ := child
  obtain ⟨-, hparameter, hchildren⟩ := Shape.mk.inj h
  obtain ⟨found, rfl, -⟩ := Option.map_eq_some_iff.1 hparameter
  cases List.map_eq_nil_iff.1 hchildren
  rw [Rule.check_mk]
  rfl

theorem exists_governing_field {shape : Shape} (h : shape ∈ listing.fields) :
    ∃ name occurrence number text, governing? Grammar.documentFields shape.atom =
      some ((.exactly name .required [], occurrence), number) ∧
      shape = ⟨shape.atom, some text, []⟩ := by
  rcases mem_fields_iff.1 h with rfl | rfl | ⟨id, -, rfl⟩
  · exact ⟨"source", .once, 0, listing.source, rfl, rfl⟩
  · exact ⟨"output", .once, 1, listing.output, rfl, rfl⟩
  · exact ⟨"id", .atMostOnce, 2, id, rfl, rfl⟩

/-- Each field is there as often as it has to be. -/
theorem permits_fields (listing : Listing) {entry : Rule × Occurrence} {number : Nat}
    (h : (entry, number) ∈ Grammar.documentFields.zipIdx) :
    entry.2.Permits (usedBy Grammar.documentFields number (listing.fields.map Shape.atom)) := by
  have hatoms : listing.fields.map Shape.atom =
      if listing.id.isSome then ["source", "output", "id"] else ["source", "output"] := by
    cases hid : listing.id <;> simp [fields, hid]
  rw [hatoms]
  simp only [Grammar.documentFields, List.zipIdx_cons, List.zipIdx_nil, List.mem_cons, List.not_mem_nil,
    or_false, Prod.mk.injEq] at h
  rcases h with ⟨rfl, rfl⟩ | ⟨rfl, rfl⟩ | ⟨rfl, rfl⟩ <;> split <;> decide

/-- **A form that lists a document follows its rule**, whatever the order of the fields. -/
theorem check_document (h : listing.Entry form.shape) : Grammar.listedDocument.check form = .ok () := by
  obtain ⟨hatom, hparameter, hchildren⟩ := h
  rw [Form.children_shape] at hchildren
  obtain ⟨atom, location, parameter, children⟩ := form
  have hnone : parameter = none := by simpa [Form.parameterText?] using hparameter
  subst hnone
  have hforms : checkForms atom location Grammar.documentFields [] children = .ok () := by
    refine checkForms_eq_ok_iff.2 ⟨fun child hchild => ?_, fun entry number hentry => ?_⟩
    · have hfield := hchildren.mem_iff.1 (List.mem_map_of_mem hchild)
      obtain ⟨name, occurrence, number, text, hgoverned, hshape⟩ := exists_governing_field hfield
      rw [Form.atom_shape] at hgoverned
      exact ⟨_, occurrence, number, hgoverned, check_field hshape⟩
    · have hatoms : (children.map Form.atom).Perm (listing.fields.map Shape.atom) := by
        have hmapped := hchildren.map Shape.atom
        rw [List.map_map] at hmapped
        have hsame : Shape.atom ∘ Form.shape = Form.atom := funext Form.atom_shape
        rwa [hsame] at hmapped
      rw [usedBy_perm Grammar.documentFields number hatoms]
      exact permits_fields listing hentry
  rw [Rule.check_mk]
  exact hforms

/-- Every form that lists documents lists one of them. -/
theorem exists_listing_of_mem {listings : List Listing} {entries : List Shape}
    (h : List.Forall₂ Entry listings entries) {shape : Shape} (hshape : shape ∈ entries) :
    ∃ listing ∈ listings, listing.Entry shape := by
  induction h with
  | nil => cases hshape
  | cons hentry _ ih =>
    rcases List.mem_cons.1 hshape with rfl | hshape
    · exact ⟨_, List.mem_cons_self, hentry⟩
    · obtain ⟨listing, hlisting, hfound⟩ := ih hshape
      exact ⟨listing, List.mem_cons_of_mem _ hlisting, hfound⟩

theorem check_documents {listings : List Listing} (hsome : listings ≠ []) {root : Form}
    (hparameter : root.parameterText? = none)
    (h : List.Forall₂ Entry listings (root.children.map Form.shape)) :
    Grammar.listedDocuments.check root = .ok () := by
  obtain ⟨atom, location, parameter, children⟩ := root
  have hnone : parameter = none := by simpa [Form.parameterText?] using hparameter
  subst hnone
  have hgoverned : ∀ child ∈ children, governing? [(Grammar.listedDocument, .atLeastOnce)] child.atom =
      some ((Grammar.listedDocument, .atLeastOnce), 0) := by
    intro child hchild
    obtain ⟨listing, -, hentry⟩ := exists_listing_of_mem h (List.mem_map_of_mem hchild)
    rw [← Form.atom_shape, hentry.atom]
    rfl
  have hforms : checkForms atom location [(Grammar.listedDocument, .atLeastOnce)] [] children = .ok () := by
    refine checkForms_eq_ok_iff.2 ⟨fun child hchild => ?_, fun entry number hentry => ?_⟩
    · obtain ⟨listing, -, hchecked⟩ := exists_listing_of_mem h (List.mem_map_of_mem hchild)
      exact ⟨Grammar.listedDocument, .atLeastOnce, 0, hgoverned child hchild, check_document hchecked⟩
    · obtain ⟨rfl, rfl⟩ : entry = (Grammar.listedDocument, .atLeastOnce) ∧ number = 0 := by simpa using hentry
      cases children with
      | nil =>
        cases h
        exact absurd rfl hsome
      | cons first rest =>
        have hfirst : governedBy [(Grammar.listedDocument, .atLeastOnce)] 0 first.atom = true := by
          rw [governedBy, hgoverned first List.mem_cons_self]
          rfl
        exact List.countP_pos_iff.2 ⟨first.atom, List.mem_cons_self, hfirst⟩
  rw [Rule.check_mk]
  exact hforms

/-- **A list of documents is what a project file has to be.** -/
theorem check_project {listings : List Listing} (hsome : listings ≠ []) {root : Form}
    (hatom : root.atom = "documents") (hparameter : root.parameterText? = none)
    (h : List.Forall₂ Entry listings (root.children.map Form.shape)) (start : Location) :
    Grammar.project.check start [.form root] = .ok () := by
  have hforms : checkForms Grammar.project.name start Grammar.project.root [] [root] = .ok () := by
    rw [show Grammar.project.root = [(Grammar.listedDocuments, .once)] from rfl]
    refine checkForms_eq_ok_iff.2 ⟨fun form hform => ?_, fun entry number hentry => ?_⟩
    · cases List.mem_singleton.1 hform
      refine ⟨Grammar.listedDocuments, .once, 0, ?_, check_documents hsome hparameter h⟩
      rw [hatom]
      rfl
    · obtain ⟨rfl, rfl⟩ : entry = (Grammar.listedDocuments, .once) ∧ number = 0 := by simpa using hentry
      rw [List.map_singleton, hatom]
      decide
  rw [Grammar.check_eq]
  exact hforms

theorem childrenNamed_document {listings : List Listing} {root : Form}
    (h : List.Forall₂ Entry listings (root.children.map Form.shape)) :
    root.childrenNamed "document" = root.children := by
  rw [Form.childrenNamed, List.filter_eq_self]
  intro child hchild
  obtain ⟨listing, -, hentry⟩ := exists_listing_of_mem h (List.mem_map_of_mem hchild)
  rw [← Form.atom_shape, hentry.atom]
  rfl

end Listing

/-! ## Project files -/

/-- The form of a project that has its documents in some forms. -/
def documentsShape (entries : List Shape) : Shape := ⟨"documents", none, entries⟩

/-- The texts that list documents: each in a form of its own, with its fields in any order. -/
def Lists (listings : List Listing) (text : String) : Prop :=
  ∃ entries, List.Forall₂ Listing.Entry listings entries ∧
    Written [documentsShape entries] text.toList

theorem Listing.Valid.printable {listing : Listing} (h : listing.Valid) {shape : Shape}
    (hentry : listing.Entry shape) : shape.Printable := by
  obtain ⟨atom, parameter, children⟩ := shape
  obtain ⟨rfl, rfl, hchildren⟩ := hentry
  refine .mk (by decide) (by simp) fun child hchild => ?_
  have hnone : ∀ other ∈ ([] : List Shape), other.Printable := List.forall_mem_nil _
  rcases Listing.mem_fields_iff.1 (hchildren.mem_iff.1 hchild) with rfl | rfl | ⟨id, hid, rfl⟩
  · exact .mk (by decide) (by simpa using h.source) hnone
  · exact .mk (by decide) (by simpa using h.output) hnone
  · exact .mk (by decide) (by simpa using isParameter_of_isId (h.id id hid)) hnone

/-- Documents can be listed in print, whatever the order of their fields. -/
theorem lists_printed {listings : List Listing} (h : ∀ listing ∈ listings, listing.Valid)
    {entries : List Shape} (hentries : List.Forall₂ Listing.Entry listings entries) :
    Lists listings (printForest [documentsShape entries]) := by
  refine ⟨entries, hentries, ?_⟩
  rw [printForest, String.toList_ofList]
  refine written_printForest fun shape hshape => ?_
  cases List.mem_singleton.1 hshape
  refine .mk (by decide) (by simp) fun entry hentry => ?_
  obtain ⟨listing, hlisting, hfound⟩ := Listing.exists_listing_of_mem hentries hentry
  exact (h listing hlisting).printable hfound

/-- **A project file is read as the documents that it lists.** -/
theorem Project.ofText_lists {listings : List Listing} (hsome : listings ≠ [])
    (hvalid : ∀ listing ∈ listings, listing.Valid) (raw base : String)
    (hextension : (DocumentPath.resolve raw base).extension? = some "dlproj") :
    (∀ entries, List.Forall₂ Listing.Entry listings entries →
      Lists listings (printForest [documentsShape entries])) ∧
    ∀ text, Lists listings text →
      ∃ documents, Project.ofText (.resolve raw base) text = .ok ⟨.resolve raw base, documents⟩ ∧
        documents.map ProjectDocument.content =
          listings.map (Listing.content (.resolve raw base)) := by
  refine ⟨fun entries hentries => lists_printed hvalid hentries, ?_⟩
  rintro text ⟨entries, hentries, hwritten⟩
  generalize hpath : DocumentPath.resolve raw base = path at hextension ⊢
  have hkind : DocumentPath.Kind.ofExtension? (Coordinate.extension? ⟨path.text, 1, 1⟩) ≠ .markdown := by
    have hparts : Path.components path.text = path.parts := by
      rw [← hpath]
      exact DocumentPath.components_text (DocumentPath.canonical_resolve raw base)
    rw [Coordinate.extension?, Path.extension?, hparts]
    rw [DocumentPath.extension?] at hextension
    rw [hextension]
    decide
  obtain ⟨parts, tokens, forms, hparts, htokens, hforms, hshapes⟩ :=
    hwritten.readsBack (Nat.le_refl 1) (Nat.le_refl 1) hkind
  obtain ⟨root, rfl, hroot⟩ := List.map_eq_singleton_iff.1 hshapes
  rw [Form.shape_eq] at hroot
  obtain ⟨hatom, hparameter, rfl⟩ := Shape.mk.inj hroot
  obtain ⟨documents, hread, hcontent⟩ := Listing.readDocuments_eq path hentries
    fun listing hlisting => (hvalid listing hlisting).id
  refine ⟨documents, ?_, hcontent⟩
  have hcheck := Listing.check_project hsome hatom hparameter hentries
    (Coordinate.start ⟨path.text, 1, 1⟩)
  have hlisted : (Item.forms [.form root]).flatMap (·.childrenNamed "document") = root.children := by
    simp [Item.forms, Listing.childrenNamed_document hentries]
  have hmake : Coordinate.make path.text 1 1 = .ok ⟨path.text, 1, 1⟩ := rfl
  rw [List.map_singleton] at hforms
  unfold Project.ofText
  simp only [hmake, hparts, htokens, hforms, hcheck, hlisted, hread, bind, Except.bind, Except.mapError,
    List.isEmpty_cons, Bool.false_eq_true, if_false]
  rfl

/-- Two documents: one with texts that look like a block and like a remark, and one with an id. -/
def quotedListings : List Listing :=
  [⟨"a(dl b)\\", "../(* x", none⟩, ⟨"s", "o", some "i-1"⟩]

/-- Forms that list these documents, both with their fields the other way around. -/
def quotedEntries : List Shape :=
  [⟨"document", none, [⟨"output", some "../(* x", []⟩, ⟨"source", some "a(dl b)\\", []⟩]⟩,
   ⟨"document", none, [⟨"id", some "i-1", []⟩, ⟨"output", some "o", []⟩, ⟨"source", some "s", []⟩]⟩]

/-- The two documents are read back in their order, also with a line end before them that is not unified. -/
theorem Project.ofText_lists_quoted : ∃ documents,
    printForest [documentsShape quotedEntries] =
      "(documents(document(output ../\\(* x)(source a\\(dl b\\)\\\\))(document(id i-1)(output o)(source s)))" ∧
    Project.ofText (.resolve "p.dlproj" "/d") ("\r\n" ++ printForest [documentsShape quotedEntries]) =
      .ok ⟨.resolve "p.dlproj" "/d", documents⟩ ∧
    documents.map ProjectDocument.content =
      [(.resolve "/d/a(dl b)\\" "", .resolve "/(* x" "", none),
       (.resolve "/d/s" "", .resolve "/d/o" "", some "i-1")] := by
  have hvalid : ∀ listing ∈ quotedListings, listing.Valid := by
    have hfirst : Listing.Valid ⟨"a(dl b)\\", "../(* x", none⟩ :=
      ⟨by decide, by decide, by simp⟩
    have hsecond : Listing.Valid ⟨"s", "o", some "i-1"⟩ :=
      ⟨by decide, by decide, by simpa using (by decide : isId "i-1" = true)⟩
    simpa [quotedListings] using ⟨hfirst, hsecond⟩
  have hentries : List.Forall₂ Listing.Entry quotedListings quotedEntries := by
    have hreversed := List.reverse_perm (Listing.fields ⟨"s", "o", some "i-1"⟩)
    exact .cons ⟨rfl, rfl, .swap _ _ _⟩ (.cons ⟨rfl, rfl, hreversed⟩ .nil)
  obtain ⟨hprinted, hread⟩ := Project.ofText_lists (List.cons_ne_nil _ _) hvalid "p.dlproj" "/d"
    (by decide +kernel)
  obtain ⟨entries, hlisted, hwritten⟩ := hprinted quotedEntries hentries
  have hblanks : ∀ c ∈ ['\r', '\n'], Text.isBlank c = true := List.all_eq_true.1 (by decide)
  have hlists : Lists quotedListings ("\r\n" ++ printForest [documentsShape quotedEntries]) := by
    refine ⟨entries, hlisted, ?_⟩
    rw [String.toList_append]
    exact hwritten.blank_append hblanks
  obtain ⟨documents, hproject, hcontent⟩ := hread _ hlists
  refine ⟨documents, by decide +kernel, hproject, ?_⟩
  rw [hcontent]
  decide +kernel

end Bindery
