import Bindery.Project
import Bindery.Proofs.Source.Faults

/-!
# `Proofs.Project.Faults` — faults point into the text

What is found wrong with a text is reported with a line and a column, by the scanners as well as by all that is built on
them: a form knows the place of its parenthesis, and a parameter that of its first character. What a document lacks as
a whole is reported at its start, and a document that lacks something is not empty. So there is a character wherever a
fault points, in documents and in project files.

## Contents
- `Form.Located`, `readItems_blames`: forms whose places are all known.
- `Grammar.check_blames`: what the grammar blames.
- `ReadM.Blames`, `Page.ofTokens_blames`: what the reader of pages blames; `readDocuments_blames`: that of projects.
- `StandsIn`, `Failure.PointsInto`, `faults_point_into_text`.
-/

namespace Bindery

open Source

variable {P : Location → Prop}

/-! ## Forms -/

/-- The form, its parameter and all its sub-forms are at places where `P` holds. -/
inductive Form.Located (P : Location → Prop) : Form → Prop where
  | mk {form : Form} (place : P form.location)
      (parameter : ∀ parameter ∈ form.parameter, P parameter.location)
      (children : ∀ child ∈ form.children, Located P child) : Located P form

namespace Form.Located

variable {form : Form}

theorem place (h : form.Located P) : P form.location := by
  cases h with
  | mk place _ _ => exact place

theorem parameterPlace (h : form.Located P) : ∀ parameter ∈ form.parameter, P parameter.location := by
  cases h with
  | mk _ parameter _ => exact parameter

theorem children (h : form.Located P) : ∀ child ∈ form.children, child.Located P := by
  cases h with
  | mk _ _ children => exact children

/-- Sub-forms of a located form are located, however they are looked up. -/
theorem of_child? (h : form.Located P) {atom : String} {child : Form}
    (hchild : form.child? atom = some child) : child.Located P :=
  h.children child (List.mem_of_find?_eq_some hchild)

theorem of_childrenNamed (h : form.Located P) {atom : String} {child : Form}
    (hchild : child ∈ form.childrenNamed atom) : child.Located P :=
  h.children child (List.mem_filter.1 hchild).1

/-- Where a fault in the parameter is blamed, or for want of one the form. -/
theorem parameterLocation (h : form.Located P) : P form.parameterLocation := by
  unfold Form.parameterLocation
  split
  next parameter hparameter => exact h.parameterPlace parameter hparameter
  next => exact h.place

/-- A located form grows by a located sub-form. -/
theorem addChild {child : Form} (h : form.Located P) (hchild : child.Located P) :
    (form.addChild child).Located P := by
  refine .mk h.place h.parameterPlace ?_
  intro other hother
  rcases List.mem_append.1 hother with hother | hother
  · exact h.children other hother
  · rw [List.mem_singleton.1 hother]
    exact hchild

end Form.Located

/-- The item is at places where `P` holds. -/
def Item.Located (P : Location → Prop) : Item → Prop
  | .prose _ location => P location
  | .form root => root.Located P

/-- **The reader of items blames tokens and open forms.** Open forms stay located as they grow, so that the items are
located in the end. -/
theorem readItems_blames {opens : List Form} {tokens : List Token}
    (hopens : ∀ form ∈ opens, form.Located P) (htokens : ∀ token ∈ tokens, P token.location) :
    Blames P (fun items => ∀ item ∈ items, item.Located P) (readItems opens tokens) := by
  fun_induction readItems opens tokens with
  | case1 => exact .ok (List.forall_mem_nil _)
  | case2 innermost outer => exact .error (hopens innermost List.mem_cons_self).place
  | case3 text location rest ih =>
    obtain ⟨hfirst, hrest⟩ := List.forall_mem_cons.1 htokens
    exact (ih hopens hrest).map fun _ hitems => List.forall_mem_cons.2 ⟨hfirst, hitems⟩
  | case4 text location rest innermost outer =>
    exact .error (hopens innermost List.mem_cons_self).place
  | case5 opens text location rest ih =>
    obtain ⟨hfirst, hrest⟩ := List.forall_mem_cons.1 htokens
    have hform : Form.Located P ⟨text, location, none, []⟩ :=
      .mk hfirst (by simp) (List.forall_mem_nil _)
    exact ih (List.forall_mem_cons.2 ⟨hform, hopens⟩) hrest
  | case6 text location rest => exact .error (List.forall_mem_cons.1 htokens).1
  | case7 text location rest innermost outer hlate => exact .error (List.forall_mem_cons.1 htokens).1
  | case8 text location rest innermost outer hlate htwice =>
    exact .error (List.forall_mem_cons.1 htokens).1
  | case9 text location rest innermost outer hlate htwice ih =>
    obtain ⟨hfirst, hrest⟩ := List.forall_mem_cons.1 htokens
    obtain ⟨hinnermost, houter⟩ := List.forall_mem_cons.1 hopens
    have hgrown : Form.Located P { innermost with parameter := some ⟨text, location⟩ } := by
      refine .mk hinnermost.place ?_ hinnermost.children
      intro parameter hparameter
      cases hparameter
      exact hfirst
    exact ih (List.forall_mem_cons.2 ⟨hgrown, houter⟩) hrest
  | case10 location rest => exact .error (List.forall_mem_cons.1 htokens).1
  | case11 location rest outermost ih =>
    obtain ⟨-, hrest⟩ := List.forall_mem_cons.1 htokens
    obtain ⟨houtermost, -⟩ := List.forall_mem_cons.1 hopens
    refine (ih (List.forall_mem_nil _) hrest).map fun _ hitems => ?_
    exact List.forall_mem_cons.2 ⟨houtermost, hitems⟩
  | case12 location rest innermost parent outer ih =>
    obtain ⟨-, hrest⟩ := List.forall_mem_cons.1 htokens
    obtain ⟨hinnermost, hmore⟩ := List.forall_mem_cons.1 hopens
    obtain ⟨hparent, houter⟩ := List.forall_mem_cons.1 hmore
    exact ih (List.forall_mem_cons.2 ⟨hparent.addChild hinnermost, houter⟩) hrest

/-- The forms among located items are located. -/
theorem Item.located_of_mem_forms {items : List Item} (h : ∀ item ∈ items, item.Located P)
    {form : Form} (hform : form ∈ Item.forms items) : form.Located P := by
  induction items with
  | nil => cases hform
  | cons item rest ih =>
    obtain ⟨hitem, hrest⟩ := List.forall_mem_cons.1 h
    cases item with
    | prose text location => exact ih hrest hform
    | form first =>
      rcases List.mem_cons.1 hform with rfl | hform
      · exact hitem
      · exact ih hrest hform

/-! ## The grammar -/

/-- A missing parameter is blamed on the form, and one too many on itself. -/
theorem ParameterUse.check_blames (use : ParameterUse) (atom : String) {location : Location}
    {parameter : Option Parameter} (hlocation : P location)
    (hparameter : ∀ given ∈ parameter, P given.location) :
    Blames P (fun _ => True) (use.check atom location parameter) := by
  cases parameter with
  | none =>
    rw [ParameterUse.check]
    split
    · exact .error hlocation
    · exact .ok trivial
  | some given =>
    rw [ParameterUse.check]
    split
    · exact .error (hparameter given rfl)
    · exact .ok trivial

/-- What is missing is blamed on the form that it is missing in. -/
theorem checkUsed_blames (parent : String) {location : Location} (hlocation : P location)
    (rules : List (Rule × Occurrence)) (used : List Nat) :
    Blames P (fun _ => True) (checkUsed parent location rules used) := by
  unfold checkUsed
  split
  · exact .error hlocation
  · exact .ok trivial

mutual

/-- A rule blames the form, its parameter or one of its sub-forms. -/
theorem Rule.check_blames (rule : Rule) :
    (form : Form) → form.Located P → Blames P (fun _ => True) (rule.check form)
  | ⟨atom, location, parameter, children⟩, h => by
    have hforms := checkForms_blames atom h.place rule.children [] children h.children
    rw [Rule.check_mk]
    refine (rule.parameter.check_blames atom h.place h.parameterPlace).bind fun _ _ => ?_
    cases hrules : rule.children with
    | nil =>
      cases children with
      | nil => exact .ok trivial
      | cons child rest => exact .error (h.children child List.mem_cons_self).place
    | cons first rules =>
      rw [hrules] at hforms
      exact hforms

/-- Rules for some forms blame one of these, or for what is missing the form around them. -/
theorem checkForms_blames (parent : String) {location : Location} (hlocation : P location)
    (rules : List (Rule × Occurrence)) (used : List Nat) :
    (forms : List Form) → (∀ form ∈ forms, form.Located P) →
      Blames P (fun _ => True) (checkForms parent location rules used forms)
  | [], _ => checkUsed_blames parent hlocation rules used
  | form :: others, h => by
    obtain ⟨hform, hothers⟩ := List.forall_mem_cons.1 h
    rw [checkForms]
    cases governing? rules form.atom with
    | none => exact .error hform.place
    | some governor =>
      obtain ⟨⟨rule, occurrence⟩, number⟩ := governor
      dsimp only
      split
      · exact .error hform.place
      · refine (Rule.check_blames rule form hform).bind fun _ _ => ?_
        exact checkForms_blames parent hlocation rules (number :: used) others hothers

end

/-- Prose where none is allowed is blamed on itself. -/
theorem Grammar.checkProse_blames (name : String) {items : List Item}
    (h : ∀ item ∈ items, item.Located P) :
    Blames P (fun _ => True) (Grammar.checkProse name items) := by
  induction items with
  | nil => exact .ok trivial
  | cons item rest ih =>
    obtain ⟨hitem, hrest⟩ := List.forall_mem_cons.1 h
    cases item with
    | form first => exact ih hrest
    | prose text location =>
      rw [Grammar.checkProse]
      split
      · exact ih hrest
      · exact .error hitem

/-- The grammar blames items and their forms, and for what is missing the start. -/
theorem Grammar.check_blames (grammar : Grammar) {start : Location} (hstart : P start)
    {items : List Item} (h : ∀ item ∈ items, item.Located P) :
    Blames P (fun _ => True) (grammar.check start items) := by
  have hprose : Blames P (fun _ => True)
      (if grammar.allowsProse then .ok () else Grammar.checkProse grammar.name items) := by
    split
    · exact .ok trivial
    · exact Grammar.checkProse_blames grammar.name h
  rw [Grammar.check_eq]
  refine hprose.bind fun _ _ => ?_
  exact checkForms_blames _ hstart _ _ _ fun _ hform => Item.located_of_mem_forms h hform

/-! ## Pages -/

/-- An id that is none is blamed on its text. -/
theorem Form.readId_blames {form : Form} (h : form.Located P) :
    Blames P (fun _ => True) form.readId := by
  unfold Form.readId
  dsimp only
  split
  · exact .ok trivial
  · exact .error h.parameterLocation

/-- Whatever the table, a fault is blamed on a place where `P` holds, and without a fault the value is as told. -/
def ReadM.Blames (P : Location → Prop) (Q : α → Prop) (reading : ReadM α) : Prop :=
  ∀ table : Table, Bindery.Blames P Q (reading.exec table).1

namespace ReadM

theorem blames_pure {Q : α → Prop} {a : α} (h : Q a) : (pure a : ReadM α).Blames P Q :=
  fun _ => .ok h

theorem blames_throw {Q : α → Prop} {fault : Fault} (h : P fault.location) :
    (throw fault : ReadM α).Blames P Q := fun _ => .error h

theorem blames_ofExcept {Q : α → Prop} {result : Except Fault α} (h : Bindery.Blames P Q result) :
    (ofExcept result).Blames P Q := fun _ => h

theorem blames_modify (change : Table → Table) :
    (modify change : ReadM Unit).Blames P fun _ => True := fun _ => .ok trivial

/-- Readings that blame such places one after the other do so together. -/
theorem Blames.bind {Q : α → Prop} {R : β → Prop} {x : ReadM α} {f : α → ReadM β}
    (h : x.Blames P Q) (hf : ∀ a, Q a → (f a).Blames P R) : (x >>= f).Blames P R := by
  intro table
  have hfirst := h table
  rw [exec_bind]
  generalize x.exec table = run at hfirst ⊢
  obtain ⟨fault | a, middle⟩ := run
  · exact .error hfirst.of_error
  · exact hf a hfirst.of_ok middle

end ReadM

/-- An id that is none or that is taken is blamed on its text. -/
theorem declareId_blames {form : Form} (h : form.Located P) (link : String) :
    (declareId form link).Blames P fun _ => True := by
  unfold declareId
  split
  next => exact ReadM.blames_pure trivial
  next idForm hid =>
    have hidForm := h.of_child? hid
    refine (ReadM.blames_ofExcept (Form.readId_blames hidForm)).bind fun id _ => ?_
    intro table
    rw [ReadM.exec_get_bind]
    -- an id that is taken is blamed on its text
    cases table.register id (sectionTarget form.location.document link table) with
    | error existing => exact .error hidForm.parameterLocation
    | ok registered => exact .ok trivial

/-- The reader of a section's title and includes blames the form, or the text of its id. -/
theorem readMeta_blames {form : Form} (h : form.Located P) :
    (readMeta form).Blames P fun _ => True := by
  unfold readMeta
  split
  next => exact ReadM.blames_throw h.place
  next titleForm _ =>
    refine (ReadM.blames_modify (addAuthors form)).bind fun _ _ => ?_
    exact (declareId_blames h _).bind fun _ _ => ReadM.blames_pure trivial

theorem BulletStyle.ask_blames (text : String) {location : Location} (h : P location) :
    Blames P (fun _ => True) (BulletStyle.ask text location) := by
  unfold BulletStyle.ask
  split
  · exact .ok trivial
  · exact .error h

/-- A style that there is not is blamed on its text, and one that is given twice on the second. -/
theorem readStyle_blames {form : Form} (h : form.Located P) :
    Blames P (fun _ => True) (readStyle form) := by
  unfold readStyle
  split
  next parameter style _ hstyle => exact .error (h.of_child? hstyle).place
  next parameter hparameter _ =>
    exact BulletStyle.ask_blames _ (h.parameterPlace parameter hparameter)
  next style _ hstyle => exact BulletStyle.ask_blames _ (h.of_child? hstyle).parameterLocation
  next => exact .ok trivial

theorem readContent_blames {form : Form} (h : form.Located P) :
    Blames P (fun _ => True) (readContent form) := by
  unfold readContent
  split
  next => exact .ok trivial
  next toc htoc => exact (readStyle_blames (h.of_child? htoc)).bind fun _ _ => .ok trivial

/-- Whatever a form asks for, a fault in it is blamed on the form or inside of it. -/
theorem readItem_blames {item : Item} (h : item.Located P) :
    (readItem item).Blames P fun _ => True := by
  cases item with
  | prose text location => exact ReadM.blames_pure trivial
  | form root =>
    rw [readItem]
    split
    next => exact (readMeta_blames h).bind fun _ _ => ReadM.blames_pure trivial
    next =>
      split
      next =>
        refine (ReadM.blames_ofExcept (readContent_blames h)).bind fun _ _ => ?_
        exact ReadM.blames_pure trivial
      next =>
        split
        next =>
          refine (ReadM.blames_ofExcept (Form.readId_blames h)).bind fun _ _ => ?_
          exact ReadM.blames_pure trivial
        next => exact ReadM.blames_pure trivial

/-- A fault in the items of a document is blamed on one of them or inside of it. -/
theorem readNodes_blames {items : List Item} (h : ∀ item ∈ items, item.Located P) :
    (readNodes items).Blames P fun _ => True := by
  induction items with
  | nil => exact ReadM.blames_pure trivial
  | cons item rest ih =>
    obtain ⟨hitem, hrest⟩ := List.forall_mem_cons.1 h
    refine (readItem_blames hitem).bind fun _ _ => ?_
    exact (ih hrest).bind fun _ _ => ReadM.blames_pure trivial

/-- **The reader of pages blames places of tokens**, and the start of the document if there are any. -/
theorem Page.ofTokens_blames {tokens : List Token} (htokens : ∀ token ∈ tokens, P token.location)
    (hstart : ∀ token ∈ tokens, P token.location.document.start) :
    (Page.ofTokens tokens).Blames P fun _ => True := by
  unfold Page.ofTokens
  split
  next => exact ReadM.blames_pure trivial
  next first rest =>
    have hitems := readItems_blames (List.forall_mem_nil (Form.Located P)) htokens
    refine (ReadM.blames_ofExcept hitems).bind fun items hitems => ?_
    have hcheck := Grammar.document.check_blames (hstart first List.mem_cons_self) hitems
    refine (ReadM.blames_ofExcept hcheck).bind fun _ _ => ?_
    refine (readNodes_blames hitems).bind fun read _ => ?_
    dsimp only
    split
    next => exact ReadM.blames_pure trivial
    next =>
      split
      next => exact (ReadM.blames_modify _).bind fun _ _ => ReadM.blames_pure trivial
      next => exact ReadM.blames_pure trivial

/-! ## Projects -/

theorem readDocument_blames (path : DocumentPath) {form : Form} (h : form.Located P) :
    Blames P (fun _ => True) (readDocument path form) := by
  have hid : Blames P (fun _ => True) (readDocumentId form) := by
    unfold readDocumentId
    split
    next => exact .ok trivial
    next idForm hchild => exact (Form.readId_blames (h.of_child? hchild)).map fun _ _ => trivial
  exact hid.map fun _ _ => trivial

/-- The reader of a project's documents blames their forms or inside of them. -/
theorem readDocuments_blames (path : DocumentPath) {forms : List Form}
    (h : ∀ form ∈ forms, form.Located P) :
    Blames P (fun _ => True) (readDocuments path forms) := by
  induction forms with
  | nil => exact .ok trivial
  | cons form rest ih =>
    obtain ⟨hform, hrest⟩ := List.forall_mem_cons.1 h
    refine (readDocument_blames path hform).bind fun _ _ => ?_
    exact (ih hrest).bind fun _ _ => .ok trivial

/-! ## Into the text -/

/-- A character of the text stands at the location. -/
def StandsIn (document : Coordinate) (text : List Char) (location : Location) : Prop :=
  ∃ index < text.length, location = ⟨document, positionAt text index⟩

/-- A fault is reported in the document, at the position of one of its characters. -/
def Failure.PointsInto (path : String) (text : List Char) : Failure → Prop
  | .code _ file line column =>
    file = path ∧ ∃ index < text.length, positionAt text index = ⟨line, column⟩
  | _ => True

variable {document : Coordinate}

/-- In a text with a character there is one at the start. -/
theorem StandsIn.start {text : List Char} {location : Location}
    (h : StandsIn document text location) : StandsIn document text document.start := by
  obtain ⟨index, hindex, -⟩ := h
  exact ⟨0, Nat.zero_lt_of_lt hindex, rfl⟩

theorem StandsIn.document_eq {text : List Char} {location : Location}
    (h : StandsIn document text location) : location.document = document := by
  obtain ⟨index, -, rfl⟩ := h
  rfl

/-- The glyphs of what is left of a text stand in it. -/
theorem standsIn_of_mem_drop {text : List Char} {index : Nat} {g : Glyph}
    (h : g ∈ glyphs ⟨document, positionAt text index⟩ (text.drop index)) :
    StandsIn document text g.location := by
  generalize hgs : glyphs ⟨document, positionAt text index⟩ (text.drop index) = gs at h
  induction gs generalizing index with
  | nil => cases h
  | cons first rest ih =>
    obtain ⟨hfirst, hrest⟩ := glyphs_drop_eq_cons hgs
    rcases List.mem_cons.1 h with rfl | h
    · have hlength := congrArg List.length hgs
      rw [length_glyphs, List.length_drop, List.length_cons] at hlength
      exact ⟨index, by omega, hfirst⟩
    · exact ih hrest h

/-- The glyphs of a text stand in it. -/
theorem standsIn_of_mem_glyphs {text : List Char} :
    ∀ g ∈ glyphs document.start text, StandsIn document text g.location := by
  intro g hg
  have hdrop : g ∈ glyphs ⟨document, positionAt text 0⟩ (text.drop 0) := hg
  exact standsIn_of_mem_drop hdrop

/-- A fault that is blamed on a character of the text is reported there. -/
theorem StandsIn.pointsInto {text : List Char} {fault : Fault}
    (h : StandsIn document text fault.location) :
    fault.toFailure.PointsInto document.path text := by
  obtain ⟨index, hindex, hlocation⟩ := h
  rw [Fault.toFailure, hlocation]
  exact ⟨rfl, index, hindex, rfl⟩

/-- A result that blames characters of the text fails with a failure that points into it. -/
theorem Blames.pointsInto {text : List Char} {Q : α → Prop} {x : Except Fault α} {failure : Failure}
    (hx : Blames (StandsIn document text) Q x)
    (h : x.mapError Fault.toFailure = .error failure) : failure.PointsInto document.path text := by
  cases hx with
  | ok _ => cases h
  | error hplace =>
    cases h
    exact hplace.pointsInto

section
open Text

variable {text : String} {failure : Failure}

/-- What is wrong with the parts of a text is reported in it. -/
theorem split_pointsInto (h : split document text = .error failure) :
    failure.PointsInto document.path (unifyNewlines text.toList) := by
  have htokens : Blames _ _ (documentTokens document text) :=
    documentTokens_blames standsIn_of_mem_glyphs
  unfold split at h
  split at h
  next =>
    -- a coordinate that is not valid is no fault of the text
    cases h
    exact trivial
  next =>
    unfold documentTokens at htokens
    cases hparts : splitText document (unifyNewlines text.toList) with
    | ok parts =>
      rw [hparts] at h
      cases h
    | error fault =>
      rw [hparts] at h htokens
      cases h
      exact htokens.of_error.pointsInto

/-- The parts of a text have their tokens in it, and faults in them are blamed there. -/
theorem tokenize_blames {parts : List Part} (h : split document text = .ok parts) :
    Blames (StandsIn document (unifyNewlines text.toList))
      (fun tokens => ∀ token ∈ tokens,
        StandsIn document (unifyNewlines text.toList) token.location) (tokenize parts) := by
  have htokens : Blames _ _ (documentTokens document text) :=
    documentTokens_blames standsIn_of_mem_glyphs
  unfold split at h
  split at h
  next => cases h
  next =>
    rw [except_mapError_eq_ok] at h
    unfold documentTokens at htokens
    rw [h] at htokens
    exact htokens

/-- **A fault in a document is reported in it.** What a document lacks is reported at its start, and there is a
character there since there is a token. -/
theorem Page.ofText_pointsInto {table : Table}
    (h : (Page.ofText document text table).1 = .error failure) :
    failure.PointsInto document.path (unifyNewlines text.toList) := by
  unfold Page.ofText at h
  split at h
  next failure hsplit =>
    cases h
    exact split_pointsInto hsplit
  next parts hsplit =>
    have htokenize := tokenize_blames hsplit
    split at h
    next fault htokens =>
      rw [htokens] at htokenize
      cases h
      exact htokenize.of_error.pointsInto
    next tokens htokens =>
      rw [htokens] at htokenize
      have hstart : ∀ token ∈ tokens,
          StandsIn document (unifyNewlines text.toList) token.location.document.start := by
        intro token htoken
        have hplace := htokenize.of_ok token htoken
        rw [hplace.document_eq]
        exact hplace.start
      exact (Page.ofTokens_blames htokenize.of_ok hstart table).pointsInto h

/-- **A fault in a project file is reported in it**, for the same reason. -/
theorem Project.ofText_pointsInto {path : DocumentPath}
    (h : Project.ofText path text = .error failure) :
    failure.PointsInto path.text (unifyNewlines text.toList) := by
  unfold Project.ofText at h
  rcases except_bind_eq_error.1 h with hmake | ⟨document, hmake, h⟩
  · exact nomatch hmake
  obtain rfl : document = ⟨path.text, 1, 1⟩ := Except.ok.inj hmake.symm
  rcases except_bind_eq_error.1 h with hsplit | ⟨parts, hsplit, h⟩
  · exact split_pointsInto hsplit
  have htokenize := tokenize_blames hsplit
  rcases except_bind_eq_error.1 h with hfault | ⟨tokens, htokens, h⟩
  · exact htokenize.pointsInto hfault
  rw [except_mapError_eq_ok] at htokens
  rw [htokens] at htokenize
  have hread := readItems_blames (List.forall_mem_nil (Form.Located _)) htokenize.of_ok
  rcases except_bind_eq_error.1 h with hfault | ⟨items, hitems, h⟩
  · exact hread.pointsInto hfault
  rw [except_mapError_eq_ok, Item.ofTokens] at hitems
  rw [hitems] at hread
  split at h
  next =>
    -- nor is it a fault of the text that it says nothing
    cases h
    exact trivial
  next hsome =>
    have hstart : StandsIn ⟨path.text, 1, 1⟩ (unifyNewlines text.toList)
        (Coordinate.start ⟨path.text, 1, 1⟩) := by
      cases tokens with
      | nil =>
        cases hitems
        exact absurd rfl hsome
      | cons first rest => exact (htokenize.of_ok first List.mem_cons_self).start
    have hcheck := Grammar.project.check_blames hstart hread.of_ok
    rcases except_bind_eq_error.1 h with hfault | ⟨_, -, h⟩
    · exact hcheck.pointsInto hfault
    have hforms : ∀ form ∈ (Item.forms items).flatMap (·.childrenNamed "document"),
        form.Located (StandsIn ⟨path.text, 1, 1⟩ (unifyNewlines text.toList)) := by
      intro form hform
      obtain ⟨root, hroot, hchild⟩ := List.mem_flatMap.1 hform
      exact (Item.located_of_mem_forms hread.of_ok hroot).of_childrenNamed hchild
    rcases except_bind_eq_error.1 h with hfault | ⟨documents, -, h⟩
    · exact (readDocuments_blames path hforms).pointsInto hfault
    · cases h

/-- The line and column of a fault that a result fails with. -/
def faultPosition? : Except Failure α → Option (Nat × Nat)
  | .ok _ => none
  | .error failure => failure.position?

theorem exists_error_of_faultPosition? {x : Except Failure α} {position : Nat × Nat}
    (h : faultPosition? x = some position) :
    ∃ failure, x = .error failure ∧ failure.position? = some position := by
  cases x with
  | ok a => cases h
  | error failure => exact ⟨failure, rfl, h⟩

/-- **Every fault points into its text.** Where a document or a project file cannot be read because of what its text says,
the failure names that file, and a line and a column at which the text with its line ends unified has a character. -/
theorem faults_point_into_text (text : String) :
    (∀ (document : Coordinate) (table : Table) (failure : Failure),
      (Page.ofText document text table).1 = .error failure →
        failure.PointsInto document.path (unifyNewlines text.toList)) ∧
    ∀ (path : DocumentPath) (failure : Failure), Project.ofText path text = .error failure →
      failure.PointsInto path.text (unifyNewlines text.toList) := by
  constructor
  · intro document table failure h
    exact Page.ofText_pointsInto h
  · intro path failure h
    exact Project.ofText_pointsInto h

/-- A document that asks for an unknown style in its third line, behind two kinds of line end. -/
def misstyledText : String := "é\r\n<!-- (dl (content (toc\r x\\)y))) -->"

/-- A project whose second line gives a document an id that is none. -/
def misnamedText : String := "(documents\r\n (document (source a.md) (output b.md) (id A)))"

theorem faults_point_into_misstyledText :
    (∃ failure, (Page.ofText escapedDocument misstyledText Table.new).1 = .error failure ∧
      failure.position? = some (3, 2) ∧
      failure.PointsInto "/docs/a.md" (unifyNewlines misstyledText.toList)) ∧
    ∃ failure, Project.ofText (.resolve "/p.dlproj" "/") misnamedText = .error failure ∧
      failure.position? = some (2, 44) ∧
      failure.PointsInto "/p.dlproj" (unifyNewlines misnamedText.toList) := by
  have hpath : (DocumentPath.resolve "/p.dlproj" "/").text = "/p.dlproj" := by decide +kernel
  have hstyle : faultPosition? (Page.ofText escapedDocument misstyledText Table.new).1 =
      some (3, 2) := by
    decide +kernel
  have hid : faultPosition? (Project.ofText (.resolve "/p.dlproj" "/") misnamedText) =
      some (2, 44) := by
    decide +kernel
  obtain ⟨failure, hpage, hposition⟩ := exists_error_of_faultPosition? hstyle
  obtain ⟨other, hproject, hplace⟩ := exists_error_of_faultPosition? hid
  have hinto := (faults_point_into_text misnamedText).2 _ _ hproject
  rw [hpath] at hinto
  exact ⟨⟨failure, hpage, hposition, (faults_point_into_text misstyledText).1 _ _ _ hpage⟩,
    other, hproject, hplace, hinto⟩

end

end Bindery
