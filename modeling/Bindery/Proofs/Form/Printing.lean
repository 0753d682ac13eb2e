import Bindery.Proofs.Form.Written

/-!
# `Proofs.Form.Printing` — reading undoes printing

Shapes have a printed form: parentheses around the atom, the parameter behind a space with parentheses and backslashes
escaped, and the sub-forms with nothing between them. Outermost forms stand on lines of their own. Read as a file of
directives, or as a block inside of a comment, this text gives forms of these shapes back.

## Contents
- `Shape.printed`, `printForest`, `Shape.Printable`.
- `ReadsBack`; `Written.readsBack_directives`, `Written.readsBack_comment`: any text that writes down shapes.
- `readsBack_printForest`: printed text.
-/

namespace Bindery

open Source Text

/-! ## Reading written forms -/

/-- The document is read as forms of the given shapes, without any prose. -/
def ReadsBack (document : Coordinate) (text : String) (shapes : List Shape) : Prop :=
  ∃ (parts : List Part) (tokens : List Token) (forms : List Form),
    split document text = .ok parts ∧ tokenize parts = .ok tokens ∧
      Item.ofTokens tokens = .ok (forms.map .form) ∧ forms.map Form.shape = shapes

theorem unifyNewlines_eq_self {cs : List Char} (h : '\r' ∉ cs) : unifyNewlines cs = cs := by
  fun_induction unifyNewlines cs with
  | case1 => rfl
  | case2 | case3 => exact absurd List.mem_cons_self h
  | case4 c rest _ _ ih => rw [ih fun hmem => h (List.mem_cons_of_mem c hmem)]

/-- A text whose line ends are line feeds is split as it is. -/
theorem split_eq {document : Coordinate} (hdepth : 1 ≤ document.depth)
    (hindex : 1 ≤ document.index) {cs : List Char} (hcs : '\r' ∉ cs) :
    split document (String.ofList cs) = (splitText document cs).mapError Fault.toFailure := by
  rw [split_valid hdepth hindex, String.toList_ofList, unifyNewlines_eq_self hcs]

/-- A block whose text writes down shapes gives the tokens of forms with these shapes. -/
theorem Written.tokenize_block {shapes : List Shape} {cs : List Char} (h : Written shapes cs)
    (location : Location) :
    ∃ forms tokens, forms.map Form.shape = shapes ∧ Spells forms tokens ∧
      tokenize [.block (String.ofList cs) location] = .ok tokens := by
  obtain ⟨forms, tokens, hforms, hspells, htokens⟩ := h.blockTokens_eq (charsOf_glyphs location cs)
  refine ⟨forms, tokens, hforms, hspells, ?_⟩
  have hall := htokens []
  rw [List.append_nil, blockTokens] at hall
  rw [tokenize, String.toList_ofList, hall]
  simp [tokenize, Except.map, bind, Except.bind, pure, Except.pure]

theorem Written.not_blank {shape : Shape} {rest : List Shape} {cs : List Char}
    (h : Written (shape :: rest) cs) : cs.all isBlank = false := by
  cases h with
  | cons => simp [show isBlank '(' = false by decide]

/-- **A file of directives that writes down shapes is read as forms of these shapes.** -/
theorem Written.readsBack_directives {shapes : List Shape} {cs : List Char}
    (h : Written shapes cs) (hcs : '\r' ∉ cs) {document : Coordinate} (hdepth : 1 ≤ document.depth)
    (hindex : 1 ≤ document.index)
    (hkind : DocumentPath.Kind.ofExtension? document.extension? ≠ .markdown) :
    ReadsBack document (String.ofList cs) shapes := by
  have hcheck := h.checkDirectives_eq (charsOf_glyphs document.start cs) document.start.document.path
  have hsplit := splitText_directives hkind cs
  cases shapes with
  | nil =>
    cases h with
    | nil hblanks =>
      refine ⟨[], [], [], ?_, rfl, rfl, rfl⟩
      rw [split_eq hdepth hindex hcs, hsplit, splitDirectives, hcheck]
      simp [Except.map, List.all_eq_true.2 hblanks]
  | cons shape rest =>
    obtain ⟨forms, tokens, hforms, hspells, htokens⟩ := h.tokenize_block document.start
    refine ⟨_, tokens, forms, ?_, htokens, hspells.ofTokens_eq, hforms⟩
    rw [split_eq hdepth hindex hcs, hsplit, splitDirectives, hcheck]
    simp [Except.map, h.not_blank]

/-- **A comment with one block that writes down shapes is read as forms of these shapes.** -/
theorem Written.readsBack_comment {shapes : List Shape} {cs : List Char}
    (h : Written shapes cs) (hcs : '\r' ∉ cs) (hend : ¬ commentEnd <:+: cs) {document : Coordinate}
    (hdepth : 1 ≤ document.depth) (hindex : 1 ≤ document.index)
    (hkind : DocumentPath.Kind.ofExtension? document.extension? = .markdown) :
    ReadsBack document ("<!-- (dl " ++ String.ofList cs ++ ") -->") shapes := by
  have htext : "<!-- (dl " ++ String.ofList cs ++ ") -->" = String.ofList
      ('<' :: '!' :: '-' :: '-' :: ' ' :: '(' :: 'd' :: 'l' ::
        ((' ' :: cs) ++ [')', ' ', '-', '-', '>'])) := by
    rw [← String.toList_inj]
    simp
  have hspace : ∀ c ∈ [' '], isBlank c = true := forall_mem_singleton_blank (by decide)
  have hbody : Written shapes (' ' :: cs) := h.blank_append hspace
  have hend' : ¬ commentEnd <:+: ' ' :: cs := by
    rw [List.infix_cons_iff, not_or]
    exact ⟨by simp [commentEnd], hend⟩
  obtain ⟨place, hparts⟩ := splitMarkdown_comment hbody.balanced (by simpa using hspace) hend'
    document.start
  obtain ⟨forms, tokens, hforms, hspells, htokens⟩ := hbody.tokenize_block place
  refine ⟨_, tokens, forms, ?_, htokens, hspells.ofTokens_eq, hforms⟩
  rw [htext, split_eq hdepth hindex (by simp [hcs]), splitText, hkind, hparts]
  rfl

/-! ## Printing -/

/-- A parameter behind an atom. -/
def printedParameter : Option String → List Char
  | none => []
  | some text => ' ' :: escaped text.toList

mutual

/-- A form in print. -/
def Shape.printed : Shape → List Char
  | ⟨atom, parameter, children⟩ =>
    '(' :: ((atom.toList ++ (printedParameter parameter ++ Shape.printedAll children)) ++ [')'])

/-- Forms in print, with nothing between them. -/
def Shape.printedAll : List Shape → List Char
  | [] => []
  | shape :: rest => shape.printed ++ Shape.printedAll rest

end

/-- The outermost forms of a document in print, separated by newlines. -/
def printForest (forest : List Shape) : String :=
  String.ofList (['\n'].intercalate (forest.map Shape.printed))

/-- A shape with nothing in it that cannot be printed. -/
inductive Shape.Printable : Shape → Prop where
  | mk {atom : String} {parameter : Option String} {children : List Shape} (hatom : IsAtom atom)
      (hparameter : ∀ text ∈ parameter, IsParameter text)
      (hchildren : ∀ child ∈ children, Shape.Printable child) :
      Shape.Printable ⟨atom, parameter, children⟩

theorem written_printedAll {shapes : List Shape} (h : ∀ shape ∈ shapes, Written [shape] shape.printed) :
    Written shapes (Shape.printedAll shapes) := by
  induction shapes with
  | nil => exact written_nil
  | cons shape rest ih =>
    obtain ⟨hshape, hrest⟩ := List.forall_mem_cons.1 h
    exact hshape.append (ih hrest)

theorem writtenParameter_printed {parameter : Option String}
    (h : ∀ text ∈ parameter, IsParameter text) :
    WrittenParameter parameter (printedParameter parameter) := by
  cases parameter with
  | none => exact .absent
  | some text =>
    have hspace : ∀ c ∈ [' '], isBlank c = true := forall_mem_singleton_blank (by decide)
    exact .present (h text rfl) (List.cons_ne_nil ' ' []) hspace

/-- What is printed writes down the shape. -/
theorem Shape.Printable.written {shape : Shape} (h : shape.Printable) :
    Written [shape] shape.printed := by
  induction h with
  | mk hatom hparameter _ ih =>
    have hnone : ∀ c ∈ ([] : List Char), isBlank c = true := by simp
    exact .cons hnone hatom (writtenParameter_printed hparameter) (written_printedAll ih) written_nil

theorem written_printForest {forest : List Shape} (h : ∀ shape ∈ forest, shape.Printable) :
    Written forest (['\n'].intercalate (forest.map Shape.printed)) := by
  induction forest with
  | nil => exact written_nil
  | cons shape rest ih =>
    obtain ⟨hshape, hrest⟩ := List.forall_mem_cons.1 h
    cases rest with
    | nil => simpa [List.intercalate] using hshape.written
    | cons next others =>
      -- the newline between two forms is a blank before the second
      have hnewline : ∀ c ∈ ['\n'], isBlank c = true :=
        forall_mem_singleton_blank (by decide)
      have hjoined := hshape.written.append ((ih hrest).blank_append hnewline)
      simpa [List.intercalate] using hjoined

theorem not_mem_escaped {cs : List Char} {c : Char} (h : c ∉ cs) (hc : c ≠ '\\') :
    c ∉ escaped cs := by
  induction cs with
  | nil => exact h
  | cons d rest ih =>
    obtain ⟨hd, hrest⟩ : c ≠ d ∧ c ∉ rest := by simpa using h
    rcases escaped_cons d rest with ⟨-, heq⟩ | ⟨-, heq⟩
    · simp [heq, hc, hd, ih hrest]
    · simp [heq, hd, ih hrest]

theorem not_mem_printedAll {shapes : List Shape} {c : Char} (h : ∀ shape ∈ shapes, c ∉ shape.printed) :
    c ∉ Shape.printedAll shapes := by
  induction shapes with
  | nil => exact List.not_mem_nil
  | cons shape rest ih =>
    obtain ⟨hshape, hrest⟩ := List.forall_mem_cons.1 h
    exact List.not_mem_append hshape (ih hrest)

/-- Nothing that is printed has a carriage return in it. -/
theorem Shape.Printable.not_mem_printed {shape : Shape} (h : shape.Printable) :
    '\r' ∉ shape.printed := by
  induction h with
  | @mk atom parameter children hatom hparameter _ ih =>
    have hreturn : isBlank '\r' = true := by decide
    have hname : '\r' ∉ atom.toList := by
      intro hmem
      rw [(hatom.plain _ hmem).1] at hreturn
      cases hreturn
    have hwords : '\r' ∉ printedParameter parameter := by
      cases parameter with
      | none => exact List.not_mem_nil
      | some text =>
        have hescaped := not_mem_escaped (hparameter text rfl).unified (by decide)
        simp [printedParameter, hescaped]
    simp [Shape.printed, hname, hwords, not_mem_printedAll ih]

theorem not_mem_printForest {forest : List Shape} (h : ∀ shape ∈ forest, shape.Printable) :
    '\r' ∉ ['\n'].intercalate (forest.map Shape.printed) := by
  induction forest with
  | nil => exact List.not_mem_nil
  | cons shape rest ih =>
    obtain ⟨hshape, hrest⟩ := List.forall_mem_cons.1 h
    have hfirst := hshape.not_mem_printed
    cases rest with
    | nil => simpa [List.intercalate] using hfirst
    | cons next others => simpa [List.intercalate, hfirst] using ih hrest

/-- **Reading undoes printing**, in a file of directives and in a block inside of a comment. -/
theorem readsBack_printForest {document : Coordinate} (hdepth : 1 ≤ document.depth)
    (hindex : 1 ≤ document.index) {forest : List Shape} (h : ∀ shape ∈ forest, shape.Printable) :
    (DocumentPath.Kind.ofExtension? document.extension? ≠ .markdown →
      ReadsBack document (printForest forest) forest) ∧
    (DocumentPath.Kind.ofExtension? document.extension? = .markdown →
      ¬ commentEnd <:+: (printForest forest).toList →
      ReadsBack document ("<!-- (dl " ++ printForest forest ++ ") -->") forest) := by
  have hwritten := written_printForest h
  have hreturn := not_mem_printForest h
  constructor
  · intro hkind
    exact hwritten.readsBack_directives hreturn hdepth hindex hkind
  · intro hkind hend
    rw [printForest, String.toList_ofList] at hend
    exact hwritten.readsBack_comment hreturn hend hdepth hindex hkind

/-- Two forms, one with a parameter that looks like a block and ends in a backslash. -/
def quotedForest : List Shape :=
  [⟨"a", some "(dl)\\", [⟨"b", none, []⟩]⟩, ⟨"dlx", none, []⟩]

theorem printable_quotedForest : ∀ shape ∈ quotedForest, shape.Printable := by
  have hnone : ∀ text ∈ (none : Option String), IsParameter text := by simp
  have hb : Shape.Printable ⟨"b", none, []⟩ := .mk (by decide) hnone (by simp)
  have htext : IsParameter "(dl)\\" := by decide
  have ha : Shape.Printable ⟨"a", some "(dl)\\", [⟨"b", none, []⟩]⟩ :=
    .mk (by decide) (by simpa using htext) (by simpa using hb)
  have hdlx : Shape.Printable ⟨"dlx", none, []⟩ := .mk (by decide) hnone (by simp)
  simpa [quotedForest] using ⟨ha, hdlx⟩

theorem readsBack_quotedForest :
    printForest quotedForest = "(a \\(dl\\)\\\\(b))\n(dlx)" ∧
      ReadsBack ⟨"a.dlisp", 1, 1⟩ (printForest quotedForest) quotedForest ∧
      ReadsBack ⟨"a.md", 1, 1⟩ ("<!-- (dl " ++ printForest quotedForest ++ ") -->") quotedForest :=
  ⟨by decide +kernel,
    (readsBack_printForest (by decide) (by decide) printable_quotedForest).1 (by decide +kernel),
    (readsBack_printForest (by decide) (by decide) printable_quotedForest).2 (by decide +kernel)
      (by decide +kernel)⟩

end Bindery
