import Bindery.Proofs.Form.Flattening
import Bindery.Proofs.Grammar.Conformance
import Bindery.Proofs.Page.Declarations
import Bindery.Proofs.Page.Wrapping
import Bindery.Proofs.Section.Frame
import Bindery.Proofs.Section.Reprinting
import Bindery.Proofs.Source.Positions
import Bindery.Proofs.Table.History

/-!
# `Proofs.Page.Shape` — what can be relied on of a page

Those who resolve and write pages ask a lot of them: that there is one title at most, that a table of contents stands right
before the place of the included sections, that headings have a level and a text. None of this is checked when a page is
put together. It follows from three things: tokens are not empty, the grammar says how often a directive may stand and
which have a parameter, and each directive is read as the nodes that are meant for it.

## Contents
- `LowerKebab`: how ids are written.
- `Form.asked`, `Form.Answered`: the forms whose parameters are read, and that these have one.
- `Node.IsSound`, `ContentFollows`, `Shaped`: what is kept from item to item; `Shaped.append`, `Item.shaped_of_readingAll`.
- `Note.column_warnings_enterAll`: the warnings after notes were entered.
- `Page.WellFormed`, `dueWarnings`, `wellFormed_of_ofText`.
-/

namespace Bindery

open Source Text

/-! ## Ids -/

/-- Words of small letters and digits, with single hyphens between them. -/
def LowerKebab (text : String) : Prop :=
  ∃ words : List (List Char), words ≠ [] ∧ text.toList = ['-'].intercalate words ∧
    ∀ word ∈ words, word ≠ [] ∧ ∀ c ∈ word, 'a' ≤ c ∧ c ≤ 'z' ∨ '0' ≤ c ∧ c ≤ '9'

/-- What finishes an id is the rest of a word, and more words. -/
theorem exists_words_of_finishesId {inWord : Bool} {cs : List Char}
    (h : finishesId inWord cs = true) :
    ∃ first rest, cs = ['-'].intercalate (first :: rest) ∧ (inWord = false → first ≠ []) ∧
      (∀ c ∈ first, isIdChar c = true) ∧ ∀ word ∈ rest, word ≠ [] ∧ ∀ c ∈ word, isIdChar c = true := by
  induction cs generalizing inWord with
  | nil =>
    cases inWord with
    | false => cases h
    | true => exact ⟨[], [], rfl, by simp, by simp, by simp⟩
  | cons c cs ih =>
    rw [finishesId] at h
    split at h
    next hc =>
      obtain ⟨first, rest, rfl, -, hfirst, hrest⟩ := ih h
      refine ⟨c :: first, rest, ?_, fun _ => List.cons_ne_nil _ _,
        List.forall_mem_cons.2 ⟨hc, hfirst⟩, hrest⟩
      cases rest <;> simp [List.intercalate]
    next hc =>
      -- a hyphen ends a word that has begun, and begins another
      simp only [Bool.and_eq_true, beq_iff_eq] at h
      obtain ⟨⟨rfl, hword⟩, hmore⟩ := h
      obtain ⟨first, rest, rfl, hbegun, hfirst, hrest⟩ := ih hmore
      refine ⟨[], first :: rest, ?_, ?_, List.forall_mem_nil _,
        List.forall_mem_cons.2 ⟨⟨hbegun rfl, hfirst⟩, hrest⟩⟩
      · simp [List.intercalate]
      · intro hnone
        rw [hword] at hnone
        cases hnone

theorem lowerKebab_of_isId {text : String} (h : isId text = true) : LowerKebab text := by
  have hchars : ∀ c, isIdChar c = true → 'a' ≤ c ∧ c ≤ 'z' ∨ '0' ≤ c ∧ c ≤ '9' := by
    intro c hc
    simpa [isIdChar] using hc
  obtain ⟨first, rest, htext, hbegun, hfirst, hrest⟩ := exists_words_of_finishesId h
  refine ⟨first :: rest, List.cons_ne_nil _ _, htext, ?_⟩
  refine List.forall_mem_cons.2 ⟨⟨hbegun rfl, fun c hc => hchars c (hfirst c hc)⟩, ?_⟩
  intro word hword
  exact ⟨(hrest word hword).1, fun c hc => hchars c ((hrest word hword).2 c hc)⟩

/-! ## Parameters -/

/-- The forms whose parameters are read together with a directive: the directive itself, or what is said inside it. -/
def Form.asked (form : Form) : List Form :=
  if form.atom = "section-meta" then
    form.children.flatMap fun child => if child.atom = "include" then child.children else [child]
  else if form.atom = "content" then form.children.flatMap Form.children
  else [form]

/-- Each of these has a parameter with some text in it. -/
def Form.Answered (form : Form) : Prop :=
  ∀ asked ∈ form.asked, ∃ parameter, asked.parameter = some parameter ∧ parameter.text ≠ ""

/-- A form that passes among others follows a rule that matches its atom. -/
theorem exists_rule_of_checkForms {parent : String} {location : Location}
    {rules : List (Rule × Occurrence)} {used : List Nat} {forms : List Form}
    (h : checkForms parent location rules used forms = .ok ()) {form : Form} (hform : form ∈ forms) :
    ∃ rule occurrence, (rule, occurrence) ∈ rules ∧ rule.matcher.accepts form.atom = true ∧
      rule.check form = .ok () := by
  obtain ⟨rule, occurrence, number, hgoverned, hcheck⟩ :=
    (checkForms_eq_ok_iff_fitsAfter.1 h).governed form hform
  obtain ⟨hentry, hmatches, -⟩ := governing?_eq_some_iff.1 hgoverned
  rw [matchesAt, hentry] at hmatches
  exact ⟨rule, occurrence, List.mem_of_getElem? hentry, hmatches, hcheck⟩

/-- Inside a form that follows a rule, each form follows one of the rules below. -/
theorem exists_rule_of_check {rule : Rule} {form : Form} (h : rule.check form = .ok ())
    {child : Form} (hchild : child ∈ form.children) :
    ∃ below occurrence, (below, occurrence) ∈ rule.children ∧
      below.matcher.accepts child.atom = true ∧ below.check child = .ok () :=
  exists_rule_of_checkForms (Rule.check_eq_ok_iff_checkForms.1 h).2.2 hchild

theorem parameter_of_check {rule : Rule} {form : Form} (h : rule.check form = .ok ())
    (hrequired : rule.parameter = .required) : ∃ parameter, form.parameter = some parameter := by
  have hsome := (ParameterUse.check_eq_ok_iff.1 (Rule.check_eq_ok_iff_checkForms.1 h).1).1 hrequired
  exact Option.ne_none_iff_exists'.1 hsome

/-- A directive of a document: what it may be, and that it follows the rule for it. -/
theorem document_form_cases {document : Coordinate} {items : List Item}
    (hcheck : Grammar.document.check document.start items = .ok ()) {form : Form}
    (hform : form ∈ Item.forms items) :
    (form.atom = "section-meta" ∧ Grammar.sectionMeta.check form = .ok ()) ∨
      (form.atom = "content" ∧ Grammar.content.check form = .ok ()) ∨
      ((form.atom = "get-path" ∨ Matcher.heading.accepts form.atom = true) ∧
        (∃ parameter, form.parameter = some parameter) ∧ form.children = []) := by
  rw [Grammar.check_eq] at hcheck
  obtain ⟨rule, occurrence, hrule, hmatches, hpasses⟩ := exists_rule_of_checkForms hcheck hform
  have hleaf (hrequired : rule.parameter = .required) (hnone : rule.children = []) :
      (∃ parameter, form.parameter = some parameter) ∧ form.children = [] :=
    ⟨parameter_of_check hpasses hrequired, (Rule.check_eq_ok_iff_checkForms.1 hpasses).2.1 hnone⟩
  simp only [Grammar.document, List.mem_cons, List.not_mem_nil, or_false, Prod.mk.injEq] at hrule
  rcases hrule with ⟨rfl, -⟩ | ⟨rfl, -⟩ | ⟨rfl, -⟩ | ⟨rfl, -⟩
  · exact .inl ⟨(eq_of_beq hmatches).symm, hpasses⟩
  · exact .inr (.inl ⟨(eq_of_beq hmatches).symm, hpasses⟩)
  · exact .inr (.inr ⟨.inr hmatches, hleaf rfl rfl⟩)
  · exact .inr (.inr ⟨.inl (eq_of_beq hmatches).symm, hleaf rfl rfl⟩)

/-- What is said about a section has a parameter, but for the list of includes, and there each entry has one. -/
theorem sectionMeta_rule_cases : ∀ entry ∈ Grammar.sectionMeta.children,
    (entry.1.matcher = .exact "include" ∧ ∀ inner ∈ entry.1.children, inner.1.parameter = .required) ∨
      (entry.1.matcher.accepts "include" = false ∧ entry.1.parameter = .required) := by
  decide

theorem content_rule_required : ∀ entry ∈ Grammar.content.children,
    ∀ inner ∈ entry.1.children, inner.1.parameter = .required := by
  decide

/-- The grammar asks for a parameter wherever one is read. -/
theorem exists_parameter_of_asked {document : Coordinate} {items : List Item}
    (hcheck : Grammar.document.check document.start items = .ok ()) {form : Form}
    (hform : form ∈ Item.forms items) {asked : Form} (hasked : asked ∈ form.asked) :
    ∃ parameter, asked.parameter = some parameter := by
  rcases document_form_cases hcheck hform with ⟨hatom, hpasses⟩ | ⟨hatom, hpasses⟩ | ⟨hatom, hleaf, -⟩
  · rw [Form.asked, if_pos hatom] at hasked
    obtain ⟨child, hchild, hasked⟩ := List.mem_flatMap.1 hasked
    obtain ⟨rule, occurrence, hrule, hmatches, hpasses⟩ := exists_rule_of_check hpasses hchild
    rcases sectionMeta_rule_cases _ hrule with ⟨hinclude, hentries⟩ | ⟨hother, hrequired⟩
    · rw [hinclude] at hmatches
      rw [if_pos (eq_of_beq hmatches).symm] at hasked
      obtain ⟨_, _, hentry, -, hpasses⟩ := exists_rule_of_check hpasses hasked
      exact parameter_of_check hpasses (hentries _ hentry)
    · have hne : child.atom ≠ "include" := by
        intro heq
        rw [heq, hother] at hmatches
        cases hmatches
      rw [if_neg hne, List.mem_singleton] at hasked
      rw [hasked]
      exact parameter_of_check hpasses hrequired
  · rw [Form.asked, if_neg (by simp [hatom]), if_pos hatom] at hasked
    obtain ⟨child, hchild, hasked⟩ := List.mem_flatMap.1 hasked
    obtain ⟨_, _, hrule, -, hpasses⟩ := exists_rule_of_check hpasses hchild
    obtain ⟨_, _, hinner, -, hpasses⟩ := exists_rule_of_check hpasses hasked
    exact parameter_of_check hpasses (content_rule_required _ hrule _ hinner)
  · have hplain : form.atom ≠ "section-meta" ∧ form.atom ≠ "content" := by
      rcases hatom with hpath | hheading
      · simp [hpath]
      · constructor <;> (intro heq; rw [heq] at hheading; revert hheading; decide)
    rw [Form.asked, if_neg hplain.1, if_neg hplain.2, List.mem_singleton] at hasked
    rw [hasked]
    exact hleaf

/-- A token that was read stands somewhere in the text. -/
theorem Source.Marks.exists_standsAt {gs : List Glyph} {tokens : List Token} (h : Marks gs tokens)
    {token : Token} (htoken : token ∈ tokens) : ∃ cs, token.StandsAt cs := by
  induction h with
  | nil => cases htoken
  | skip _ _ ih => exact ih htoken
  | token _ hstands _ ih =>
    rcases List.mem_cons.1 htoken with rfl | hrest
    · exact ⟨_, hstands⟩
    · exact ih hrest

/-- No parameter of a document is empty. -/
theorem parameter_ne_empty {document : Coordinate} {text : String} {tokens : List Token}
    (h : documentTokens document text = .ok tokens) {words : String} {location : Location}
    (hmem : .parameter words location ∈ tokens) : words ≠ "" := by
  obtain ⟨parts, hparts, htokens⟩ := except_bind_eq_ok.1 h
  obtain ⟨cs, c, hfirst, -⟩ := (marks_of_splitText hparts htokens).exists_standsAt hmem
  rintro rfl
  cases hfirst

/-- The tokens of a form hold those of its sub-forms. -/
theorem Form.tokens_subset_of_child {form child : Form} (hchild : child ∈ form.children) :
    child.tokens ⊆ form.tokens := by
  have hall : ∀ forms : List Form, child ∈ forms → child.tokens ⊆ Form.tokensOfAll forms := by
    intro forms hmem
    induction forms with
    | nil => cases hmem
    | cons first rest ih =>
      rw [Form.tokensOfAll]
      rcases List.mem_cons.1 hmem with rfl | hrest
      · exact List.subset_append_left _ _
      · exact List.subset_append_of_subset_right _ (ih hrest)
  intro token htoken
  rw [Form.tokens_eq, Form.opened]
  simp [hall form.children hchild htoken]

theorem Form.tokens_subset_of_asked {form asked : Form} (hasked : asked ∈ form.asked) :
    asked.tokens ⊆ form.tokens := by
  unfold Form.asked at hasked
  split at hasked
  · obtain ⟨child, hchild, hasked⟩ := List.mem_flatMap.1 hasked
    refine List.Subset.trans ?_ (Form.tokens_subset_of_child hchild)
    split at hasked
    · exact Form.tokens_subset_of_child hasked
    · rw [List.mem_singleton.1 hasked]
      exact List.Subset.refl _
  · split at hasked
    · obtain ⟨child, hchild, hasked⟩ := List.mem_flatMap.1 hasked
      exact List.Subset.trans (Form.tokens_subset_of_child hasked)
        (Form.tokens_subset_of_child hchild)
    · rw [List.mem_singleton.1 hasked]
      exact List.Subset.refl _

theorem Item.tokens_subset_of_forms {items : List Item} {form : Form}
    (hform : form ∈ Item.forms items) : form.tokens ⊆ flatten items := by
  induction items with
  | nil => cases hform
  | cons item rest ih =>
    rw [flatten, List.flatMap_cons, ← flatten]
    cases item with
    | prose text location => exact List.subset_append_of_subset_right _ (ih hform)
    | form first =>
      rcases List.mem_cons.1 hform with rfl | hrest
      · exact List.subset_append_left _ _
      · exact List.subset_append_of_subset_right _ (ih hrest)

/-- **Every parameter that is read is there, and is not empty.** -/
theorem answered_of_check {document : Coordinate} {text : String} {items : List Item}
    (hitems : documentItems document text = .ok items)
    (hcheck : Grammar.document.check document.start items = .ok ()) {form : Form}
    (hform : form ∈ Item.forms items) : form.Answered := by
  obtain ⟨tokens, htokens, hread⟩ := except_bind_eq_ok.1 hitems
  intro asked hasked
  obtain ⟨parameter, hparameter⟩ := exists_parameter_of_asked hcheck hform hasked
  refine ⟨parameter, hparameter, ?_⟩
  have hword : .parameter parameter.text parameter.location ∈ asked.tokens := by
    rw [Form.tokens_eq, Form.opened, hparameter]
    simp [parameterTokens]
  have hflat := Item.tokens_subset_of_forms hform (Form.tokens_subset_of_asked hasked hword)
  -- the tokens of the document differ from those of the items in closing parentheses only
  have hsame := List.mem_map_of_mem (f := Token.unlessClosing) hflat
  rw [← ofTokens_iff_sameTokens.1 hread] at hsame
  obtain ⟨token, htoken, heq⟩ := List.mem_map.1 hsame
  cases token <;> cases heq
  exact parameter_ne_empty htokens htoken

/-! ## Nodes -/

namespace Node

/-- Whether a node is a title. -/
def isTitle : Node → Bool
  | .title .. => true
  | _ => false

/-- Whether a node is a table of contents. -/
def isTable : Node → Bool
  | .tableOfContents .. => true
  | _ => false

/-- What can be relied on of a single node: prose can be seen, a heading has a text and the level that its directive has
number signs, and the path to an id has an id. -/
def IsSound (forms : List Form) : Node → Prop
  | .prose value _ => isBlankText value = false
  | .heading level text location =>
    1 ≤ level ∧ text ≠ "" ∧ ∃ form ∈ forms, form.location = location ∧
      form.atom.toList = List.replicate level '#' ∧ form.parameterText? = some text
  | .pathTo id _ => LowerKebab id
  | _ => True

theorem IsSound.mono {forms more : List Form} (h : forms ⊆ more) {node : Node}
    (hsound : node.IsSound forms) : node.IsSound more := by
  cases node with
  | heading level text location =>
    obtain ⟨hlevel, htext, form, hform, hrest⟩ := hsound
    exact ⟨hlevel, htext, form, h hform, hrest⟩
  | prose | title | content | tableOfContents | pathTo => exact hsound

end Node

/-- Behind each table of contents stands the place of the included sections. -/
def ContentFollows (nodes : List Node) : Prop :=
  ∀ before label style location after, nodes = before ++ .tableOfContents label style location :: after →
    ∃ place rest, after = .content place :: rest

theorem contentFollows_of_isTable {nodes : List Node} (h : ∀ node ∈ nodes, node.isTable = false) :
    ContentFollows nodes := by
  rintro before label style location after rfl
  cases h (.tableOfContents label style location) (by simp)

theorem ContentFollows.append {nodes more : List Node} (h : ContentFollows nodes)
    (h' : ContentFollows more) : ContentFollows (nodes ++ more) := by
  intro before label style location after heq
  rcases List.append_eq_append_iff.1 heq with ⟨middle, rfl, hmore⟩ | ⟨middle, rfl, hmiddle⟩
  · exact h' middle label style location after hmore
  · cases middle with
    | nil => exact h' [] label style location after hmiddle.symm
    | cons node middle =>
      -- the table stands among the first nodes, and so does what follows it
      obtain ⟨rfl, rfl⟩ := List.cons.inj hmiddle
      obtain ⟨place, rest, rfl⟩ := h before label style location middle rfl
      exact ⟨place, rest ++ more, rfl⟩

/-- What is kept from item to item: how nodes and entries depend on the directives they are read from. -/
structure Shaped (forms : List Form) (nodes : List Node) (entries : List Entry) : Prop where
  titles : nodes.countP Node.isTitle = forms.countP (·.atom == "section-meta")
  contents : nodes.countP Node.isContent = forms.countP (·.atom == "content")
  tables : nodes.countP Node.isTable ≤ forms.countP (·.atom == "content")
  follows : ContentFollows nodes
  titled : entries ≠ [] → nodes.any Node.isTitle = true
  sound : ∀ node ∈ nodes, node.IsSound forms

theorem Shaped.nil : Shaped [] [] [] :=
  ⟨rfl, rfl, Nat.le_refl 0, contentFollows_of_isTable (List.forall_mem_nil _),
    fun h => absurd rfl h, List.forall_mem_nil _⟩

theorem Shaped.append {forms more : List Form} {nodes others : List Node} {entries added : List Entry}
    (h : Shaped forms nodes entries) (h' : Shaped more others added) :
    Shaped (forms ++ more) (nodes ++ others) (entries ++ added) where
  titles := by rw [List.countP_append, List.countP_append, h.titles, h'.titles]
  contents := by rw [List.countP_append, List.countP_append, h.contents, h'.contents]
  tables := by
    rw [List.countP_append, List.countP_append]
    exact Nat.add_le_add h.tables h'.tables
  follows := h.follows.append h'.follows
  titled := by
    intro hsome
    rw [List.any_append, Bool.or_eq_true]
    by_cases hentries : entries = []
    · refine .inr (h'.titled ?_)
      rintro rfl
      exact hsome (by rw [hentries]; rfl)
    · exact .inl (h.titled hentries)
  sound := by
    intro node hnode
    rcases List.mem_append.1 hnode with hnode | hnode
    · exact (h.sound node hnode).mono (List.subset_append_left _ _)
    · exact (h'.sound node hnode).mono (List.subset_append_right _ _)

/-- Nodes that are neither titles nor about the included sections. -/
theorem Shaped.of_plain {forms : List Form} {nodes : List Node}
    (hforms : ∀ form ∈ forms, form.atom ≠ "section-meta" ∧ form.atom ≠ "content")
    (hnodes : ∀ node ∈ nodes, node.isTitle = false ∧ node.isContent = false ∧ node.isTable = false)
    (hsound : ∀ node ∈ nodes, node.IsSound forms) : Shaped forms nodes [] := by
  have hmeta : forms.countP (·.atom == "section-meta") = 0 :=
    List.countP_eq_zero.2 fun form hform => by simp [(hforms form hform).1]
  have hcontent : forms.countP (·.atom == "content") = 0 :=
    List.countP_eq_zero.2 fun form hform => by simp [(hforms form hform).2]
  refine ⟨?_, ?_, ?_, ?_, fun h => absurd rfl h, hsound⟩
  · rw [hmeta, List.countP_eq_zero]
    intro node hnode
    simp [(hnodes node hnode).1]
  · rw [hcontent, List.countP_eq_zero]
    intro node hnode
    simp [(hnodes node hnode).2.1]
  · rw [hcontent, Nat.le_zero, List.countP_eq_zero]
    intro node hnode
    simp [(hnodes node hnode).2.2]
  · exact contentFollows_of_isTable fun node hnode => (hnodes node hnode).2.2

/-! ## Items -/

/-- Prose that is not blank makes a node that is not blank. -/
theorem isBlankText_of_ofProse? {text value : String} {location place : Location}
    (h : Node.ofProse? text location = some (.prose value place)) : isBlankText value = false := by
  unfold Node.ofProse? at h
  split at h
  next => cases h
  next hblank =>
    obtain ⟨rfl, -⟩ := Node.prose.inj (Option.some.inj h)
    have hsome : ¬ ∀ c ∈ text.toList, isBlank c = true := by
      intro hall
      exact hblank (List.all_eq_true.2 hall)
    obtain ⟨_, _, _, -, -, -, hseen, hkept⟩ := exists_kept hsome location
    rw [isBlankText, String.toList_ofList, ← Bool.not_eq_true, List.all_eq_true]
    intro hall
    apply hseen.ne_nil
    rw [← hkept, ← trimEnd_dropBlankEnd]
    exact trimEnd_eq_nil_iff.2 hall

theorem shaped_prose (text : String) (location : Location) :
    Shaped [] (Node.ofProse? text location).toList [] := by
  cases hnode : Node.ofProse? text location with
  | none => exact .nil
  | some node =>
    obtain ⟨value, place, rfl⟩ : ∃ value place, node = .prose value place := by
      unfold Node.ofProse? at hnode
      split at hnode
      · cases hnode
      · exact ⟨_, _, (Option.some.inj hnode).symm⟩
    refine .of_plain (List.forall_mem_nil _) ?_ ?_
    · simp [Node.isTitle, Node.isContent, Node.isTable]
    · simpa [Node.IsSound] using isBlankText_of_ofProse? hnode

/-- What is said about a section makes its title and its entries. -/
theorem metaReading_nodes {form : Form} {read : Node × List Entry} {notes : List Note}
    (h : metaReading form = .ok (read, notes)) :
    ∃ name label link subtitle,
      read = (.title name label link subtitle form.location, readEntries form) := by
  unfold metaReading at h
  split at h
  · cases h
  · obtain ⟨ids, -, heq⟩ := except_map_eq_ok.1 h
    cases heq
    exact ⟨_, _, _, _, rfl⟩

/-- The place of the included sections stands alone or below a table of contents. -/
theorem readContent_nodes {form : Form} {nodes : List Node} (h : readContent form = .ok nodes) :
    nodes = [.content form.location] ∨ ∃ label style location,
      nodes = [.tableOfContents label style location, .content form.location] := by
  unfold readContent at h
  split at h
  next =>
    cases h
    exact .inl rfl
  next toc _ =>
    obtain ⟨style, -, heq⟩ := except_bind_eq_ok.1 h
    cases heq
    exact .inr ⟨_, _, _, rfl⟩

theorem shaped_sectionMeta {form : Form} (hatom : form.atom = "section-meta")
    {read : Node × List Entry} {notes : List Note} (h : metaReading form = .ok (read, notes)) :
    Shaped [form] [read.1] read.2 := by
  obtain ⟨name, label, link, subtitle, rfl⟩ := metaReading_nodes h
  refine ⟨?_, ?_, ?_, contentFollows_of_isTable ?_, fun _ => rfl, ?_⟩
  · simp [Node.isTitle, hatom]
  · simp [Node.isContent, hatom]
  · simp [Node.isTable]
  · simp [Node.isTable]
  · simp [Node.IsSound]

theorem shaped_content {form : Form} (hatom : form.atom = "content") {nodes : List Node}
    (h : readContent form = .ok nodes) : Shaped [form] nodes [] := by
  rcases readContent_nodes h with rfl | ⟨label, style, location, rfl⟩
  · refine ⟨?_, ?_, ?_, contentFollows_of_isTable ?_, fun h => absurd rfl h, ?_⟩
    · simp [Node.isTitle, hatom]
    · simp [Node.isContent, hatom]
    · simp [Node.isTable]
    · simp [Node.isTable]
    · simp [Node.IsSound]
  · refine ⟨?_, ?_, ?_, ?_, fun h => absurd rfl h, ?_⟩
    · simp [Node.isTitle, hatom]
    · simp [Node.isContent, hatom]
    · simp [List.countP_cons, Node.isTable, hatom]
    · intro before label style location after heq
      -- the table is the first of the two nodes
      cases before with
      | nil =>
        obtain ⟨-, rfl⟩ := List.cons.inj heq
        exact ⟨form.location, [], rfl⟩
      | cons node before =>
        obtain ⟨-, hrest⟩ := List.cons.inj heq
        cases before with
        | nil => cases hrest
        | cons other before => simp at hrest
    · simp [Node.IsSound]

/-- A directive of another name than those with a reading of their own is a heading. -/
theorem shaped_heading {form : Form} (hheading : Matcher.heading.accepts form.atom = true)
    (hplain : form.atom ≠ "section-meta" ∧ form.atom ≠ "content") (hanswered : form.Answered) :
    Shaped [form] [.heading form.atom.length form.parameterText form.location] [] := by
  refine .of_plain (by simpa using hplain) (by simp [Node.isTitle, Node.isContent, Node.isTable]) ?_
  rw [Form.Answered, Form.asked, if_neg hplain.1, if_neg hplain.2] at hanswered
  obtain ⟨parameter, hparameter, htext⟩ := hanswered form (List.mem_singleton_self _)
  have hwords : form.parameterText? = some parameter.text := by rw [Form.parameterText?, hparameter]; rfl
  simp only [Matcher.accepts, Bool.and_eq_true, Bool.not_eq_true', List.all_eq_true, beq_iff_eq]
    at hheading
  obtain ⟨hsome, hsigns⟩ := hheading
  intro node hnode
  obtain rfl := List.mem_singleton.1 hnode
  have hlength : form.atom.length = form.atom.toList.length := String.length_toList.symm
  refine ⟨?_, ?_, form, List.mem_singleton_self _, rfl, ?_, ?_⟩
  · rw [hlength, Nat.one_le_iff_ne_zero]
    intro hzero
    have hnone : form.atom = "" := String.toList_eq_nil_iff.1 (List.length_eq_zero_iff.1 hzero)
    rw [hnone] at hsome
    cases hsome
  · rw [Form.parameterText, hwords]
    exact htext
  · rw [hlength]
    exact List.eq_replicate_of_mem hsigns
  · rw [Form.parameterText, hwords]
    rfl

theorem Item.mem_forms_iff {items : List Item} {form : Form} :
    form ∈ Item.forms items ↔ .form form ∈ items := by
  induction items with
  | nil => simp [Item.forms]
  | cons item rest ih =>
    cases item with
    | prose text location => simpa [Item.forms] using ih
    | form first => simp [Item.forms, ih]

/-- **One item**: its nodes and entries are those its directive stands for. -/
theorem Item.shaped_of_reading {document : Coordinate} {items : List Item}
    (hcheck : Grammar.document.check document.start items = .ok ())
    (hanswered : ∀ form ∈ Item.forms items, form.Answered) {item : Item} (hitem : item ∈ items)
    {read : List Node × List Entry} {notes : List Note} (h : item.reading = .ok (read, notes)) :
    Shaped (Item.forms [item]) read.1 read.2 := by
  cases item with
  | prose text location =>
    cases h
    exact shaped_prose text location
  | form form =>
    have hform : form ∈ Item.forms items := Item.mem_forms_iff.2 hitem
    rw [Item.reading] at h
    split at h
    next hmeta =>
      obtain ⟨found, hfound, heq⟩ := except_map_eq_ok.1 h
      cases heq
      exact shaped_sectionMeta hmeta hfound
    next hmeta =>
      split at h
      next hcontent =>
        obtain ⟨nodes, hnodes, heq⟩ := except_map_eq_ok.1 h
        cases heq
        exact shaped_content hcontent hnodes
      next hcontent =>
        split at h
        next hpath =>
          obtain ⟨id, hid, heq⟩ := except_map_eq_ok.1 h
          cases heq
          refine .of_plain (by simpa [Item.forms] using ⟨hmeta, hcontent⟩)
            (by simp [Node.isTitle, Node.isContent, Node.isTable]) ?_
          simpa [Node.IsSound] using lowerKebab_of_isId (isId_of_readId hid)
        next hpath =>
          cases h
          -- what is left is what the grammar takes for a heading
          have hheading : Matcher.heading.accepts form.atom = true := by
            rcases document_form_cases hcheck hform with ⟨hatom, -⟩ | ⟨hatom, -⟩ | ⟨hatom, -⟩
            · exact absurd hatom hmeta
            · exact absurd hatom hcontent
            · exact hatom.resolve_left hpath
          exact shaped_heading hheading ⟨hmeta, hcontent⟩ (hanswered form hform)

/-- **All items.** -/
theorem Item.shaped_of_readingAll {document : Coordinate} {items : List Item}
    (hcheck : Grammar.document.check document.start items = .ok ())
    (hanswered : ∀ form ∈ Item.forms items, form.Answered) {some : List Item} (hsome : some ⊆ items)
    {read : List Node × List Entry} {notes : List Note}
    (h : Item.readingAll some = .ok (read, notes)) : Shaped (Item.forms some) read.1 read.2 := by
  induction some generalizing read notes with
  | nil =>
    cases h
    exact .nil
  | cons item rest ih =>
    rw [Item.readingAll] at h
    obtain ⟨⟨first, firstNotes⟩, hfirst, h⟩ := except_bind_eq_ok.1 h
    obtain ⟨⟨others, otherNotes⟩, hothers, heq⟩ := except_map_eq_ok.1 h
    cases heq
    obtain ⟨hitem, hrest⟩ := List.cons_subset.1 hsome
    rw [Item.forms_cons]
    exact (Item.shaped_of_reading hcheck hanswered hitem hfirst).append (ih hrest hothers)

/-- Whether an item is blank prose. -/
def Item.isSilent : Item → Bool
  | .prose text _ => isBlankText text
  | .form _ => false

/-- A single item makes no node exactly if it is blank prose. -/
theorem Item.nodes_eq_nil_iff {item : Item} {read : List Node × List Entry} {notes : List Note}
    (h : item.reading = .ok (read, notes)) : read.1 = [] ↔ item.isSilent = true := by
  cases item with
  | prose text location =>
    cases h
    unfold Node.ofProse? Item.isSilent
    split <;> simp_all
  | form form =>
    have hsome : read.1 ≠ [] := by
      rw [Item.reading] at h
      split at h
      next =>
        obtain ⟨found, -, heq⟩ := except_map_eq_ok.1 h
        cases heq
        exact List.cons_ne_nil _ _
      next =>
        split at h
        next =>
          obtain ⟨nodes, hnodes, heq⟩ := except_map_eq_ok.1 h
          cases heq
          rintro rfl
          cases (readContent_cases hnodes).2
        next =>
          split at h
          next =>
            obtain ⟨id, -, heq⟩ := except_map_eq_ok.1 h
            cases heq
            exact List.cons_ne_nil _ _
          next =>
            cases h
            exact List.cons_ne_nil _ _
    simp [hsome, Item.isSilent]

theorem Item.nodesAll_eq_nil_iff {items : List Item} {read : List Node × List Entry}
    {notes : List Note} (h : Item.readingAll items = .ok (read, notes)) :
    read.1 = [] ↔ ∀ item ∈ items, item.isSilent = true := by
  induction items generalizing read notes with
  | nil =>
    cases h
    simp
  | cons item rest ih =>
    rw [Item.readingAll] at h
    obtain ⟨⟨first, firstNotes⟩, hfirst, h⟩ := except_bind_eq_ok.1 h
    obtain ⟨⟨others, otherNotes⟩, hothers, heq⟩ := except_map_eq_ok.1 h
    cases heq
    rw [List.append_eq_nil_iff, Item.nodes_eq_nil_iff hfirst, ih hothers, List.forall_mem_cons]

/-- Items are silent if there is no form among them and all prose is blank. -/
theorem Item.isSilent_iff {items : List Item} :
    (∀ item ∈ items, item.isSilent = true) ↔ Item.forms items = [] ∧
      ∀ text location, .prose text location ∈ items → isBlankText text = true := by
  induction items with
  | nil => simp [Item.forms]
  | cons item rest ih =>
    rw [List.forall_mem_cons, ih]
    cases item with
    | form form => simp [Item.isSilent, Item.forms]
    | prose text location =>
      simp only [Item.isSilent, Item.forms, List.mem_cons]
      constructor
      · rintro ⟨hblank, hnone, hrest⟩
        refine ⟨hnone, ?_⟩
        rintro other place (heq | hmem)
        · cases heq
          exact hblank
        · exact hrest other place hmem
      · rintro ⟨hnone, hall⟩
        exact ⟨hall text location (.inl rfl), hnone, fun other place hmem => hall other place (.inr hmem)⟩

/-! ## Warnings -/

mutual

/-- A note adds its warnings to the innermost list of warnings. -/
theorem Note.column_warnings_enter {table after : Table} :
    (note : Note) → note.Valid → note.enter table = some after →
      after.column Table.warningsKey = warnColumnAll note.warnings (table.column Table.warningsKey)
  | .author name, _, henter => by
    cases henter
    exact Table.column_appendGlobal_of_ne _ _ (by decide)
  | .declaration id document link, hvalid, henter => by
    rw [Note.enter, Table.register] at henter
    have hne : Table.warningsKey ≠ id := (ne_of_isId hvalid isId_warningsKey).symm
    split at henter
    · split at henter
      · cases henter
        rfl
      · cases henter
    · cases henter
      exact Table.column_setGlobal_of_ne _ _ hne
  | .warning given, _, henter => by
    cases henter
    exact Table.column_warn_self table given
  | .within source notes, hvalid, henter => by
    rw [Note.enter] at henter
    obtain ⟨inner, hinner, rfl⟩ := Option.map_eq_some_iff.1 henter
    have hcolumn := Note.column_warnings_enterAll notes hvalid hinner
    rw [Table.column_set_of_ne _ _ (by decide), Table.column_push, warnColumnAll_none] at hcolumn
    -- exactly the scope that was opened is dropped, and it holds no warnings
    have hdepth := congrArg List.length (Note.enterAll_destination notes hvalid hinner)
    rw [Table.length_column, Table.length_column, Table.length_inner_set] at hdepth
    have hone : inner.inner.length - table.inner.length = 1 := by
      rw [Nat.add_right_cancel hdepth]
      exact Nat.add_sub_cancel_left table.inner.length 1
    rw [Table.column_keep, hone, hcolumn]
    rfl

/-- **Notes add their warnings to the innermost list of warnings.** -/
theorem Note.column_warnings_enterAll {table after : Table} :
    (notes : List Note) → Note.AllValid notes → Note.enterAll notes table = some after →
      after.column Table.warningsKey =
        warnColumnAll (Note.warningsAll notes) (table.column Table.warningsKey)
  | [], _, henter => by
    cases henter
    rfl
  | note :: rest, hvalid, henter => by
    rw [Note.enterAll] at henter
    obtain ⟨middle, hmiddle, hrest⟩ := Option.bind_eq_some_iff.1 henter
    rw [Note.column_warnings_enterAll rest hvalid.2 hrest,
      Note.column_warnings_enter note hvalid.1 hmiddle, Note.warningsAll, warnColumnAll,
      warnColumnAll, warnColumnAll, List.foldl_append]

end

/-! ## Pages -/

/-- What can be relied on of a page that was read from some directives. -/
structure Page.WellFormed (forms : List Form) (page : Page) : Prop where
  titles : page.nodes.countP Node.isTitle ≤ 1
  contents : page.nodes.countP Node.isContent ≤ 1
  tables : page.nodes.countP Node.isTable ≤ 1
  follows : ContentFollows page.nodes
  titled : page.entries ≠ [] → page.nodes.any Node.isTitle = true
  unresolved : ∀ included ∈ page.toSection.includes, included.2 = none
  sound : ∀ node ∈ page.nodes, node.IsSound forms

/-- The warning that a page deserves if it includes sections and has no place for them. -/
def dueWarnings : Option Page → List Warning
  | none => []
  | some page =>
    if page.entries ≠ [] ∧ ∀ node ∈ page.nodes, node.isContent = false then [page.missingContent]
    else []

/-- Where nothing collects warnings, none are collected. -/
theorem warnColumnAll_eq_self (given : List Warning) {column : List (Option Value)}
    (h : ∀ list, some (Value.warnings list) ∉ column) : warnColumnAll given column = column := by
  induction given with
  | nil => rfl
  | cons warning rest ih =>
    rw [warnColumnAll, List.foldl_cons, Table.warnColumn_eq_self warning h]
    exact ih

theorem Page.warningsAll_outcome (page : Page) :
    Note.warningsAll page.outcome.2 = dueWarnings page.outcome.1 := by
  have hlacks : page.isMissingContent = true ↔
      page.entries ≠ [] ∧ ∀ node ∈ page.nodes, node.isContent = false := by
    simp [Page.isMissingContent, Page.hasContent]
  rw [(Page.outcome_notes page).2]
  unfold Page.outcome
  by_cases hempty : (page.nodes.isEmpty && page.entries.isEmpty) = true
  · -- a page that says nothing includes nothing
    rw [if_pos hempty]
    rw [Bool.and_eq_true, List.isEmpty_iff, List.isEmpty_iff] at hempty
    rw [if_neg fun hmissing => (hlacks.1 hmissing).1 hempty.2]
    rfl
  · rw [if_neg hempty]
    simp only [dueWarnings, hlacks]

/-- A page is there unless nothing was read. -/
theorem Page.outcome_eq_none_iff {page : Page} (htitled : page.entries ≠ [] → page.nodes ≠ []) :
    page.outcome.1 = none ↔ page.nodes = [] := by
  unfold Page.outcome
  split
  next hempty =>
    rw [Bool.and_eq_true, List.isEmpty_iff] at hempty
    simp [hempty.1]
  next hsome =>
    simp only [reduceCtorEq, false_iff]
    intro hnone
    rw [hnone] at hsome htitled
    have hentries : page.entries = [] := Classical.byContradiction fun h => htitled h rfl
    rw [hentries] at hsome
    exact hsome rfl

theorem Page.eq_of_outcome {page found : Page} (h : page.outcome.1 = some found) : page = found := by
  unfold Page.outcome at h
  split at h
  · cases h
  · exact Option.some.inj h

/-- **What is read is a well-formed page.** A document has no page exactly if it has no directives and its prose is blank.
Every parameter that is read is there and is not empty. The page keeps to all that is relied on; and its warning, if it
deserves one, is added to the innermost list of warnings there is, and otherwise no list changes. -/
theorem wellFormed_of_ofText {document : Coordinate} {text : String} {table after : Table}
    {page : Option Page} (h : Page.ofText document text table = (.ok page, after)) :
    ∃ items, documentItems document text = .ok items ∧
      (page = none ↔ Item.forms items = [] ∧
        ∀ prose location, .prose prose location ∈ items → isBlankText prose = true) ∧
      (∀ found, page = some found → found.WellFormed (Item.forms items)) ∧
      (∀ form ∈ Item.forms items, ∀ asked ∈ form.asked,
        ∃ parameter, asked.parameter = some parameter ∧ parameter.text ≠ "") ∧
      (∀ inner given outer, (∀ list, some (.warnings list) ∉ inner) →
        table.column Table.warningsKey = inner ++ some (.warnings given) :: outer →
        after.column Table.warningsKey =
          inner ++ some (.warnings (given ++ dueWarnings page)) :: outer) ∧
      ((∀ list, some (.warnings list) ∉ table.column Table.warningsKey) →
        after.column Table.warningsKey = table.column Table.warningsKey) := by
  obtain ⟨hdepth, hindex⟩ := Page.valid_of_ofText h
  obtain ⟨notes, hreading, hentered⟩ := (Page.ofText_eq_ok_iff hdepth hindex).1 h
  have hvalid := (Page.reading_spec hreading none none).1
  have hcolumn := Note.column_warnings_enterAll notes hvalid hentered
  obtain ⟨items, hitems, hpage⟩ := except_bind_eq_ok.1 hreading
  obtain ⟨_, hcheck, hpage⟩ := except_bind_eq_ok.1 hpage
  obtain ⟨⟨⟨nodes, entries⟩, readNotes⟩, hread, heq⟩ := except_map_eq_ok.1 hpage
  cases heq
  have hanswered : ∀ form ∈ Item.forms items, form.Answered :=
    fun form hform => answered_of_check hitems hcheck hform
  have hshaped := Item.shaped_of_readingAll hcheck hanswered (List.Subset.refl items) hread
  have hforms : checkForms Grammar.document.name document.start Grammar.document.root []
      (Item.forms items) = .ok () := by
    rw [Grammar.check_eq] at hcheck
    exact hcheck
  have hsection : governing? Grammar.document.root "section-meta" =
      some ((Grammar.sectionMeta, .atMostOnce), 0) := rfl
  have hplace : governing? Grammar.document.root "content" =
      some ((Grammar.content, .atMostOnce), 1) := rfl
  have honeTitle := countP_atom_of_checkForms hsection rfl hforms
  have honePlace := countP_atom_of_checkForms hplace rfl hforms
  have hsections : SectionsChecked (Item.forms items) := by
    intro form hform hatom
    exact Rule.check_of_checkForms hforms hform (hatom ▸ hsection)
  have hquiet := (Item.tells_of_readingAll hsections hread).warnings
  rw [Note.warningsAll_append, hquiet, List.nil_append, Page.warningsAll_outcome] at hcolumn
  refine ⟨items, hitems, ?_, ?_, fun form hform => hanswered form hform, ?_, ?_⟩
  · rw [← Item.isSilent_iff, ← Item.nodesAll_eq_nil_iff hread]
    refine Page.outcome_eq_none_iff fun hentries hnone => ?_
    have htitle := hshaped.titled hentries
    rw [show nodes = [] from hnone] at htitle
    cases htitle
  · intro found hfound
    obtain rfl := Page.eq_of_outcome hfound
    refine ⟨?_, ?_, ?_, hshaped.follows, hshaped.titled, ?_, hshaped.sound⟩
    · exact hshaped.titles ▸ honeTitle
    · exact hshaped.contents ▸ honePlace
    · exact Nat.le_trans hshaped.tables honePlace
    · intro included hincluded
      obtain ⟨entry, -, rfl⟩ := List.mem_map.1 hincluded
      rfl
  · intro inner given outer hinner hbefore
    rw [hcolumn, hbefore, warnColumnAll_innermost _ hinner]
  · intro hnone
    rw [hcolumn, warnColumnAll_eq_self _ hnone]

/-- A document with prose, a heading, a path and an include that has no place. -/
def lackingText : String :=
  "a\n<!-- (dl (section-meta (title A) (include (S ./s.md)))(## H)(get-path a-b)) --> b"

/-- A table whose inner scope has something else in place of a list of warnings. -/
def shadowingTable : Table := Table.new.push.set Table.warningsKey (.text "x")

theorem wellFormed_of_lackingText : ∃ page after items,
    Page.ofText ⟨"/docs/a.md", 1, 1⟩ lackingText shadowingTable = (.ok (some page), after) ∧
    documentItems ⟨"/docs/a.md", 1, 1⟩ lackingText = .ok items ∧
    page.nodes.map (·.location.position) = [⟨1, 1⟩, ⟨2, 10⟩, ⟨2, 55⟩, ⟨2, 61⟩, ⟨2, 80⟩] ∧
    page.WellFormed (Item.forms items) ∧
    after.column Table.warningsKey =
      [some (.text "x"), some (.warnings [page.missingContent])] := by
  have hfound : (Page.ofText ⟨"/docs/a.md", 1, 1⟩ lackingText shadowingTable).1.toOption.map
      (Option.map fun page => (page.nodes.map (·.location.position),
        decide (dueWarnings (some page) = [page.missingContent]))) =
        some (some ([⟨1, 1⟩, ⟨2, 10⟩, ⟨2, 55⟩, ⟨2, 61⟩, ⟨2, 80⟩], true)) := by
    decide +kernel
  obtain ⟨page, hresult, htold⟩ := exists_some_of_map hfound
  obtain ⟨hnodes, hdue⟩ := Prod.mk.inj htold
  have hrun := eq_mk_of_fst_eq hresult
  obtain ⟨items, hitems, -, hformed, -, hwarned, -⟩ := wellFormed_of_ofText hrun
  have hcolumn := hwarned [some (.text "x")] [] [] (by simp) (by decide +kernel)
  rw [of_decide_eq_true hdue] at hcolumn
  exact ⟨page, _, items, hrun, hitems, hnodes, hformed page rfl, hcolumn⟩

/-- A table in which no scope has a list of warnings. -/
def listlessTable : Table := Table.new.set Table.warningsKey (.text "x")

/-- Where no scope has a list of warnings, a page that deserves a warning gets none. -/
theorem unwarned_of_listlessTable : ∃ page,
    Page.ofText ⟨"/docs/readme.md", 1, 1⟩
      "<!-- (dl (section-meta (title A) (include (S ./s.md)))) -->" listlessTable =
        (.ok (some page), listlessTable) ∧
    page.entries ≠ [] ∧ page.hasContent = false := by
  have hfound : (Page.ofText ⟨"/docs/readme.md", 1, 1⟩
      "<!-- (dl (section-meta (title A) (include (S ./s.md)))) -->" listlessTable).1.toOption.map
        (Option.map fun page => (page.entries.length, page.hasContent)) = some (some (1, false)) := by
    decide +kernel
  have hafter : (Page.ofText ⟨"/docs/readme.md", 1, 1⟩
      "<!-- (dl (section-meta (title A) (include (S ./s.md)))) -->" listlessTable).2 =
        listlessTable := by
    decide +kernel
  obtain ⟨page, hresult, htold⟩ := exists_some_of_map hfound
  obtain ⟨hentries, hcontent⟩ := Prod.mk.inj htold
  refine ⟨page, Prod.ext hresult hafter, ?_, hcontent⟩
  intro hnone
  rw [hnone] at hentries
  cases hentries

end Bindery
