import Bindery.Proofs.Form.Printing
import Bindery.Proofs.Page.Notes
import Bindery.Proofs.Source.Prose
import Bindery.Section.Layout

/-!
# `Proofs.Section.Reprinting` — generated prose is left alone

A document that is all prose is written between two marks, with blank lines around it and none of its own at both ends.
The marks are comments. So if the result is compiled again, they are dropped, the prose is found in between as it was, and
what is written is the same text.

## Contents
- `exists_kept`: what is kept of a text when its blank ends are dropped.
- `generated`, `layOut_inline`: prose between two marks.
- `Page.ofText_prose`, `WrittenAs`, `writtenAs_of_prose`: what is written of a page that is all prose.
- `Settled`, `Settled.split_generated`, `Settled.writtenAs`: prose that is found and written again as it was.
- `render_generated`: compiling generated prose again changes nothing.
-/

namespace Bindery

open Source Text

/-! ## Trimming -/

/-- What is trimmed from the end of a text is blank. -/
theorem exists_trimEnd (cs : List Char) :
    ∃ blanks, cs = trimEnd cs ++ blanks ∧ ∀ c ∈ blanks, isBlank c = true := by
  induction cs with
  | nil => exact ⟨[], rfl, List.forall_mem_nil _⟩
  | cons c rest ih =>
    obtain ⟨blanks, hrest, hblanks⟩ := ih
    rw [trimEnd]
    split
    next hnone =>
      rw [hnone, List.nil_append] at hrest
      split
      next hc => exact ⟨c :: rest, rfl, List.forall_mem_cons.2 ⟨hc, hrest ▸ hblanks⟩⟩
      next => exact ⟨rest, rfl, hrest ▸ hblanks⟩
    next d kept hkept =>
      rw [hkept] at hrest
      exact ⟨blanks, congrArg (c :: ·) hrest, hblanks⟩

theorem isBlank_last_trimEnd (cs : List Char) : ∀ c ∈ (trimEnd cs).getLast?, isBlank c = false := by
  induction cs with
  | nil => rintro _ ⟨⟩
  | cons c rest ih =>
    rw [trimEnd]
    split
    next =>
      split
      next => rintro _ ⟨⟩
      next hc =>
        rintro d ⟨⟩
        simpa using hc
    next d kept hkept =>
      rw [hkept] at ih
      rw [List.getLast?_cons_cons]
      exact ih

theorem trimEnd_trimEnd (cs : List Char) : trimEnd (trimEnd cs) = trimEnd cs :=
  trimEnd_eq_self (isBlank_last_trimEnd cs)

/-- Trimming does not reach beyond what can be seen. -/
theorem trimEnd_append_of_ne {cs : List Char} (h : trimEnd cs ≠ []) (before : List Char) :
    trimEnd (before ++ cs) = before ++ trimEnd cs := by
  induction before with
  | nil => rfl
  | cons c rest ih =>
    obtain ⟨d, kept, hkept⟩ := List.exists_cons_of_ne_nil
      (List.append_ne_nil_of_right_ne_nil rest h)
    rw [List.cons_append, trimEnd, ih, hkept]
    show c :: d :: kept = c :: (rest ++ trimEnd cs)
    rw [hkept]

/-- The first line of a text is not blank. -/
def StartsSeen (cs : List Char) : Prop :=
  ∃ blanks c rest, cs = blanks ++ c :: rest ∧ (∀ b ∈ blanks, isBlank b = true ∧ b ≠ '\n') ∧
    isBlank c = false

theorem StartsSeen.append {cs : List Char} (h : StartsSeen cs) (more : List Char) :
    StartsSeen (cs ++ more) := by
  obtain ⟨blanks, c, rest, rfl, hblanks, hc⟩ := h
  exact ⟨blanks, c, rest ++ more, by simp, hblanks, hc⟩

theorem StartsSeen.trimEnd {cs : List Char} (h : StartsSeen cs) : StartsSeen (trimEnd cs) := by
  obtain ⟨blanks, c, rest, rfl, hblanks, hc⟩ := h
  have hkept : Text.trimEnd (c :: rest) = c :: Text.trimEnd rest := by
    rw [Text.trimEnd]
    split
    next hnone => rw [hnone, if_neg (by simp [hc])]
    next d kept hkept => rw [hkept]
  have hsome : Text.trimEnd (c :: rest) ≠ [] := by
    rw [hkept]
    exact List.cons_ne_nil _ _
  refine ⟨blanks, c, Text.trimEnd rest, ?_, hblanks, hc⟩
  rw [trimEnd_append_of_ne hsome, hkept]

theorem StartsSeen.ne_nil {cs : List Char} (h : StartsSeen cs) : cs ≠ [] := by
  obtain ⟨blanks, c, rest, rfl, -⟩ := h
  exact List.append_ne_nil_of_right_ne_nil _ (List.cons_ne_nil _ _)

/-- A line that can be seen is not dropped, and what was read of it comes back. -/
theorem dropBlankLines_line {blanks : List Char} (hblanks : ∀ b ∈ blanks, isBlank b = true ∧ b ≠ '\n')
    {c : Char} (hc : isBlank c = false) (location : Location) (line rest : List Char) :
    dropBlankLines location line (blanks ++ c :: rest) =
      (location, line.reverse ++ (blanks ++ c :: rest)) := by
  induction blanks generalizing line with
  | nil =>
    have hnewline : c ≠ '\n' := by
      rintro rfl
      cases hc
    rw [List.nil_append, dropBlankLines, if_neg hnewline, if_neg (by simp [hc])]
  | cons b more ih =>
    obtain ⟨⟨hblank, hnewline⟩, hmore⟩ := List.forall_mem_cons.1 hblanks
    rw [List.cons_append, dropBlankLines, if_neg hnewline, if_pos hblank, ih hmore]
    simp

theorem StartsSeen.dropBlankLines_eq {cs : List Char} (h : StartsSeen cs) (location : Location) :
    dropBlankLines location [] cs = (location, cs) := by
  obtain ⟨blanks, c, rest, rfl, hblanks, hc⟩ := h
  exact dropBlankLines_line hblanks hc location [] rest

/-- What is dropped at the start of a text is blank, and what is left starts with a line that is not. -/
theorem dropBlankLines_spec {cs line : List Char} (hsome : ¬ ∀ c ∈ cs, isBlank c = true)
    (hline : ∀ b ∈ line, isBlank b = true ∧ b ≠ '\n') (location : Location) :
    ∃ lead, line.reverse ++ cs = lead ++ (dropBlankLines location line cs).2 ∧
      (∀ c ∈ lead, isBlank c = true) ∧ StartsSeen (dropBlankLines location line cs).2 := by
  induction cs generalizing line location with
  | nil => exact absurd (List.forall_mem_nil _) hsome
  | cons c rest ih =>
    rw [dropBlankLines]
    split
    next hnewline =>
      have hblank : isBlank c = true := by
        rw [hnewline]
        decide
      have hrest : ¬ ∀ d ∈ rest, isBlank d = true :=
        fun hall => hsome (List.forall_mem_cons.2 ⟨hblank, hall⟩)
      obtain ⟨lead, hlead, hblanks, hseen⟩ := ih hrest (List.forall_mem_nil _) location.nextLine
      have hall : ∀ d ∈ c :: lead, isBlank d = true := List.forall_mem_cons.2 ⟨hblank, hblanks⟩
      refine ⟨line.reverse ++ c :: lead, ?_, ?_, hseen⟩
      · rw [List.append_assoc, List.cons_append, ← hlead]
        rfl
      · intro d hd
        rcases List.mem_append.1 hd with hd | hd
        · exact (hline d (List.mem_reverse.1 hd)).1
        · exact hall d hd
    next hnewline =>
      split
      next hblank =>
        have hrest : ¬ ∀ d ∈ rest, isBlank d = true :=
          fun hall => hsome (List.forall_mem_cons.2 ⟨hblank, hall⟩)
        obtain ⟨lead, hlead, hblanks, hseen⟩ :=
          ih hrest (List.forall_mem_cons.2 ⟨⟨hblank, hnewline⟩, hline⟩) location
        refine ⟨lead, ?_, hblanks, hseen⟩
        rw [← hlead]
        simp
      next hblank =>
        refine ⟨[], rfl, List.forall_mem_nil _, line.reverse, c, rest, rfl, ?_, by simpa using hblank⟩
        intro b hb
        exact hline b (List.mem_reverse.1 hb)

theorem trimEnd_dropBlankEnd (cs : List Char) : trimEnd (dropBlankEnd cs) = trimEnd cs := by
  unfold dropBlankEnd
  split
  next => exact trimEnd_trimEnd cs
  next => rfl

/-- **What is kept of a text** is all but blanks at its ends, and starts with a line that is not blank. -/
theorem exists_kept {cs : List Char} (hsome : ¬ ∀ c ∈ cs, isBlank c = true) (location : Location) :
    ∃ lead value trail, cs = lead ++ (value ++ trail) ∧ (∀ c ∈ lead, isBlank c = true) ∧
      (∀ c ∈ trail, isBlank c = true) ∧ StartsSeen value ∧
      trimEnd (dropBlankLines location [] cs).2 = value := by
  obtain ⟨lead, hlead, hblanks, hseen⟩ := dropBlankLines_spec hsome (List.forall_mem_nil _) location
  obtain ⟨trail, htrail, hends⟩ := exists_trimEnd (dropBlankLines location [] cs).2
  refine ⟨lead, _, trail, ?_, hblanks, hends, hseen.trimEnd, rfl⟩
  rw [← htrail]
  exact hlead

/-! ## Prose between two marks -/

/-- Prose as it is written: between two marks, with a blank line on both sides. -/
def generated (value : List Char) : List Char :=
  generatedMark.toList ++
    ((['\n', '\n'] ++ value) ++ (['\n', '\n'] ++ (generatedMark.toList ++ ['\n'])))

theorem trimEnd_generatedMark : trimEnd generatedMark.toList = generatedMark.toList := by
  decide +kernel

theorem generatedMark_isEmpty : generatedMark.isEmpty = false := by decide +kernel

theorem layOut_inline {text : String} (h : trimEnd text.toList ≠ []) (location : Location) :
    layOut [.inline text location] = String.ofList (generated (trimEnd text.toList)) := by
  have hfirst : Sheet.add .empty (.block generatedMark) = ⟨generatedMark.toList, none⟩ := by
    rw [Sheet.add, if_neg (by simp [generatedMark_isEmpty])]
    rfl
  have hprose : Sheet.add ⟨generatedMark.toList, none⟩ (.inline text location) =
      ⟨(generatedMark.toList ++ ['\n', '\n']) ++ text.toList,
        some (Sheet.endOf text.toList location)⟩ := by
    simp only [Sheet.add, Sheet.continues, Bool.false_eq_true, if_false]
    rw [Sheet.separated, if_neg (by decide +kernel), trimEnd_generatedMark]
  have hlast : Sheet.add ⟨(generatedMark.toList ++ ['\n', '\n']) ++ text.toList,
        some (Sheet.endOf text.toList location)⟩ (.block generatedMark) =
      ⟨(((generatedMark.toList ++ ['\n', '\n']) ++ trimEnd text.toList) ++ ['\n', '\n']) ++
        generatedMark.toList, none⟩ := by
    rw [Sheet.add, if_neg (by simp [generatedMark_isEmpty]), Sheet.separated, if_neg (by simp),
      trimEnd_append_of_ne h]
  have hend : generatedMark.toList.getLast? = some '>' := by decide +kernel
  unfold layOut
  dsimp only [List.cons_append, List.nil_append, List.foldl_cons, List.foldl_nil]
  rw [hfirst, hprose, hlast, Sheet.finish, List.getLast?_append, hend]
  simp [generated]

/-! ## Pages that are all prose -/

/-- A document of one run of prose is a page with one node, or none if the prose is blank. -/
theorem Page.ofText_prose {document : Coordinate} {text prose : String} {location : Location}
    (h : split document text = .ok [.prose prose location]) (table : Table) :
    Page.ofText document text table =
      (.ok ((Node.ofProse? prose location).map fun node => ⟨location.document.start, [node], []⟩),
        table) := by
  have hread : (Item.ofTokens [.prose prose location]).bind (Page.readingOf location.document) =
      .ok ((Node.ofProse? prose location).map fun node => ⟨location.document.start, [node], []⟩, []) := by
    show Page.readingOf location.document [.prose prose location] = _
    have hcheck : Grammar.document.check location.document.start [.prose prose location] = .ok () := rfl
    rw [Page.readingOf, hcheck]
    simp only [Item.readingAll, Item.reading]
    cases Node.ofProse? prose location <;> rfl
  have hplace : ∀ token ∈ [Token.prose prose location], token.location.document = location.document := by
    intro token htoken
    cases List.mem_singleton.1 htoken
    rfl
  have htokens := (ofTokens_eq_ok_iff hplace).2 ⟨[], hread, show _ = some table from rfl⟩
  unfold Page.ofText
  rw [h]
  show (((Page.ofTokens [.prose prose location]).exec table).1.mapError Fault.toFailure,
    ((Page.ofTokens [.prose prose location]).exec table).2) = _
  rw [htokens]
  rfl

theorem Page.ofText_nil {document : Coordinate} {text : String} (h : split document text = .ok [])
    (table : Table) : Page.ofText document text table = (.ok none, table) := by
  unfold Page.ofText
  rw [h]
  rfl

theorem render_prose (table : Table) (start location : Location) {text : String}
    (h : trimEnd text.toList ≠ []) :
    render table (some (Page.toSection ⟨start, [.prose text location], []⟩)) =
      .ok (String.ofList (generated (trimEnd text.toList))) := by
  rw [← layOut_inline h location]
  rfl

/-- What is written of a document on its own, whatever the tables it is read and laid out with. -/
def WrittenAs (document : Coordinate) (text out : String) : Prop :=
  ∀ table other, ∃ page, Page.ofText document text table = (.ok page, table) ∧
    render other (page.map Page.toSection) = .ok out

theorem writtenAs_of_split_nil {document : Coordinate} {text : String}
    (h : split document text = .ok []) : WrittenAs document text "" := by
  intro table other
  exact ⟨none, Page.ofText_nil h table, rfl⟩

/-- Of blank prose nothing is written. -/
theorem writtenAs_of_blank {document : Coordinate} {text : String} {prose : List Char}
    {location : Location} (h : split document text = .ok [.prose (String.ofList prose) location])
    (hblank : ∀ c ∈ prose, isBlank c = true) : WrittenAs document text "" := by
  have hnode : Node.ofProse? (String.ofList prose) location = none := by
    rw [Node.ofProse?, isBlankText, String.toList_ofList, if_pos (List.all_eq_true.2 hblank)]
  intro table other
  refine ⟨none, ?_, rfl⟩
  rw [Page.ofText_prose h, hnode]
  rfl

/-- Of other prose what can be seen of it is written. -/
theorem writtenAs_of_prose {document : Coordinate} {text : String} {prose : List Char}
    {location : Location} (h : split document text = .ok [.prose (String.ofList prose) location])
    (hsome : ¬ ∀ c ∈ prose, isBlank c = true) :
    WrittenAs document text
      (String.ofList (generated (trimEnd (dropBlankLines location [] prose).2))) := by
  obtain ⟨lead, -, -, hseen⟩ := dropBlankLines_spec hsome (List.forall_mem_nil _) location
  generalize hkept : (dropBlankLines location [] prose).2 = kept at hseen ⊢
  have hnode : Node.ofProse? (String.ofList prose) location =
      some (.prose (String.ofList (dropBlankEnd kept)) (dropBlankLines location [] prose).1) := by
    rw [Node.ofProse?, isBlankText, String.toList_ofList, if_neg (mt List.all_eq_true.1 hsome)]
    dsimp only
    rw [hkept]
  have hvalue : trimEnd (String.ofList (dropBlankEnd kept)).toList = trimEnd kept := by
    rw [String.toList_ofList, trimEnd_dropBlankEnd]
  intro table other
  refine ⟨_, Page.ofText_prose h table, ?_⟩
  rw [hnode, ← hvalue]
  refine render_prose other _ _ ?_
  rw [hvalue]
  exact hseen.trimEnd.ne_nil

/-! ## Compiling again -/

/-- Prose that is written as it is. -/
structure Settled (value : List Char) : Prop where
  prose : Prose value
  seen : StartsSeen value
  trimmed : trimEnd value = value
  unified : '\r' ∉ value

/-- What is kept of a text without comments is settled: blanks are no part of any code. -/
theorem settled_of_prose {lead value trail : List Char} (h : Prose (lead ++ (value ++ trail)))
    (hunified : '\r' ∉ lead ++ (value ++ trail)) (hlead : ∀ c ∈ lead, isBlank c = true)
    (htrail : ∀ c ∈ trail, isBlank c = true) (hseen : StartsSeen value)
    (htrimmed : trimEnd value = value) : Settled value where
  prose := (h.of_blank_append hlead).of_append_blank htrail
  seen := hseen
  trimmed := htrimmed
  unified hmem := hunified (List.mem_append_right _ (List.mem_append_left _ hmem))

theorem generatedMark_eq : generatedMark.toList =
    commentStart ++ (" Generated Document do not edit! ".toList ++ commentEnd) := by
  decide +kernel

/-- **Settled prose is found again between the marks.** -/
theorem Settled.split_generated {value : List Char} (h : Settled value) {document : Coordinate}
    (hdepth : 1 ≤ document.depth) (hindex : 1 ≤ document.index)
    (hkind : DocumentPath.Kind.ofExtension? document.extension? = .markdown) :
    ∃ location, split document (String.ofList (generated value)) =
      .ok [.prose (String.ofList ((['\n', '\n'] ++ value) ++ (['\n', '\n'] ++ ['\n']))) location] := by
  have hmark : '\r' ∉ generatedMark.toList := by decide +kernel
  have hreturn : '\r' ∉ generated value := by
    simp [generated, hmark, h.unified]
  have hdash : '-' ∉ " Generated Document do not edit! ".toList := by decide +kernel
  have hopen : '(' ∉ " Generated Document do not edit! ".toList := by decide +kernel
  have hinner : ∀ c ∈ " Generated Document do not edit! ".toList, c ≠ '-' ∧ c ≠ '(' :=
    fun c hc => ⟨fun heq => hdash (heq ▸ hc), fun heq => hopen (heq ▸ hc)⟩
  have hnewline : ∀ c ∈ ['\n'], isBlank c = true := forall_mem_singleton_blank (by decide)
  have hnewlines : ∀ c ∈ ['\n', '\n'], isBlank c = true := List.all_eq_true.1 (by decide)
  obtain ⟨location, hparts⟩ := splitMarkdown_prose generatedMark_eq hinner h.prose hnewlines
    hnewlines (List.cons_ne_nil _ _) hnewline document.start
  refine ⟨location, ?_⟩
  rw [split_eq hdepth hindex hreturn, splitText, hkind]
  dsimp only
  rw [generated, hparts]
  rfl

/-- **Settled prose is written as it was.** -/
theorem Settled.writtenAs {value : List Char} (h : Settled value) {document : Coordinate}
    (hdepth : 1 ≤ document.depth) (hindex : 1 ≤ document.index)
    (hkind : DocumentPath.Kind.ofExtension? document.extension? = .markdown) :
    WrittenAs document (String.ofList (generated value)) (String.ofList (generated value)) := by
  obtain ⟨location, hsplit⟩ := h.split_generated hdepth hindex hkind
  have hends : ∀ c ∈ ['\n', '\n'] ++ ['\n'], isBlank c = true := List.all_eq_true.1 (by decide)
  have hseen := h.seen.append (['\n', '\n'] ++ ['\n'])
  have hsome : ¬ ∀ c ∈ (['\n', '\n'] ++ value) ++ (['\n', '\n'] ++ ['\n']), isBlank c = true := by
    intro hall
    obtain ⟨blanks, c, rest, hvalue, -, hc⟩ := h.seen
    have hmem : c ∈ (['\n', '\n'] ++ value) ++ (['\n', '\n'] ++ ['\n']) := by simp [hvalue]
    rw [hall c hmem] at hc
    cases hc
  have hkept : (dropBlankLines location []
      ((['\n', '\n'] ++ value) ++ (['\n', '\n'] ++ ['\n']))).2 = value ++ (['\n', '\n'] ++ ['\n']) := by
    show (dropBlankLines location.nextLine.nextLine [] (value ++ (['\n', '\n'] ++ ['\n']))).2 = _
    rw [hseen.dropBlankLines_eq]
  have hwritten := writtenAs_of_prose hsplit hsome
  rw [hkept, trimEnd_append_blank hends, h.trimmed] at hwritten
  exact hwritten

theorem writtenAs_empty {document : Coordinate} (hdepth : 1 ≤ document.depth)
    (hindex : 1 ≤ document.index)
    (hkind : DocumentPath.Kind.ofExtension? document.extension? = .markdown) :
    WrittenAs document "" "" := by
  refine writtenAs_of_split_nil ?_
  have hempty : split document "" = (splitText document []).mapError Fault.toFailure :=
    split_eq hdepth hindex List.not_mem_nil
  rw [hempty, splitText, hkind]
  dsimp only
  rw [splitMarkdown, glyphs, pieces]
  rfl

/-- **Compiling generated prose again changes nothing.** Something is written of a Markdown document that is all prose, or
of which nothing is left. If that is taken for a Markdown document itself, it is written again as it is. Where there is
nothing to see it is empty, and otherwise it is the prose between two marks, with all of it but blanks at its ends. -/
theorem render_generated {document again : Coordinate}
    (hdocument : DocumentPath.Kind.ofExtension? document.extension? = .markdown)
    (hdepth : 1 ≤ again.depth) (hindex : 1 ≤ again.index)
    (hagain : DocumentPath.Kind.ofExtension? again.extension? = .markdown) {text : String}
    {cs : List Char} (hcs : unifyNewlines text.toList = cs)
    (h : split document text = .ok [] ∨
      ∃ location, split document text = .ok [.prose (String.ofList cs) location]) :
    ∃ out, WrittenAs document text out ∧ WrittenAs again out out ∧
      (out = "" ∧ (split document text = .ok [] ∨ ∀ c ∈ cs, isBlank c = true) ∨
        ∃ lead value trail, cs = lead ++ (value ++ trail) ∧ (∀ c ∈ lead, isBlank c = true) ∧
          (∀ c ∈ trail, isBlank c = true) ∧ StartsSeen value ∧
          out = String.ofList (generated value)) := by
  have hempty := writtenAs_empty hdepth hindex hagain
  rcases h with hnone | ⟨location, hsplit⟩
  · exact ⟨"", writtenAs_of_split_nil hnone, hempty, .inl ⟨rfl, .inl hnone⟩⟩
  by_cases hblank : ∀ c ∈ cs, isBlank c = true
  · exact ⟨"", writtenAs_of_blank hsplit hblank, hempty, .inl ⟨rfl, .inr hblank⟩⟩
  have hprose : Prose cs := by
    have hparts := hsplit
    unfold split at hparts
    split at hparts
    next => cases hparts
    next =>
      rw [hcs, except_mapError_eq_ok, splitText, hdocument] at hparts
      exact prose_of_splitMarkdown hparts
  have hreturn : '\r' ∉ cs := hcs ▸ not_mem_unifyNewlines text.toList
  have hwritten := writtenAs_of_prose hsplit hblank
  obtain ⟨lead, value, trail, rfl, hlead, htrail, hseen, hvalue⟩ := exists_kept hblank location
  have htrimmed : trimEnd value = value := by rw [← hvalue, trimEnd_trimEnd]
  have hsettled := settled_of_prose hprose hreturn hlead htrail hseen htrimmed
  rw [hvalue] at hwritten
  exact ⟨_, hwritten, hsettled.writtenAs hdepth hindex hagain,
    .inr ⟨lead, value, trail, rfl, hlead, htrail, hseen, rfl⟩⟩

/-- A document full of code, in which comments and blocks are opened and a line ends with a carriage return. -/
def codeText : String := " \n`<!-- (dl` ``\n```\n<!-- ` ``` x\r\n \n"

/-- Nothing in it is a comment, and its prose is the same after it was written and compiled again. -/
theorem render_generated_codeText : ∃ location out,
    split ⟨"a.md", 1, 1⟩ codeText =
      .ok [.prose (String.ofList (unifyNewlines codeText.toList)) location] ∧
    WrittenAs ⟨"a.md", 1, 1⟩ codeText out ∧ WrittenAs ⟨"b.md", 2, 3⟩ out out ∧
    ∃ value, StartsSeen value ∧ out = String.ofList (generated value) := by
  have hsplit : split ⟨"a.md", 1, 1⟩ codeText =
      .ok [.prose (String.ofList (unifyNewlines codeText.toList)) ⟨⟨"a.md", 1, 1⟩, ⟨1, 1⟩⟩] :=
    ok_of_toOption (by decide +kernel)
  have hkinds : DocumentPath.Kind.ofExtension? (Coordinate.extension? ⟨"a.md", 1, 1⟩) = .markdown ∧
      DocumentPath.Kind.ofExtension? (Coordinate.extension? ⟨"b.md", 2, 3⟩) = .markdown := by
    decide +kernel
  have hseen : ¬ ∀ c ∈ unifyNewlines codeText.toList, isBlank c = true := fun hblank =>
    absurd (hblank '<' (by decide +kernel)) (by decide)
  obtain ⟨out, hwritten, hagain, ⟨-, hnone | hblank⟩ | ⟨_, value, _, -, -, -, hvalue, hout⟩⟩ :=
    render_generated hkinds.1 (by decide) (by decide) hkinds.2 rfl (.inr ⟨_, hsplit⟩)
  · exact nomatch hsplit.symm.trans hnone
  · exact absurd hblank hseen
  · exact ⟨_, out, hsplit, hwritten, hagain, value, hvalue, hout⟩

end Bindery
