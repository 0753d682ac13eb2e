import Bindery.Proofs.Source.Blocks

/-!
# `Proofs.Source.Directives` — which texts are files of directives

Outside of all parentheses, a file of directives is meant to hold blanks only. Its scanner looks at backslashes before it
looks at anything else, so at that level it also lets pass a backslash together with whatever character it takes, and a
last backslash that takes none. These are loose here. A file is accepted exactly if it is made of blanks, groups and
loose characters; nothing else is told apart by how it is split.

## Contents
- `TopLevel`: text outside of all parentheses, and what is loose in it.
- `checkDirectives_eq_ok_iff`, `checkDirectives_topLevel`: the scanner.
- `split_directives_iff`: what is accepted, what it is split into, and when nothing is loose.
-/

namespace Bindery
namespace Source

open Text

/-! ## Outside of all parentheses -/

/-- Blanks and groups that open no block, and between them what is loose, in order: a backslash with the character it
takes, or without one at the end of the text. -/
inductive TopLevel : List (List Char) → List Char → Prop where
  | nil : TopLevel [] []
  | blank {loose : List (List Char)} {c : Char} {rest : List Char} (hblank : isBlank c = true)
      (hrest : TopLevel loose rest) : TopLevel loose (c :: rest)
  | group {loose : List (List Char)} {inner rest : List Char}
      (hblock : opensAt ('(' :: (inner ++ [')'])) = false) (hinner : Balanced inner)
      (hrest : TopLevel loose rest) : TopLevel loose ('(' :: (inner ++ ')' :: rest))
  | escape {loose : List (List Char)} {rest : List Char} (taken : Char)
      (hrest : TopLevel loose rest) : TopLevel (['\\', taken] :: loose) ('\\' :: taken :: rest)
  | last : TopLevel [['\\']] ['\\']

namespace TopLevel

/-- What is loose in a text can be told from the text. -/
theorem loose_eq {loose other : List (List Char)} {cs : List Char} (h : TopLevel loose cs)
    (hother : TopLevel other cs) : loose = other := by
  induction h generalizing other with
  | nil =>
    cases hother with
    | nil => rfl
  | blank hblank _ ih =>
    obtain ⟨hopen, -, hescape⟩ := plain_of_isBlank hblank
    cases hother with
    | blank _ hrest => exact ih hrest
    | group => exact absurd rfl hopen
    | escape | last => exact absurd rfl hescape
  | @group loose inner rest hblock hinner _ ih =>
    generalize hcs : '(' :: (inner ++ ')' :: rest) = cs at hother
    cases hother with
    | nil => cases hcs
    | blank hblank _ => exact absurd (List.cons.inj hcs).1.symm (plain_of_isBlank hblank).1
    | group _ hinner' hrest =>
      obtain ⟨rfl, rfl⟩ := hinner.eq_of_append_close hinner' (List.cons.inj hcs).2
      exact ih hrest
    | escape | last => exact absurd (List.cons.inj hcs).1 (by decide)
  | escape taken _ ih =>
    cases hother with
    | blank hblank _ => exact absurd rfl (plain_of_isBlank hblank).2.2
    | escape _ hrest => rw [ih hrest]
  | last =>
    cases hother with
    | blank hblank _ => exact absurd rfl (plain_of_isBlank hblank).2.2
    | last => rfl

/-- Unless it ends in a backslash, a text at the top level is balanced. -/
theorem balanced {loose : List (List Char)} {cs : List Char} (h : TopLevel loose cs)
    (hlast : ['\\'] ∉ loose) : Balanced cs := by
  induction h with
  | nil => exact .nil
  | blank hblank _ ih =>
    obtain ⟨hopen, hclose, hescape⟩ := plain_of_isBlank hblank
    exact .plain hopen hclose hescape (ih hlast)
  | group hblock hinner _ ih => exact .group hblock hinner (ih hlast)
  | escape taken _ ih => exact .escape taken (ih fun hmem => hlast (List.mem_cons_of_mem _ hmem))
  | last => exact absurd List.mem_cons_self hlast

theorem getLast?_of_mem {loose : List (List Char)} {cs : List Char} (h : TopLevel loose cs)
    (hlast : ['\\'] ∈ loose) : cs.getLast? = some '\\' := by
  induction h with
  | nil => cases hlast
  | blank _ _ ih => rw [List.getLast?_cons, ih hlast]; rfl
  | group _ _ _ ih =>
    rw [← List.cons_append, List.getLast?_append, List.getLast?_cons, ih hlast]
    rfl
  | escape taken _ ih =>
    rcases List.mem_cons.1 hlast with hpair | hlater
    · cases hpair
    · rw [List.getLast?_cons, List.getLast?_cons, ih hlater]
      rfl
  | last => rfl

end TopLevel

/-! ## The scanner -/

/-- What passes the check closes the open parentheses, and is then outside of all. -/
theorem layers_of_checkDirectives {path : String} {opens : List Location} {gs : List Glyph}
    (h : checkDirectives path opens gs = .ok ()) :
    Layers (fun cs => ∃ loose, TopLevel loose cs) opens.length (charsOf gs) := by
  fun_induction checkDirectives path opens gs with
  | case1 opens =>
    cases opens with
    | nil => exact ⟨[], .nil⟩
    | cons => cases h
  | case2 opens g hescape =>
    cases opens with
    | nil =>
      rw [charsOf_cons, hescape]
      exact ⟨_, .last⟩
    | cons => cases h
  | case3 opens g hescape taken rest ih =>
    rw [charsOf_cons, charsOf_cons, hescape]
    cases opens with
    | nil =>
      obtain ⟨loose, hloose⟩ := ih h
      exact ⟨_, hloose.escape taken.char⟩
    | cons => exact (ih h).inside_append (.escape taken.char .nil)
  | case4 | case6 | case8 => cases h
  | case5 opens g rest hescape hopen hblock ih =>
    rw [opensBlock_eq_opensAt, charsOf_cons, hopen, Bool.not_eq_true] at hblock
    rw [charsOf_cons, hopen]
    refine Layers.opening ?_ [] (by simpa using hblock) (ih h)
    rintro inner rest hblock hinner ⟨loose, hloose⟩
    exact ⟨loose, hloose.group hblock hinner⟩
  | case7 g rest hescape hopen hclose innermost outer ih =>
    rw [charsOf_cons, hclose]
    exact (ih h).closing
  | case9 opens g rest hescape hopen hclose hblank ih =>
    cases opens with
    | nil =>
      obtain ⟨loose, hloose⟩ := ih h
      exact ⟨loose, hloose.blank (by simpa using hblank)⟩
    | cons => exact (ih h).inside_append (.plain hopen hclose hescape .nil)

/-- Text at the top level is passed over, unless its last backslash takes what follows. -/
theorem checkDirectives_topLevel {loose : List (List Char)} {cs : List Char} (h : TopLevel loose cs)
    {gs rest : List Glyph} (hgs : charsOf gs = cs) (hlast : ['\\'] ∈ loose → rest = [])
    (path : String) : checkDirectives path [] (gs ++ rest) = checkDirectives path [] rest := by
  induction h generalizing gs with
  | nil =>
    rw [List.map_eq_nil_iff.1 hgs]
    rfl
  | blank hblank _ ih =>
    obtain ⟨g, more, rfl, rfl, hmore⟩ := charsOf_eq_cons hgs
    have hsingle : ∀ c ∈ charsOf [g], isBlank c = true := by simpa [charsOf] using hblank
    rw [List.cons_append, ← List.singleton_append, checkDirectives_blank hsingle]
    exact ih hmore hlast
  | group hblock hinner _ ih =>
    obtain ⟨g, inner, close, after, rfl, hg, hchars, hclose, hafter⟩ := charsOf_eq_group hgs
    rw [List.cons_append, List.append_assoc, List.cons_append,
      checkDirectives_group hinner hblock hg hchars hclose]
    exact ih hafter hlast
  | escape taken _ ih =>
    obtain ⟨g, more, rfl, hg, hmore⟩ := charsOf_eq_cons hgs
    obtain ⟨g', more', rfl, -, hmore'⟩ := charsOf_eq_cons hmore
    rw [List.cons_append, checkDirectives_cons, if_pos hg]
    exact ih hmore' fun hmem => hlast (List.mem_cons_of_mem _ hmem)
  | last =>
    obtain ⟨g, more, rfl, hg, hmore⟩ := charsOf_eq_cons hgs
    obtain rfl := List.map_eq_nil_iff.1 hmore
    rw [hlast List.mem_cons_self, List.append_nil, checkDirectives_cons, if_pos hg]
    rfl

/-- **The files of directives that pass the check.** -/
theorem checkDirectives_eq_ok_iff {path : String} {gs : List Glyph} :
    checkDirectives path [] gs = .ok () ↔ ∃ loose, TopLevel loose (charsOf gs) := by
  constructor
  · intro h
    exact layers_of_checkDirectives h
  · rintro ⟨loose, hloose⟩
    have hpassed := checkDirectives_topLevel hloose rfl (fun _ => rfl) path
    rwa [List.append_nil] at hpassed

/-- Outside of all parentheses, a character that is no blank, no backslash and opens no group is refused. -/
theorem checkDirectives_stray {g : Glyph} (hblank : isBlank g.char = false) (hopen : g.char ≠ '(')
    (hescape : g.char ≠ '\\') (path : String) (rest : List Glyph) :
    checkDirectives path [] (g :: rest) = .error ⟨.outsideParentheses path, g.location⟩ := by
  rw [checkDirectives_cons, if_neg hescape, if_neg hopen]
  by_cases hclose : g.char = ')'
  · rw [if_pos hclose]
  · rw [if_neg hclose, if_pos (by simp [hblank])]

/-! ## Files of directives as documents -/

theorem splitDirectives_eq_ok_iff {start : Location} {cs : List Char} {parts : List Part} :
    splitDirectives start cs = .ok parts ↔
      (∃ loose, TopLevel loose cs) ∧
        parts = if cs.all isBlank then [] else [.block (String.ofList cs) start] := by
  unfold splitDirectives
  rw [except_map_eq_ok]
  constructor
  · rintro ⟨_, hcheck, rfl⟩
    have htop := checkDirectives_eq_ok_iff.1 hcheck
    rw [charsOf_glyphs] at htop
    exact ⟨htop, rfl⟩
  · rintro ⟨htop, rfl⟩
    refine ⟨(), checkDirectives_eq_ok_iff.2 ?_, rfl⟩
    rwa [charsOf_glyphs]

theorem splitDirectives_stray {start : Location} {loose : List (List Char)} {before : List Char}
    (hbefore : TopLevel loose before) (hlast : ['\\'] ∉ loose) {c : Char} (hblank : isBlank c = false)
    (hopen : c ≠ '(') (hescape : c ≠ '\\') (rest : List Char) :
    splitDirectives start (before ++ c :: rest) =
      .error ⟨.outsideParentheses start.document.path, start.advanceOver before⟩ := by
  unfold splitDirectives
  rw [glyphs_append, checkDirectives_topLevel hbefore (charsOf_glyphs start before)
    (fun hmem => absurd hmem hlast)]
  exact except_map_eq_error.2 (checkDirectives_stray hblank hopen hescape _ _)

theorem ne_markdown_of_extension {extension : Option String}
    (h : extension = some "dlisp" ∨ extension = some "dlproj") :
    DocumentPath.Kind.ofExtension? extension ≠ .markdown := by
  rcases h with rfl | rfl
  · decide
  · decide

section
variable {document : Coordinate} (hdepth : 1 ≤ document.depth) (hindex : 1 ≤ document.index)
  (hkind : DocumentPath.Kind.ofExtension? document.extension? ≠ .markdown) (text : String)
include hdepth hindex hkind

theorem split_eq_ok_iff_topLevel (parts : List Part) :
    split document text = .ok parts ↔
      (∃ loose, TopLevel loose (unifyNewlines text.toList)) ∧
        parts = if (unifyNewlines text.toList).all isBlank then []
          else [.block (String.ofList (unifyNewlines text.toList)) ⟨document, ⟨1, 1⟩⟩] := by
  rw [split_valid hdepth hindex, splitText_directives hkind, except_mapError_eq_ok]
  exact splitDirectives_eq_ok_iff

theorem split_accepts_iff_topLevel :
    (∃ parts, split document text = .ok parts) ↔
      ∃ loose, TopLevel loose (unifyNewlines text.toList) := by
  constructor
  · rintro ⟨parts, h⟩
    exact ((split_eq_ok_iff_topLevel hdepth hindex hkind text parts).1 h).1
  · intro h
    exact ⟨_, (split_eq_ok_iff_topLevel hdepth hindex hkind text _).2 ⟨h, rfl⟩⟩

end

/-- **Files of directives.** A document with one of their extensions is accepted exactly if it is made of blanks, groups
and what is loose; it is then one block, or nothing if it is blank. Accepted texts have nothing but blanks outside of
their groups exactly where nothing is loose. Any character there but a blank, an opening parenthesis and a backslash makes
the document fail at its place. -/
theorem split_directives_iff {document : Coordinate} (hdepth : 1 ≤ document.depth)
    (hindex : 1 ≤ document.index)
    (hextension : document.extension? = some "dlisp" ∨ document.extension? = some "dlproj")
    (text : String) :
    (∀ parts, split document text = .ok parts ↔
      (∃ loose, TopLevel loose (unifyNewlines text.toList)) ∧
        parts = if (unifyNewlines text.toList).all isBlank then []
          else [.block (String.ofList (unifyNewlines text.toList)) ⟨document, ⟨1, 1⟩⟩]) ∧
    (((∃ parts, split document text = .ok parts) ↔ TopLevel [] (unifyNewlines text.toList)) ↔
      ∀ loose, TopLevel loose (unifyNewlines text.toList) → loose = []) ∧
    (∀ loose before c rest, unifyNewlines text.toList = before ++ c :: rest →
      TopLevel loose before → ['\\'] ∉ loose → isBlank c = false → c ≠ '(' → c ≠ '\\' →
        split document text =
          .error (Fault.toFailure
            ⟨.outsideParentheses document.path, document.start.advanceOver before⟩)) := by
  have hkind := ne_markdown_of_extension hextension
  refine ⟨split_eq_ok_iff_topLevel hdepth hindex hkind text, ?_, ?_⟩
  · rw [split_accepts_iff_topLevel hdepth hindex hkind text]
    constructor
    · intro h loose hloose
      exact hloose.loose_eq (h.1 ⟨loose, hloose⟩)
    · intro h
      constructor
      · rintro ⟨loose, hloose⟩
        obtain rfl := h loose hloose
        exact hloose
      · intro hnone
        exact ⟨[], hnone⟩
  · intro loose before c rest htext hbefore hlast hblank hopen hescape
    rw [split_valid hdepth hindex, splitText_directives hkind, htext,
      splitDirectives_stray hbefore hlast hblank hopen hescape]
    rfl

/-- A list of documents, with a loose character on its second line. -/
def looseText : String := "(a \\)(b))\r\n\\x"

/-- A text that goes wrong behind a loose character, on its second line. -/
def strayText : String := "(a)\\(\r\n)b"

/-- A document far from the first one, for `looseText` and `strayText`. -/
def looseDocument : Coordinate := ⟨"/docs/p.dlproj", 2, 3⟩

theorem topLevel_looseText : TopLevel [['\\', 'x']] (unifyNewlines looseText.toList) := by
  have hgroup : Balanced "(b)".toList := .group (by decide) (.singleton (by decide)) .nil
  have hinner : Balanced "a \\)(b)".toList :=
    (Balanced.singleton (by decide)).append
      ((Balanced.singleton (by decide)).append (.escape ')' hgroup))
  exact .group (by decide) hinner (.blank (by decide) (.escape 'x' .nil))

theorem split_directives_looseText :
    split looseDocument looseText = .ok [.block "(a \\)(b))\n\\x" ⟨looseDocument, ⟨1, 1⟩⟩] ∧
      ¬ ((∃ parts, split looseDocument looseText = .ok parts) ↔
        TopLevel [] (unifyNewlines looseText.toList)) ∧
      split looseDocument strayText =
        .error (Fault.toFailure ⟨.outsideParentheses "/docs/p.dlproj", ⟨looseDocument, ⟨2, 1⟩⟩⟩) := by
  obtain ⟨hparts, hmeets, -⟩ :=
    split_directives_iff (by decide) (by decide) (by decide : looseDocument.extension? = _ ∨ _) looseText
  obtain ⟨-, -, hstray⟩ :=
    split_directives_iff (by decide) (by decide) (by decide : looseDocument.extension? = _ ∨ _) strayText
  refine ⟨(hparts _).2 ⟨⟨_, topLevel_looseText⟩, by decide⟩, fun h => ?_, ?_⟩
  · exact absurd (hmeets.1 h _ topLevel_looseText) (by decide)
  · have hbefore : TopLevel [['\\', '(']] "(a)\\(\n".toList :=
      .group (by decide) (.singleton (by decide)) (.escape '(' (.blank (by decide) .nil))
    exact hstray _ "(a)\\(\n".toList ')' ['b'] (by decide) hbefore (by decide) (by decide) (by decide)
      (by decide)

/-- A backslash outside of all parentheses is accepted, with what it takes. -/
theorem loose_escape_accepted :
    split ⟨"/docs/section.dlisp", 1, 1⟩ "(a)\n\\x" =
        .ok [.block "(a)\n\\x" ⟨⟨"/docs/section.dlisp", 1, 1⟩, ⟨1, 1⟩⟩] ∧
      ¬ TopLevel [] "(a)\n\\x".toList := by
  constructor
  · exact ok_of_toOption (by decide +kernel)
  · intro h
    have hloose : TopLevel [['\\', 'x']] "(a)\n\\x".toList :=
      .group (by decide) (.singleton (by decide)) (.blank (by decide) (.escape 'x' .nil))
    exact absurd (h.loose_eq hloose) (by decide)

end Source
end Bindery
