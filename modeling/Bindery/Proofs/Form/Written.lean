import Bindery.Proofs.Displacement.Token
import Bindery.Proofs.Form.Spelling
import Bindery.Proofs.Source.Balanced
import Bindery.Proofs.Success

/-!
# `Proofs.Form.Written` — how forms are written down

A form without its locations is a shape. This module says which texts write down shapes: blanks may stand around every
form and have to stand before a parameter, in which parentheses and backslashes are escaped. Such a text is balanced, so
the scanners of blocks pass over it, and its tokens are those of forms with these shapes.

## Contents
- `Shape`, `Form.shape`; `IsAtom`, `IsParameter`, `escaped`.
- `Written`: the texts that write down shapes.
- `Written.balanced`, `Written.checkDirectives_eq`: the scanners of blocks.
- `Written.blockTokens_eq`: the scanner of tokens.
-/

namespace Bindery

open Source Text

/-! ## Shapes -/

/-- A form without locations. -/
structure Shape where
  atom : String
  parameter : Option String
  children : List Shape

mutual

/-- What is left of a form without its locations. -/
def Form.shape : Form → Shape
  | ⟨atom, _, parameter, children⟩ => ⟨atom, parameter.map Parameter.text, Form.shapes children⟩

/-- What is left of forms without their locations. -/
def Form.shapes : List Form → List Shape
  | [] => []
  | form :: rest => form.shape :: Form.shapes rest

end

theorem Form.shapes_eq_map (forms : List Form) : Form.shapes forms = forms.map Form.shape := by
  induction forms with
  | nil => rfl
  | cons form rest ih => rw [Form.shapes, ih, List.map_cons]

/-- Whether a word can be written as the atom of a form: it is not taken for a remark or for the opener of a block. -/
structure IsAtom (atom : String) : Prop where
  nonempty : atom ≠ ""
  plain : ∀ c ∈ atom.toList, isBlank c = false ∧ c ≠ '(' ∧ c ≠ ')' ∧ c ≠ '\\'
  not_remark : atom.toList.head? ≠ some '*'
  not_opener : atom ≠ "dl"

/-- Whether a text can be written as a parameter: it has no blanks at its ends, and its line ends are line feeds. -/
structure IsParameter (text : String) : Prop where
  nonempty : text ≠ ""
  unified : '\r' ∉ text.toList
  head : ∀ c ∈ text.toList.head?, isBlank c = false
  last : ∀ c ∈ text.toList.getLast?, isBlank c = false

instance (atom : String) : Decidable (IsAtom atom) :=
  decidable_of_iff (atom ≠ "" ∧ (atom.toList.all fun c => isAtomChar c && c != '\\') = true ∧
      atom.toList.head? ≠ some '*' ∧ atom ≠ "dl")
    ⟨fun ⟨hne, hplain, hremark, hopener⟩ =>
        ⟨hne, by simpa [isAtomChar, and_assoc] using hplain, hremark, hopener⟩,
      fun h => ⟨h.nonempty, by simpa [isAtomChar, and_assoc] using h.plain, h.not_remark,
        h.not_opener⟩⟩

instance (text : String) : Decidable (IsParameter text) :=
  decidable_of_iff (text ≠ "" ∧ '\r' ∉ text.toList ∧ text.toList.head?.all (!isBlank ·) = true ∧
      text.toList.getLast?.all (!isBlank ·) = true)
    ⟨fun ⟨hne, hunified, hhead, hlast⟩ =>
        ⟨hne, hunified, by simpa [Option.all_eq_true] using hhead,
          by simpa [Option.all_eq_true] using hlast⟩,
      fun h => ⟨h.nonempty, h.unified, by simpa [Option.all_eq_true] using h.head,
        by simpa [Option.all_eq_true] using h.last⟩⟩

/-! ## Writing them down -/

/-- A text with a backslash before every backslash and every parenthesis. -/
def escaped : List Char → List Char
  | [] => []
  | c :: rest => if c = '\\' ∨ c = '(' ∨ c = ')' then '\\' :: c :: escaped rest else c :: escaped rest

/-- A character is escaped, or it is neither a backslash nor a parenthesis. -/
theorem escaped_cons (c : Char) (rest : List Char) :
    (c = '\\' ∨ c = '(' ∨ c = ')') ∧ escaped (c :: rest) = '\\' :: c :: escaped rest ∨
      (c ≠ '(' ∧ c ≠ ')' ∧ c ≠ '\\') ∧ escaped (c :: rest) = c :: escaped rest := by
  rw [escaped]
  split
  · next hspecial => exact .inl ⟨hspecial, rfl⟩
  · next hplain =>
    obtain ⟨hescape, hopen, hclose⟩ : c ≠ '\\' ∧ c ≠ '(' ∧ c ≠ ')' := by simpa using hplain
    exact .inr ⟨⟨hopen, hclose, hescape⟩, rfl⟩

/-- The texts that write down a parameter behind an atom. -/
inductive WrittenParameter : Option String → List Char → Prop where
  | absent : WrittenParameter none []
  | present {text : String} {blanks : List Char} (htext : IsParameter text) (hsome : blanks ≠ [])
      (hblanks : ∀ c ∈ blanks, isBlank c = true) :
      WrittenParameter (some text) (blanks ++ escaped text.toList)

/-- The texts that write down shapes in order. -/
inductive Written : List Shape → List Char → Prop where
  | nil {blanks : List Char} (hblanks : ∀ c ∈ blanks, isBlank c = true) : Written [] blanks
  | cons {atom : String} {parameter : Option String} {children rest : List Shape}
      {blanks words inner more : List Char} (hblanks : ∀ c ∈ blanks, isBlank c = true)
      (hatom : IsAtom atom) (hparameter : WrittenParameter parameter words)
      (hchildren : Written children inner) (hrest : Written rest more) :
      Written (⟨atom, parameter, children⟩ :: rest)
        (blanks ++ '(' :: ((atom.toList ++ (words ++ inner)) ++ ')' :: more))

theorem forall_mem_singleton_blank {c : Char} (h : isBlank c = true) :
    ∀ d ∈ [c], isBlank d = true := by
  simpa using h

theorem written_nil : Written [] [] := .nil (by simp)

theorem Written.blank_append {shapes : List Shape} {cs blanks : List Char} (h : Written shapes cs)
    (hblanks : ∀ c ∈ blanks, isBlank c = true) : Written shapes (blanks ++ cs) := by
  have hboth : ∀ {more : List Char}, (∀ c ∈ more, isBlank c = true) →
      ∀ c ∈ blanks ++ more, isBlank c = true := by
    intro more hmore c hc
    exact (List.mem_append.1 hc).elim (hblanks c) (hmore c)
  cases h with
  | nil hmore => exact .nil (hboth hmore)
  | cons hmore hatom hparameter hchildren hrest =>
    rw [← List.append_assoc]
    exact .cons (hboth hmore) hatom hparameter hchildren hrest

theorem Written.append {shapes more : List Shape} {cs ds : List Char} (h : Written shapes cs)
    (hmore : Written more ds) : Written (shapes ++ more) (cs ++ ds) := by
  induction h with
  | nil hblanks => exact hmore.blank_append hblanks
  | cons hblanks hatom hparameter hchildren _ _ ih =>
    have hjoined := Written.cons hblanks hatom hparameter hchildren ih
    simpa using hjoined

/-! ## Where an atom ends -/

/-- An atom before this text ends where the text begins. -/
def EndsAtom (cs : List Char) : Prop := ∀ c ∈ cs.head?, isAtomChar c = false

theorem EndsAtom.append {first second : List Char} (hfirst : EndsAtom first)
    (hsecond : EndsAtom second) : EndsAtom (first ++ second) := by
  cases first with
  | nil => exact hsecond
  | cons c rest => exact hfirst

theorem endsAtom_of_blank {blanks : List Char} (h : ∀ c ∈ blanks, isBlank c = true) :
    EndsAtom blanks := by
  intro c hc
  simp [isAtomChar, h c (List.mem_of_mem_head? hc)]

theorem endsAtom_paren {c : Char} (h : c = '(' ∨ c = ')') (rest : List Char) :
    EndsAtom (c :: rest) := by
  rintro d ⟨⟩
  rcases h with rfl | rfl <;> decide

theorem WrittenParameter.endsAtom {parameter : Option String} {words : List Char}
    (h : WrittenParameter parameter words) : EndsAtom words := by
  cases h with
  | absent => exact fun c hc => nomatch hc
  | @present text blanks htext hsome hblanks =>
    cases blanks with
    | nil => exact absurd rfl hsome
    | cons c rest => exact fun d hd => endsAtom_of_blank hblanks d hd

theorem Written.endsAtom {shapes : List Shape} {cs : List Char} (h : Written shapes cs) :
    EndsAtom cs := by
  cases h with
  | nil hblanks => exact endsAtom_of_blank hblanks
  | cons hblanks => exact (endsAtom_of_blank hblanks).append (endsAtom_paren (.inl rfl) _)

/-! ## Balance -/

/-- The atom is told from the opener of a block by its characters alone. -/
theorem IsAtom.opensAt_eq_false {atom : String} (h : IsAtom atom) {rest : List Char}
    (hrest : EndsAtom rest) : opensAt ('(' :: (atom.toList ++ rest)) = false := by
  have hplain := h.plain
  have hname : atom.toList ≠ ['d', 'l'] := fun heq => h.not_opener (String.toList_inj.1 heq)
  have hsome : atom.toList ≠ [] := fun heq => h.nonempty (String.toList_eq_nil_iff.1 heq)
  -- the opener has two characters behind its parenthesis, and the atom may end before, with or after them
  match hchars : atom.toList with
  | [] => exact absurd hchars hsome
  | [a] =>
    cases rest with
    | nil => simp [opensAt, List.isPrefixOf_cons_cons]
    | cons b more =>
      have hb : 'l' ≠ b := by
        rintro rfl
        exact absurd (hrest 'l' rfl) (by decide)
      simp [opensAt, List.isPrefixOf_cons_cons, hb]
  | [a, b] =>
    have hother : ['d', 'l'] ≠ [a, b] := fun heq => hname (hchars.trans heq.symm)
    by_cases ha : 'd' = a
    · have hb : 'l' ≠ b := fun hb => hother (by rw [ha, hb])
      simp [opensAt, List.isPrefixOf_cons_cons, hb]
    · simp [opensAt, List.isPrefixOf_cons_cons, ha]
  | a :: b :: c :: more =>
    rw [hchars] at hplain
    obtain ⟨hblank, -, hclose, -⟩ := hplain c (by simp)
    simp [opensAt, hblank, hclose]

theorem balanced_of_blank {blanks : List Char} (h : ∀ c ∈ blanks, isBlank c = true) :
    Balanced blanks :=
  .of_plain fun c hc => plain_of_isBlank (h c hc)

theorem IsAtom.balanced {atom : String} (h : IsAtom atom) : Balanced atom.toList :=
  .of_plain fun c hc => (h.plain c hc).2

theorem balanced_escaped (cs : List Char) : Balanced (escaped cs) := by
  induction cs with
  | nil => exact .nil
  | cons c rest ih =>
    rcases escaped_cons c rest with ⟨-, heq⟩ | ⟨⟨hopen, hclose, hescape⟩, heq⟩
    · rw [heq]
      exact .escape c ih
    · rw [heq]
      exact .plain hopen hclose hescape ih

theorem WrittenParameter.balanced {parameter : Option String} {words : List Char}
    (h : WrittenParameter parameter words) : Balanced words := by
  cases h with
  | absent => exact .nil
  | present htext hsome hblanks => exact (balanced_of_blank hblanks).append (balanced_escaped _)

/-- What stands between the parentheses of a form does not make it the opener of a block. -/
theorem IsAtom.opensAt_form {atom : String} (h : IsAtom atom) {parameter : Option String}
    {words inner : List Char} {children : List Shape} (hparameter : WrittenParameter parameter words)
    (hchildren : Written children inner) :
    opensAt ('(' :: ((atom.toList ++ (words ++ inner)) ++ [')'])) = false := by
  rw [List.append_assoc]
  exact h.opensAt_eq_false
    ((hparameter.endsAtom.append hchildren.endsAtom).append (endsAtom_paren (.inr rfl) _))

/-- **Forms are written in balanced text.** -/
theorem Written.balanced {shapes : List Shape} {cs : List Char} (h : Written shapes cs) :
    Balanced cs := by
  induction h with
  | nil hblanks => exact balanced_of_blank hblanks
  | cons hblanks hatom hparameter hchildren _ ihChildren ihRest =>
    exact (balanced_of_blank hblanks).append <| .group (hatom.opensAt_form hparameter hchildren)
      (hatom.balanced.append (hparameter.balanced.append ihChildren)) ihRest

/-- Forms may stand anywhere in a file of directives. -/
theorem Written.checkDirectives_eq {shapes : List Shape} {cs : List Char} (h : Written shapes cs)
    {gs : List Glyph} (hgs : charsOf gs = cs) (path : String) :
    checkDirectives path [] gs = .ok () := by
  induction h generalizing gs with
  | nil hblanks =>
    rw [← hgs] at hblanks
    have hpassed := checkDirectives_blank hblanks path []
    rw [List.append_nil] at hpassed
    exact hpassed
  | @cons atom parameter children rest blanks words inner more hblanks hatom hparameter hchildren
      _ _ ihRest =>
    obtain ⟨before, form, rfl, rfl, hform⟩ := charsOf_eq_append hgs
    obtain ⟨opening, body, close, after, rfl, hopen, hbody, hclose, hafter⟩ := charsOf_eq_group hform
    have hbalanced := hatom.balanced.append (hparameter.balanced.append hchildren.balanced)
    have hblock := hatom.opensAt_form hparameter hchildren
    rw [checkDirectives_blank hblanks, checkDirectives_group hbalanced hblock hopen hbody hclose]
    exact ihRest hafter

/-! ## Tokens -/

theorem trimEnd_eq_self {cs : List Char} (h : ∀ c ∈ cs.getLast?, isBlank c = false) :
    trimEnd cs = cs := by
  induction cs with
  | nil => rfl
  | cons c rest ih =>
    cases rest with
    | nil => simp [trimEnd, h c rfl]
    | cons d more => rw [trimEnd, ih (by simpa [List.getLast?_cons_cons] using h)]

theorem trimEnd_append_blank {cs blanks : List Char} (h : ∀ c ∈ blanks, isBlank c = true) :
    trimEnd (cs ++ blanks) = trimEnd cs := by
  induction cs with
  | nil => exact trimEnd_eq_nil_iff.2 h
  | cons c rest ih => rw [List.cons_append, trimEnd, trimEnd, ih]

theorem blockTokens_blank {gs : List Glyph} (h : ∀ c ∈ charsOf gs, isBlank c = true)
    (pending : Option Location) (rest : List Glyph) :
    blockTokens pending (gs ++ rest) = blockTokens pending rest := by
  induction gs with
  | nil => rfl
  | cons g more ih =>
    obtain ⟨hg, hmore⟩ := List.forall_mem_cons.1 h
    rw [List.cons_append, blockTokens_cons, if_pos hg]
    exact ih hmore

theorem blockTokens_close {g : Glyph} (hg : g.char = ')') (rest : List Glyph) :
    blockTokens none (g :: rest) = (blockTokens none rest).map (.close g.location :: ·) := by
  have hblank : isBlank g.char ≠ true := by rw [hg]; decide
  rw [blockTokens_cons, if_neg hblank, if_neg (by simp [startsWith, hg]), if_neg (by simp [hg]),
    if_pos hg]

/-- An opening parenthesis and an atom make one token. -/
theorem IsAtom.blockTokens_eq {atom : String} (h : IsAtom atom) {g : Glyph} (hg : g.char = '(')
    {gs : List Glyph} (hgs : charsOf gs = atom.toList) {rest : List Glyph}
    (hrest : EndsAtom (charsOf rest)) :
    blockTokens none (g :: (gs ++ rest)) =
      (blockTokens none rest).map (.atom atom g.location :: ·) := by
  have hsome : gs ≠ [] := by
    rintro rfl
    exact h.nonempty (String.toList_eq_nil_iff.1 hgs.symm)
  obtain ⟨first, more, rfl⟩ := List.exists_cons_of_ne_nil hsome
  have hplain : ∀ k ∈ first :: more, isAtomChar k.char = true := by
    intro k hk
    have hmem : k.char ∈ atom.toList := hgs ▸ List.mem_map_of_mem hk
    obtain ⟨hblank, hopen, hclose, -⟩ := h.plain k.char hmem
    simp [isAtomChar, hblank, hopen, hclose]
  obtain ⟨hblank, hopen, hclose, -⟩ := h.plain first.char (by simp [← hgs])
  have hstar : first.char ≠ '*' := fun heq => h.not_remark (by simp [← hgs, heq])
  -- the opening parenthesis is kept in mind until the atom has been seen
  have hstep : blockTokens none (g :: (first :: more ++ rest)) =
      blockTokens (some g.location) (first :: (more ++ rest)) := by
    have hnone : isBlank g.char ≠ true := by rw [hg]; decide
    rw [List.cons_append, blockTokens_cons, if_neg hnone, if_neg (by simp [startsWith, hstar]),
      if_pos hg]
  have hmore : ∀ k ∈ more, isAtomChar k.char = true :=
    fun k hk => hplain k (List.mem_cons_of_mem first hk)
  have htake : rest.takeWhile (isAtomChar ·.char) = [] ∧
      rest.dropWhile (isAtomChar ·.char) = rest := by
    cases rest with
    | nil => exact ⟨rfl, rfl⟩
    | cons k later => simp [hrest k.char rfl]
  rw [hstep, blockTokens_cons, if_neg (by simp [hblank]), if_neg (by simp [startsWith, hopen]),
    if_neg hopen, if_neg hclose, List.takeWhile_append_of_pos hmore,
    List.dropWhile_append_of_pos hmore, htake.1, htake.2, List.append_nil, textOf, hgs,
    String.ofList_toList]

theorem readParameter_blank {gs : List Glyph} (h : ∀ c ∈ charsOf gs, isBlank c = true)
    (rest : List Glyph) :
    readParameter (gs ++ rest) = prependChars (charsOf gs) (readParameter rest) := by
  induction gs with
  | nil => rfl
  | cons g more ih =>
    obtain ⟨hg, hmore⟩ := List.forall_mem_cons.1 h
    obtain ⟨hopen, hclose, hescape⟩ := plain_of_isBlank hg
    rw [List.cons_append, readParameter_cons, if_neg (by simp [hopen, hclose]), if_neg hescape,
      ih hmore]
    rfl

theorem readParameter_escaped {text : List Char} {gs : List Glyph} (hgs : charsOf gs = escaped text)
    (rest : List Glyph) : readParameter (gs ++ rest) = prependChars text (readParameter rest) := by
  induction text generalizing gs with
  | nil =>
    rw [List.map_eq_nil_iff.1 hgs]
    rfl
  | cons c more ih =>
    rcases escaped_cons c more with ⟨hspecial, heq⟩ | ⟨⟨hopen, hclose, hescape⟩, heq⟩
    · rw [heq] at hgs
      obtain ⟨g, gs', rfl, hg, hgs'⟩ := charsOf_eq_cons hgs
      obtain ⟨taken, gs'', rfl, rfl, hgs''⟩ := charsOf_eq_cons hgs'
      have hescapable : unescape taken.char = [taken.char] := by
        rcases hspecial with h | h | h <;> simp [unescape, isEscapable, h]
      rw [List.cons_append, readParameter_cons, if_neg (by simp [hg]), if_pos hg]
      show prependChars (unescape taken.char) (readParameter (gs'' ++ rest)) = _
      rw [ih hgs'', hescapable]
      rfl
    · rw [heq] at hgs
      obtain ⟨g, gs', rfl, rfl, hgs'⟩ := charsOf_eq_cons hgs
      rw [List.cons_append, readParameter_cons, if_neg (by simp [hopen, hclose]), if_neg hescape,
        ih hgs']
      rfl

/-- An escaped text begins with a backslash or with its own first character, and never with a parenthesis. -/
theorem head_escaped (c : Char) (rest : List Char) :
    ∃ d more, escaped (c :: rest) = d :: more ∧ (d = '\\' ∨ d = c) ∧ d ≠ '(' ∧ d ≠ ')' := by
  rcases escaped_cons c rest with ⟨-, heq⟩ | ⟨⟨hopen, hclose, -⟩, heq⟩
  · exact ⟨'\\', _, heq, .inl rfl, by decide, by decide⟩
  · exact ⟨c, _, heq, .inr rfl, hopen, hclose⟩

/-- A parenthesis comes next, if blanks are not counted. -/
def AtParenthesis (gs : List Glyph) : Prop :=
  ∃ blanks paren after, gs = blanks ++ paren :: after ∧
    (∀ c ∈ charsOf blanks, isBlank c = true) ∧ (paren.char = '(' ∨ paren.char = ')')

/-- A parameter reaches up to the next parenthesis. Blanks before that are not part of it. -/
theorem IsParameter.blockTokens_eq {text : String} (h : IsParameter text) {gs : List Glyph}
    (hgs : charsOf gs = escaped text.toList) :
    ∃ location, ∀ rest, AtParenthesis rest →
      blockTokens none (gs ++ rest) =
        (blockTokens none rest).map (.parameter text location :: ·) := by
  have hsome : text.toList ≠ [] := fun heq => h.nonempty (String.toList_eq_nil_iff.1 heq)
  obtain ⟨c, chars, hchars⟩ := List.exists_cons_of_ne_nil hsome
  have hblank : isBlank c = false := h.head c (by rw [hchars]; rfl)
  obtain ⟨d, later, hescaped, hd, hopen, hclose⟩ := head_escaped c chars
  obtain ⟨first, more, rfl, rfl, -⟩ := charsOf_eq_cons (hgs.trans (hchars ▸ hescaped))
  refine ⟨first.location, ?_⟩
  rintro _ ⟨blanks, paren, after, rfl, hblanks, hparen⟩
  have hfirst : isBlank first.char = false := by
    rcases hd with heq | heq
    · rw [heq]
      decide
    · rw [heq, hblank]
  -- blanks are read as part of the parameter, and trimmed only then
  have hread : readParameter (first :: more ++ (blanks ++ paren :: after)) =
      (text.toList ++ charsOf blanks, paren :: after) := by
    rw [readParameter_escaped hgs, readParameter_blank hblanks, readParameter_cons, if_pos hparen]
    simp [prependChars]
  rw [List.cons_append] at hread ⊢
  rw [blockTokens_cons, if_neg (by simp [hfirst]), if_neg (by simp [startsWith, hopen]), if_neg hopen,
    if_neg hclose, hread, blockTokens_blank hblanks, trimEnd_append_blank hblanks,
    trimEnd_eq_self h.last, String.ofList_toList]

theorem WrittenParameter.blockTokens_eq {parameter : Option String} {words : List Char}
    (h : WrittenParameter parameter words) {gs : List Glyph} (hgs : charsOf gs = words) :
    ∃ found : Option Parameter, found.map Parameter.text = parameter ∧
      ∀ rest, AtParenthesis rest →
        blockTokens none (gs ++ rest) =
          (blockTokens none rest).map (parameterTokens found ++ ·) := by
  cases h with
  | absent =>
    refine ⟨none, rfl, fun rest _ => ?_⟩
    rw [List.map_eq_nil_iff.1 hgs, List.nil_append]
    cases blockTokens none rest <;> rfl
  | @present text blanks htext hsome hblanks =>
    obtain ⟨before, words, rfl, rfl, hwords⟩ := charsOf_eq_append hgs
    obtain ⟨location, htokens⟩ := htext.blockTokens_eq hwords
    refine ⟨some ⟨text, location⟩, rfl, fun rest hrest => ?_⟩
    rw [List.append_assoc, blockTokens_blank hblanks]
    exact htokens rest hrest

/-- After the forms inside of a form, or before them, comes a parenthesis. -/
theorem Written.atParenthesis {shapes : List Shape} {cs : List Char} (h : Written shapes cs)
    {gs : List Glyph} (hgs : charsOf gs = cs) {close : Glyph} (hclose : close.char = ')')
    (rest : List Glyph) : AtParenthesis (gs ++ close :: rest) := by
  cases h with
  | nil hblanks => exact ⟨gs, close, rest, rfl, hgs ▸ hblanks, .inr hclose⟩
  | cons hblanks =>
    obtain ⟨blanks, form, rfl, rfl, hform⟩ := charsOf_eq_append hgs
    obtain ⟨paren, more, rfl, hparen, -⟩ := charsOf_eq_cons hform
    exact ⟨blanks, paren, more ++ close :: rest, by simp, hblanks, .inl hparen⟩

/-- **The tokens of written forms are those of forms with these shapes.** -/
theorem Written.blockTokens_eq {shapes : List Shape} {cs : List Char} (h : Written shapes cs)
    {gs : List Glyph} (hgs : charsOf gs = cs) :
    ∃ forms tokens, forms.map Form.shape = shapes ∧ Spells forms tokens ∧
      ∀ rest, blockTokens none (gs ++ rest) = (blockTokens none rest).map (tokens ++ ·) := by
  induction h generalizing gs with
  | nil hblanks =>
    refine ⟨[], [], rfl, .nil, fun rest => ?_⟩
    rw [blockTokens_blank (hgs ▸ hblanks)]
    cases blockTokens none rest <;> rfl
  | @cons atom parameter children others blanks words inner more hblanks hatom hparameter hchildren
      _ ihChildren ihOthers =>
    obtain ⟨before, form, rfl, rfl, hform⟩ := charsOf_eq_append hgs
    obtain ⟨opening, body, close, after, rfl, hopen, hbody, hclose, hafter⟩ := charsOf_eq_group hform
    obtain ⟨name, body, rfl, hname, hbody⟩ := charsOf_eq_append hbody
    obtain ⟨text, within, rfl, htext, hwithin⟩ := charsOf_eq_append hbody
    obtain ⟨found, hfound, hparameterTokens⟩ := hparameter.blockTokens_eq htext
    obtain ⟨forms, tokens, hforms, hspells, htokens⟩ := ihChildren hwithin
    obtain ⟨forms', tokens', hforms', hspells', htokens'⟩ := ihOthers hafter
    refine ⟨⟨atom, opening.location, found, forms⟩ :: forms', _, ?_, .cons close.location hspells hspells', ?_⟩
    · rw [List.map_cons, Form.shape, Form.shapes_eq_map, hfound, hforms, hforms']
    · intro rest
      have hparen := hchildren.atParenthesis hwithin hclose (after ++ rest)
      have hends : EndsAtom (charsOf (text ++ (within ++ close :: (after ++ rest)))) := by
        rw [charsOf_append, charsOf_append, charsOf_cons, htext, hwithin]
        exact hparameter.endsAtom.append
          (hchildren.endsAtom.append (endsAtom_paren (.inr hclose) _))
      -- scanning follows the text: blanks, the atom, the parameter, the sub-forms, the other forms
      calc blockTokens none (before ++ opening :: (name ++ (text ++ within) ++ close :: after) ++ rest)
          = blockTokens none
              (opening :: (name ++ (text ++ (within ++ close :: (after ++ rest))))) := by
            rw [List.append_assoc, blockTokens_blank hblanks]
            simp
        _ = _ := by
            rw [hatom.blockTokens_eq hopen hname hends, hparameterTokens _ hparen, htokens,
              blockTokens_close hclose, htokens']
            simp [except_map_map]

end Bindery
