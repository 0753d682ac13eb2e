import Bindery.Proofs.Displacement.Form
import Bindery.Proofs.Source.Directives
import Bindery.Proofs.Source.Positions

/-!
# `Proofs.Source.Wrapping` — directives in a file of their own and in a comment

A file of directives may end in a backslash or hold escaped characters outside of all parentheses, and its scanner lets
them pass; put into a comment, such a text would swallow the parenthesis that closes its block. But then it spells no
items: the last token would be an atom or a parameter, and the form around it is not closed. Every other text that passes
is balanced, so the scanner of comments finds the very same block, further on in the line.

## Contents
- `unifyNewlines_append`, `infix_of_unifyNewlines`: line ends around and inside of a text.
- `balanced_of_checkDirectives`: a file of directives that does not end in a backslash is balanced.
- `Lexes.exists_word_last`, `readItems_word_last`: what ends in a backslash spells no items.
- `wrapped`, `exists_documentTokens_wrapped`: the tokens of a text and of the text in a comment.
-/

namespace Bindery

namespace Text

/-! ## Line ends -/

/-- Text without carriage returns is left alone, whatever follows it. -/
theorem unifyNewlines_plain_append {before : List Char} (h : '\r' ∉ before) (cs : List Char) :
    unifyNewlines (before ++ cs) = before ++ unifyNewlines cs := by
  induction before with
  | nil => rfl
  | cons c rest ih =>
    obtain ⟨hc, hrest⟩ := not_or.1 (mt List.mem_cons.2 h)
    rw [List.cons_append, unifyNewlines.eq_4 _ _ (by rintro _ rfl; exact absurd rfl hc)
      (fun heq => hc heq.symm), ih hrest]
    rfl

/-- A line end does not reach beyond a character that is no line feed. -/
theorem unifyNewlines_append {c : Char} (hc : c ≠ '\n') (cs rest : List Char) :
    unifyNewlines (cs ++ c :: rest) = unifyNewlines cs ++ unifyNewlines (c :: rest) := by
  fun_induction unifyNewlines cs with
  | case1 => rfl
  | case2 more ih => exact congrArg ('\n' :: ·) ih
  | case3 more hmore ih =>
    have hnext : ∀ later, more ++ c :: rest = '\n' :: later → False := by
      intro later heq
      cases more with
      | nil => exact hc (List.cons.inj heq).1
      | cons d more =>
        obtain ⟨rfl, -⟩ := List.cons.inj heq
        exact hmore more rfl
    rw [List.cons_append, unifyNewlines.eq_3 _ hnext, ih]
    rfl
  | case4 d more hmore hd ih =>
    rw [List.cons_append, unifyNewlines.eq_4 _ _ (fun later hret _ => hd hret) hd, ih]
    rfl

/-- A word that comes next when line ends are unified came next before. -/
theorem prefix_of_unifyNewlines {word cs : List Char} (hword : '\n' ∉ word)
    (h : word <+: unifyNewlines cs) : word <+: cs := by
  fun_induction unifyNewlines cs generalizing word with
  | case1 => exact h
  | case2 rest ih | case3 rest hrest ih =>
    cases word with
    | nil => exact List.nil_prefix
    | cons c more =>
      obtain ⟨rfl, -⟩ := List.cons_prefix_cons.1 h
      exact absurd List.mem_cons_self hword
  | case4 c rest hrest hc ih =>
    cases word with
    | nil => exact List.nil_prefix
    | cons d more =>
      obtain ⟨rfl, hmore⟩ := List.cons_prefix_cons.1 h
      exact List.cons_prefix_cons.2 ⟨rfl, ih (fun hmem => hword (List.mem_cons_of_mem _ hmem)) hmore⟩

/-- Unifying line ends makes no word that was not there. -/
theorem infix_of_unifyNewlines {word cs : List Char} (hword : '\n' ∉ word)
    (h : word <:+: unifyNewlines cs) : word <:+: cs := by
  have hnext (text : List Char) (hfirst : word <+: unifyNewlines text) : word <:+: text :=
    (prefix_of_unifyNewlines hword hfirst).isInfix
  fun_induction unifyNewlines cs with
  | case1 => exact h
  | case2 rest ih =>
    rcases List.infix_cons_iff.1 h with hfirst | hinner
    · exact hnext ('\r' :: '\n' :: rest) hfirst
    · exact ((ih hinner).trans (List.suffix_cons _ _).isInfix).trans (List.suffix_cons _ _).isInfix
  | case3 rest hrest ih =>
    rcases List.infix_cons_iff.1 h with hfirst | hinner
    · refine hnext ('\r' :: rest) ?_
      rwa [unifyNewlines.eq_3 _ hrest]
    · exact (ih hinner).trans (List.suffix_cons _ _).isInfix
  | case4 c rest hrest hc ih =>
    rcases List.infix_cons_iff.1 h with hfirst | hinner
    · refine hnext (c :: rest) ?_
      rwa [unifyNewlines.eq_4 _ _ hrest hc]
    · exact (ih hinner).trans (List.suffix_cons _ _).isInfix

end Text

namespace Source

open Text

/-! ## Files of directives are balanced -/

/-- The text does not end in a backslash. -/
def EndsPlain (cs : List Char) : Prop := cs.getLast? ≠ some '\\'

theorem endsPlain_nil : EndsPlain [] := nofun

/-- How a text ends is seen from any part that it ends in. -/
theorem endsPlain_append_cons (before : List Char) (c : Char) (rest : List Char) :
    EndsPlain (before ++ c :: rest) ↔ EndsPlain (c :: rest) := by
  rw [EndsPlain, EndsPlain, List.getLast?_append, List.getLast?_cons, Option.some_or]

theorem endsPlain_cons {c : Char} (hc : c ≠ '\\') {rest : List Char} (h : EndsPlain rest) :
    EndsPlain (c :: rest) := by
  cases rest with
  | nil => simpa [EndsPlain] using hc
  | cons d rest => exact (endsPlain_append_cons [c] d rest).2 h

/-- **A file of directives that does not end in a backslash is balanced.** -/
theorem balanced_of_checkDirectives {path : String} {gs : List Glyph}
    (h : checkDirectives path [] gs = .ok ()) (hlast : EndsPlain (charsOf gs)) :
    Balanced (charsOf gs) := by
  obtain ⟨loose, hloose⟩ := checkDirectives_eq_ok_iff.1 h
  refine hloose.balanced fun hmem => ?_
  exact hlast (hloose.getLast?_of_mem hmem)

/-! ## What ends in a backslash -/

/-- Whether a token is an atom or a parameter. -/
def Token.isWord : Token → Bool
  | .atom _ _ | .parameter _ _ => true
  | .prose _ _ | .close _ => false

theorem Gap.endsPlain {cs : List Char} (h : Gap cs) : EndsPlain cs := by
  induction h with
  | nil => exact endsPlain_nil
  | blank hblank _ ih => exact endsPlain_cons (plain_of_isBlank hblank).2.2 ih
  | @remark inner rest _ _ ih =>
    exact (endsPlain_append_cons ('(' :: '*' :: inner) ')' rest).2 (endsPlain_cons (by decide) ih)

theorem Lexes.eq_nil {tokens : List Token} (h : Lexes [] tokens) : tokens = [] := by
  generalize hgs : ([] : List Glyph) = gs at h
  induction h with
  | nil => rfl
  | gap _ _ ih => exact ih (List.append_eq_nil_iff.1 hgs.symm).2.symm
  | atom | close | parameter => cases hgs

/-- A text that ends in a backslash ends so behind any first part of it, or is used up by that. -/
theorem Lexes.eq_nil_or_not_endsPlain {before rest : List Glyph} {tokens : List Token}
    (h : Lexes rest tokens) (hlast : ¬EndsPlain (charsOf (before ++ rest))) :
    rest = [] ∧ tokens = [] ∨ ¬EndsPlain (charsOf rest) := by
  cases rest with
  | nil => exact .inl ⟨rfl, h.eq_nil⟩
  | cons g rest =>
    rw [charsOf_append, charsOf_cons, endsPlain_append_cons] at hlast
    exact .inr hlast

/-- A block that ends in a backslash ends in a word. -/
theorem Lexes.exists_word_last {gs : List Glyph} {tokens : List Token} (h : Lexes gs tokens)
    (hlast : ¬EndsPlain (charsOf gs)) :
    ∃ before word, tokens = before ++ [word] ∧ word.isWord = true := by
  have hlater : ∀ {token : Token} {more : List Token},
      (∃ before word, more = before ++ [word] ∧ word.isWord = true) →
        ∃ before word, token :: more = before ++ [word] ∧ word.isWord = true := by
    rintro token _ ⟨before, word, rfl, hword⟩
    exact ⟨token :: before, word, rfl, hword⟩
  -- in each case, the backslash is behind the first token or in it
  induction h with
  | nil => exact absurd endsPlain_nil hlast
  | @gap gap rest more hgap hrest ih =>
    rcases hrest.eq_nil_or_not_endsPlain hlast with ⟨rfl, rfl⟩ | hends
    · rw [List.append_nil] at hlast
      exact absurd hgap.endsPlain hlast
    · exact ih hends
  | @atom g gap name rest more hopen hgap hname hrest ih =>
    rw [← List.append_assoc, ← List.cons_append] at hlast
    rcases hrest.eq_nil_or_not_endsPlain hlast with ⟨-, rfl⟩ | hends
    · exact ⟨[], _, rfl, rfl⟩
    · exact hlater (ih hends)
  | @close g rest more hclose hrest ih =>
    rw [← List.singleton_append] at hlast
    rcases hrest.eq_nil_or_not_endsPlain hlast with ⟨rfl, -⟩ | hends
    · refine absurd (endsPlain_cons ?_ endsPlain_nil) hlast
      rw [hclose]
      decide
    · exact hlater (ih hends)
  | @parameter g rest more hblank hopen hclose hrest ih =>
    obtain ⟨words, hwords⟩ := exists_words_of_readParameter (g :: rest)
    rw [hwords] at hlast
    rcases hrest.eq_nil_or_not_endsPlain hlast with ⟨-, rfl⟩ | hends
    · exact ⟨[], _, rfl, rfl⟩
    · exact hlater (ih hends)

/-- Tokens that end in a word leave a form open, or the word is outside of all forms. -/
theorem readItems_word_last {word : Token} (hword : word.isWord = true) (opens : List Form)
    (before : List Token) (items : List Item) : readItems opens (before ++ [word]) ≠ .ok items := by
  intro h
  fun_induction readItems opens before generalizing items with
  | case1 =>
    cases word with
    | atom | parameter => simp [readItems] at h
    | prose | close => cases hword
  | case2 innermost outer =>
    cases word with
    | atom => simp [readItems] at h
    | parameter =>
      rw [List.nil_append, readItems] at h
      split at h
      · cases h
      · split at h
        · cases h
        · simp [readItems] at h
    | prose | close => cases hword
  | case3 text location rest ih =>
    obtain ⟨more, hmore, -⟩ := except_map_eq_ok.1 h
    exact ih more hmore
  | case4 | case6 | case10 => simp [readItems] at h
  | case5 opens text location rest ih => exact ih items h
  | case7 text location rest innermost outer hlate => simp [readItems, hlate] at h
  | case8 text location rest innermost outer hlate htwice => simp [readItems, hlate, htwice] at h
  | case9 text location rest innermost outer hlate htwice ih =>
    rw [List.cons_append, readItems, if_neg hlate, if_neg htwice] at h
    exact ih items h
  | case11 location rest outermost ih =>
    obtain ⟨more, hmore, -⟩ := except_map_eq_ok.1 h
    exact ih more hmore
  | case12 location rest innermost parent outer ih => exact ih items h

/-- A block that spells items does not end in a backslash. -/
theorem endsPlain_of_ofTokens {gs : List Glyph} {tokens : List Token} {items : List Item}
    (htokens : blockTokens none gs = .ok tokens) (hitems : Item.ofTokens tokens = .ok items) :
    EndsPlain (charsOf gs) := by
  by_cases hplain : EndsPlain (charsOf gs)
  · exact hplain
  · obtain ⟨before, word, rfl, hword⟩ := (lexes_of_blockTokens htokens).exists_word_last hplain
    exact absurd hitems (readItems_word_last hword [] before items)

/-! ## Blocks hold no prose -/

/-- Whether a token is prose. -/
def Token.isProse : Token → Bool
  | .prose _ _ => true
  | .atom _ _ | .parameter _ _ | .close _ => false

theorem Lexes.isProse_eq_false {gs : List Glyph} {tokens : List Token} (h : Lexes gs tokens)
    {token : Token} (htoken : token ∈ tokens) : token.isProse = false := by
  induction h with
  | nil => cases htoken
  | gap _ _ ih => exact ih htoken
  | atom _ _ _ _ ih | close _ _ ih | parameter _ _ _ _ ih =>
    rcases List.mem_cons.1 htoken with rfl | htoken
    · rfl
    · exact ih htoken

/-- Tokens without prose spell forms. -/
theorem exists_form_of_readItems {opens : List Form} {tokens : List Token} {items : List Item}
    (h : readItems opens tokens = .ok items)
    (htokens : ∀ token ∈ tokens, token.isProse = false) {item : Item} (hitem : item ∈ items) :
    ∃ root, item = .form root := by
  fun_induction readItems opens tokens generalizing items with
  | case1 =>
    cases h
    cases hitem
  | case2 | case4 | case6 | case7 | case8 | case10 => cases h
  | case3 text location rest ih => cases htokens (.prose text location) List.mem_cons_self
  | case5 opens text location rest ih =>
    exact ih h (fun token htoken => htokens token (List.mem_cons_of_mem _ htoken)) hitem
  | case9 text location rest innermost outer hlate htwice ih =>
    exact ih h (fun token htoken => htokens token (List.mem_cons_of_mem _ htoken)) hitem
  | case11 location rest outermost ih =>
    obtain ⟨more, hmore, rfl⟩ := except_map_eq_ok.1 h
    rcases List.mem_cons.1 hitem with rfl | hitem
    · exact ⟨outermost, rfl⟩
    · exact ih hmore (fun token htoken => htokens token (List.mem_cons_of_mem _ htoken)) hitem
  | case12 location rest innermost parent outer ih =>
    exact ih h (fun token htoken => htokens token (List.mem_cons_of_mem _ htoken)) hitem

/-! ## Directives in a comment -/

/-- A text as the one block of a comment. -/
def wrapped (text : String) : String := "<!-- (dl " ++ text ++ ") -->"

theorem unifyNewlines_wrapped (text : String) :
    unifyNewlines (wrapped text).toList = '<' :: '!' :: '-' :: '-' :: ' ' :: '(' :: 'd' :: 'l' ::
      ((' ' :: unifyNewlines text.toList) ++ [')', ' ', '-', '-', '>']) := by
  have hshape : (wrapped text).toList = ['<', '!', '-', '-', ' ', '(', 'd', 'l', ' '] ++
      (text.toList ++ [')', ' ', '-', '-', '>']) := by
    simp [wrapped]
  rw [hshape, unifyNewlines_plain_append (by decide), unifyNewlines_append (by decide)]
  rfl

/-- The tokens of a file of directives are those of its text, taken as one block. -/
theorem blockTokens_of_documentTokens {document : Coordinate}
    (hkind : DocumentPath.Kind.ofExtension? document.extension? ≠ .markdown) {text : String}
    {tokens : List Token} (h : documentTokens document text = .ok tokens) :
    checkDirectives document.path [] (glyphs document.start (unifyNewlines text.toList)) = .ok () ∧
      blockTokens none (glyphs document.start (unifyNewlines text.toList)) = .ok tokens := by
  unfold documentTokens splitText at h
  split at h
  next hmarkdown => exact absurd hmarkdown hkind
  next =>
    obtain ⟨parts, hparts, htokens⟩ := except_bind_eq_ok.1 h
    obtain ⟨_, hcheck, rfl⟩ := except_map_eq_ok.1 hparts
    refine ⟨hcheck, ?_⟩
    split at htokens
    next hblank =>
      cases htokens
      have hchars : ∀ c ∈ charsOf (glyphs document.start (unifyNewlines text.toList)),
          isBlank c = true := by
        rw [charsOf_glyphs]
        exact List.all_eq_true.1 hblank
      have hskip := blockTokens_blank hchars none []
      rw [List.append_nil] at hskip
      rw [hskip, blockTokens.eq_def]
    next => rwa [tokenize_single, String.toList_ofList] at htokens

/-- In a comment, a balanced text is the one block that there is. -/
theorem exists_documentTokens_of_balanced {document : Coordinate}
    (hkind : DocumentPath.Kind.ofExtension? document.extension? = .markdown) {text : String}
    (hbalanced : Balanced (unifyNewlines text.toList)) (hend : ¬commentEnd <:+: text.toList) :
    ∃ place, documentTokens document (wrapped text) =
      blockTokens none (glyphs place (unifyNewlines text.toList)) := by
  have hbody : Balanced (' ' :: unifyNewlines text.toList) :=
    .plain (by decide) (by decide) (by decide) hbalanced
  have hmark : ¬commentEnd <:+: ' ' :: unifyNewlines text.toList := by
    intro hmark
    rcases List.infix_cons_iff.1 hmark with hnext | hinner
    · simp [commentEnd] at hnext
    · exact hend (infix_of_unifyNewlines (by decide) hinner)
  have hblank : ∀ c ∈ (' ' :: unifyNewlines text.toList).head?, isBlank c = true := by
    simp only [List.head?_cons, Option.mem_def, Option.some.injEq, forall_eq']
    decide
  obtain ⟨place, hplace⟩ := splitMarkdown_comment hbody hblank hmark document.start
  refine ⟨place.advance ' ', ?_⟩
  rw [documentTokens, splitText, hkind, unifyNewlines_wrapped]
  show (splitMarkdown document.start _).bind tokenize = _
  rw [hplace]
  show tokenize [.block (String.ofList (' ' :: unifyNewlines text.toList)) place] = _
  rw [tokenize_single, String.toList_ofList, glyphs, blockTokens_cons,
    if_pos (by decide : isBlank ' ' = true)]

/-- Moved onto one location, the glyphs of a text are the same wherever it stands. -/
theorem displaceGlyphs_onto (location start other : Location) (cs : List Char) :
    displaceGlyphs (.onto location) (glyphs start cs) =
      displaceGlyphs (.onto location) (glyphs other cs) := by
  induction cs generalizing start other with
  | nil => rfl
  | cons c rest ih => exact congrArg (⟨c, location⟩ :: ·) (ih (start.advance c) (other.advance c))

/-- **Directives in a comment give the tokens that they give in a file of their own, at other places.** -/
theorem exists_documentTokens_wrapped {document other : Coordinate}
    (hkind : DocumentPath.Kind.ofExtension? document.extension? ≠ .markdown)
    (hother : DocumentPath.Kind.ofExtension? other.extension? = .markdown) {text : String}
    (hend : ¬commentEnd <:+: text.toList) {tokens : List Token} {items : List Item}
    (htokens : documentTokens document text = .ok tokens)
    (hitems : Item.ofTokens tokens = .ok items) (location : Location) :
    ∃ tokens', documentTokens other (wrapped text) = .ok tokens' ∧
      tokens'.map (Token.displace (.onto location)) =
        tokens.map (Token.displace (.onto location)) := by
  obtain ⟨hcheck, hblock⟩ := blockTokens_of_documentTokens hkind htokens
  have hplain := endsPlain_of_ofTokens hblock hitems
  have hbalanced := balanced_of_checkDirectives hcheck hplain
  rw [charsOf_glyphs] at hbalanced
  obtain ⟨place, hplace⟩ := exists_documentTokens_of_balanced hother hbalanced hend
  -- both blocks are moved onto one location, where their glyphs are the same
  have hmoved := blockTokens_displace (.onto location) none
    (glyphs place (unifyNewlines text.toList))
  rw [displaceGlyphs_onto location place document.start, blockTokens_displace, hblock,
    displaceResult_ok] at hmoved
  cases hread : blockTokens none (glyphs place (unifyNewlines text.toList)) with
  | error fault =>
    rw [hread] at hmoved
    cases hmoved
  | ok tokens' =>
    rw [hread, displaceResult_ok] at hmoved
    exact ⟨tokens', hplace.trans hread, (Except.ok.inj hmoved).symm⟩

/-- A file of directives holds forms only. -/
theorem exists_form_of_documentItems {document : Coordinate}
    (hkind : DocumentPath.Kind.ofExtension? document.extension? ≠ .markdown) {text : String}
    {items : List Item} (h : documentItems document text = .ok items) {item : Item}
    (hitem : item ∈ items) : ∃ root, item = .form root := by
  obtain ⟨tokens, htokens, hitems⟩ := except_bind_eq_ok.1 h
  obtain ⟨-, hblock⟩ := blockTokens_of_documentTokens hkind htokens
  exact exists_form_of_readItems hitems
    (fun token htoken => (lexes_of_blockTokens hblock).isProse_eq_false htoken) hitem

end Source
end Bindery
