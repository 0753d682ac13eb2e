import Bindery.Proofs.Source.Lexing
import Bindery.Proofs.Source.Segments

/-!
# `Proofs.Source.Positions` — where the tokens of a document stand

The scanner of blocks copies the inside of a block, and the scanner of tokens reads that copy from the block's place on.
Nothing is lost in between: the glyphs of a block are those of the document, one after the other. So every token stands
at a character of the document, each behind the one before, and that character is what the token begins with.

## Contents
- `StandFrom`: glyphs that stand one after the other.
- `Cuts`: pieces of some glyphs, in order; `cuts_of_pieces`.
- `Token.StandsAt`, `Marks`: tokens that stand at some glyphs, in order; `Lexes.marks`, `Cuts.marks`.
- `positionAt`, `tokens_stand_in_order`: the positions of tokens.
-/

namespace Bindery
namespace Source

open Text

/-! ## Glyphs one after the other -/

/-- The glyphs stand one after the other, with the first one at the location. -/
def StandFrom (location : Location) (gs : List Glyph) : Prop := gs = glyphs location (charsOf gs)

theorem standFrom_glyphs (location : Location) (cs : List Char) :
    StandFrom location (glyphs location cs) := by
  rw [StandFrom, charsOf_glyphs]

theorem length_glyphs (location : Location) (cs : List Char) :
    (glyphs location cs).length = cs.length := by
  have hlength := congrArg List.length (charsOf_glyphs location cs)
  rwa [charsOf, List.length_map] at hlength

theorem StandFrom.of_append {location : Location} {before after : List Glyph}
    (h : StandFrom location (before ++ after)) :
    StandFrom location before ∧ StandFrom (location.advanceOver (charsOf before)) after := by
  rw [StandFrom, charsOf_append, glyphs_append] at h
  refine List.append_inj h ?_
  rw [length_glyphs, charsOf, List.length_map]

theorem StandFrom.of_cons {location : Location} {g : Glyph} {rest : List Glyph}
    (h : StandFrom location (g :: rest)) :
    g.location = location ∧ StandFrom (location.advance g.char) rest := by
  rw [StandFrom, charsOf_cons, glyphs] at h
  obtain ⟨hg, hrest⟩ := List.cons.inj h
  exact ⟨congrArg Glyph.location hg, hrest⟩

/-! ## Pieces of glyphs -/

/-- Pieces of some glyphs, in order. Of prose, only the first glyph is pinned down, since comments in it are dropped. A
block is followed by its closing parenthesis. -/
inductive Cuts : List Glyph → List Piece → Prop where
  | nil {gs : List Glyph} : Cuts gs []
  | skip {gs : List Glyph} {found : List Piece} (g : Glyph) (hrest : Cuts gs found) :
      Cuts (g :: gs) found
  | prose {gs : List Glyph} {found : List Piece} (g : Glyph) (more : List Glyph)
      (hrest : Cuts gs found) : Cuts (g :: gs) (.prose (g :: more) :: found)
  | block {start : Location} {body gs : List Glyph} {close : Glyph} {found : List Piece}
      (hbody : StandFrom start body) (hpairs : Pairs [] 0 (charsOf body)) (hclose : close.char = ')')
      (hrest : Cuts gs found) : Cuts (body ++ close :: gs) (.block start body :: found)

theorem Cuts.skip_append {gs : List Glyph} {found : List Piece} (h : Cuts gs found) :
    (before : List Glyph) → Cuts (before ++ gs) found
  | [] => h
  | g :: more => .skip g (h.skip_append more)

theorem Cuts.tail {gs : List Glyph} {piece : Piece} {found : List Piece}
    (h : Cuts gs (piece :: found)) : Cuts gs found := by
  generalize hpieces : piece :: found = pieces at h
  induction h with
  | nil => cases hpieces
  | skip g _ ih => exact .skip g (ih hpieces)
  | prose g more hrest =>
    cases hpieces
    exact .skip g hrest
  | @block start body gs close _ _ _ _ hrest =>
    cases hpieces
    simpa using hrest.skip_append (body ++ [close])

/-- The blocks of a comment are pieces of it, and what follows it is left. -/
theorem CommentInside.cuts {after : List Char} {insets : List Inset} {cs : List Char}
    (h : CommentInside after insets cs) (place : Location) {found : List Piece}
    (hfound : Cuts (glyphs (place.advanceOver (insets.flatMap Inset.text ++ commentEnd)) after) found) :
    Cuts (glyphs place cs) (blocksFrom place insets ++ found) := by
  induction h generalizing place with
  | done =>
    rw [glyphs_append]
    exact hfound.skip_append _
  | @skipped c insets rest _ _ _ ih => exact .skip _ (ih (place.advance c) hfound)
  | @block body insets rest _ hbody _ _ ih =>
    rw [List.flatMap_cons, List.append_assoc, advanceOver_append] at hfound
    -- behind the opener stand the inside of the block, its closing parenthesis and the rest of the comment
    rw [glyphs_append, glyphs_append, glyphs, advance_block]
    have hpairs : Pairs [] 0 (charsOf (glyphs (place.advanceOver blockStart) body)) := by
      rw [charsOf_glyphs]
      exact hbody.pairs
    exact (Cuts.block (standFrom_glyphs _ _) hpairs rfl (ih _ hfound)).skip_append _

/-- A segment that is no comment is a piece with its first glyph. -/
theorem Cuts.prose_glyphs {place : Location} {c : Char} {more rest : List Char} {found : List Piece}
    (h : Cuts (glyphs (place.advanceOver (c :: more)) rest) found) :
    Cuts (glyphs place (c :: more ++ rest)) (.prose (glyphs place (c :: more)) :: found) := by
  rw [glyphs_append]
  exact .prose _ _ (h.skip_append _)

theorem Segmented.cuts {segments : List Segment} {cs : List Char} (h : Segmented segments cs)
    (place : Location) : Cuts (glyphs place cs) (piecesFrom place segments) := by
  induction h generalizing place with
  | nil => exact .nil
  | fence _ _ ih => exact Cuts.prose_glyphs (ih _)
  | span _ _ _ ih => exact Cuts.prose_glyphs (ih _)
  | @char c segments rest _ _ _ ih => exact @Cuts.prose_glyphs place c [] rest _ (ih _)
  | @comment insets segments inside after hinside _ ih =>
    have hrest := ih (place.advanceOver (Segment.comment insets).text)
    rw [Segment.text, advanceOver_append] at hrest
    rw [glyphs_append]
    exact (hinside.cuts _ hrest).skip_append _

/-- **The pieces of a text stand in it, in order.** -/
theorem cuts_of_pieces {place : Location} {cs : List Char} {found : List Piece}
    (h : pieces (glyphs place cs) = .ok found) : Cuts (glyphs place cs) found := by
  obtain ⟨segments, hsegments, rfl⟩ := pieces_eq_ok_iff.1 h
  exact hsegments.cuts place

/-- Joined prose begins where its first piece does. -/
theorem Cuts.merge {gs : List Glyph} {found : List Piece} (h : Cuts gs found) :
    Cuts gs (Source.merge found) := by
  induction h with
  | nil => exact .nil
  | skip g _ ih => exact .skip g ih
  | prose g more _ ih =>
    rw [Source.merge]
    split
    next later others heq =>
      rw [heq] at ih
      exact .prose g (more ++ later) ih.tail
    next => exact .prose g more ih
  | block hbody hpairs hclose _ ih => exact .block hbody hpairs hclose ih

/-! ## Tokens at glyphs -/

/-- What a token begins with comes next: prose with its first character, an atom with its opening parenthesis, a parameter
with its first character or the backslash before that, and a closing parenthesis with itself. Between the parenthesis of
an atom and its characters there are blanks and remarks only. -/
def Token.StandsAt : Token → List Char → Prop
  | .prose text _, cs => ∃ c, text.toList.head? = some c ∧ cs.head? = some c
  | .atom text _, cs => ∃ gap rest, cs = '(' :: (gap ++ (text.toList ++ rest)) ∧ Gap gap ∧
      text ≠ "" ∧ (∀ c ∈ text.toList, isAtomChar c = true) ∧ EndsAtom rest
  | .parameter text _, cs => ∃ c, text.toList.head? = some c ∧
      (cs.head? = some c ∨ isEscapable c = true ∧ ['\\', c] <+: cs)
  | .close _, cs => cs.head? = some ')'

/-- The tokens stand at some of the glyphs, each behind the one before. -/
inductive Marks : List Glyph → List Token → Prop where
  | nil {gs : List Glyph} : Marks gs []
  | skip {gs : List Glyph} {tokens : List Token} (g : Glyph) (hrest : Marks gs tokens) :
      Marks (g :: gs) tokens
  | token {g : Glyph} {gs : List Glyph} {token : Token} {tokens : List Token}
      (hplace : token.location = g.location) (hstands : token.StandsAt (charsOf (g :: gs)))
      (hrest : Marks gs tokens) : Marks (g :: gs) (token :: tokens)

theorem Marks.skip_append {gs : List Glyph} {tokens : List Token} (h : Marks gs tokens) :
    (before : List Glyph) → Marks (before ++ gs) tokens
  | [] => h
  | g :: more => .skip g (h.skip_append more)

theorem head?_trimEnd {c : Char} (h : isBlank c = false) (cs : List Char) :
    (trimEnd (c :: cs)).head? = some c := by
  rw [trimEnd]
  split
  · simp [h]
  · rfl

/-- A parameter begins with the character that it is read from, or with the one behind a backslash. -/
theorem standsAt_parameter {g : Glyph} (hblank : isBlank g.char = false) (hopen : g.char ≠ '(')
    (hclose : g.char ≠ ')') (rest more : List Glyph) (location : Location) :
    (Token.parameter (String.ofList (trimEnd (readParameter (g :: rest)).1)) location).StandsAt
      (charsOf (g :: (rest ++ more))) := by
  rw [Token.StandsAt, String.toList_ofList, readParameter_cons, if_neg (by simp [hopen, hclose])]
  split
  next hescape =>
    cases rest with
    | nil => exact ⟨'\\', by decide, .inl (by simp [hescape])⟩
    | cons taken rest =>
      show ∃ c, (trimEnd (unescape taken.char ++ (readParameter rest).1)).head? = some c ∧ _
      by_cases hspecial : isEscapable taken.char = true
      · have htaken : isBlank taken.char = false := by
          rcases (by simpa [isEscapable] using hspecial : (taken.char = '(' ∨ taken.char = ')') ∨
            taken.char = '\\') with (h | h) | h <;> (rw [h]; decide)
        refine ⟨taken.char, ?_, .inr ⟨hspecial, by simp [hescape]⟩⟩
        rw [unescape, if_pos hspecial]
        exact head?_trimEnd htaken _
      · refine ⟨'\\', ?_, .inl (by simp [hescape])⟩
        rw [unescape, if_neg hspecial]
        exact head?_trimEnd (by decide) _
  next =>
    refine ⟨g.char, ?_, .inl rfl⟩
    exact head?_trimEnd hblank _

theorem exists_words_of_readParameter (gs : List Glyph) :
    ∃ words, gs = words ++ (readParameter gs).2 := by
  fun_induction readParameter gs with
  | case1 => exact ⟨[], rfl⟩
  | case2 g rest hparen => exact ⟨[], rfl⟩
  | case3 g hparen hescape => exact ⟨[g], rfl⟩
  | case4 g hparen hescape taken rest ih =>
    obtain ⟨words, hwords⟩ := ih
    exact ⟨g :: taken :: words, congrArg (g :: taken :: ·) hwords⟩
  | case5 g rest hparen hescape ih =>
    obtain ⟨words, hwords⟩ := ih
    exact ⟨g :: words, congrArg (g :: ·) hwords⟩

/-- **The tokens of a block stand at its glyphs**, and others may follow behind it. -/
theorem Lexes.marks {gs : List Glyph} {tokens : List Token} (h : Lexes gs tokens)
    {rest : List Glyph} {more : List Token} (hends : EndsAtom (charsOf rest))
    (hmore : Marks rest more) : Marks (gs ++ rest) (tokens ++ more) := by
  induction h with
  | nil => exact hmore
  | @gap gap _ _ hgap _ ih =>
    rw [List.append_assoc]
    exact ih.skip_append gap
  | @atom g gap name after _ hopen hgap hname _ ih =>
    rw [List.cons_append, List.append_assoc, List.append_assoc, List.cons_append]
    refine .token rfl ?_ ((ih.skip_append name).skip_append gap)
    refine ⟨charsOf gap, charsOf (after ++ rest), ?_, hgap, ?_, ?_, ?_⟩
    · simp [hopen, textOf]
    · intro hempty
      have hchars : charsOf name = [] := String.ofList_eq_empty_iff.1 hempty
      exact hname.nonempty (List.map_eq_nil_iff.1 hchars)
    · intro c hc
      rw [textOf, String.toList_ofList] at hc
      obtain ⟨k, hk, rfl⟩ := List.mem_map.1 hc
      exact hname.chars k hk
    · rw [charsOf_append]
      exact hname.ends.append hends
  | close hclose _ ih => exact .token rfl (by simp [Token.StandsAt, hclose]) ih
  | @parameter g after _ hblank hopen hclose _ ih =>
    refine .token rfl (standsAt_parameter hblank hopen hclose after rest g.location) ?_
    -- the parameter takes its first glyph, so what it leaves lies behind that
    obtain ⟨words, hwords⟩ := exists_words_of_readParameter (g :: after)
    have hfew : (readParameter (g :: after)).2.length < (g :: after).length :=
      length_readParameter_lt hopen hclose
    cases words with
    | nil =>
      rw [List.nil_append] at hwords
      rw [← hwords] at hfew
      exact absurd hfew (Nat.lt_irrefl _)
    | cons first words =>
      have hafter : after = words ++ (readParameter (g :: after)).2 := (List.cons.inj hwords).2
      have hmarks := ih.skip_append words
      rw [← List.append_assoc, ← hafter] at hmarks
      exact hmarks

/-- **The tokens of pieces stand at the glyphs that the pieces are cut from.** -/
theorem Cuts.marks {gs : List Glyph} {found : List Piece} (h : Cuts gs found) {tokens : List Token}
    (htokens : tokenize (found.filterMap Piece.toPart?) = .ok tokens) : Marks gs tokens := by
  induction h generalizing tokens with
  | nil =>
    cases htokens
    exact .nil
  | skip g _ ih => exact .skip g (ih htokens)
  | prose g more _ ih =>
    obtain ⟨others, hothers, rfl⟩ := except_map_eq_ok.1 htokens
    refine .token rfl ⟨g.char, ?_, rfl⟩ (ih hothers)
    simp [textOf]
  | @block start body gs close found hbody _ hclose _ ih =>
    obtain ⟨first, hfirst, hrest⟩ := except_bind_eq_ok.1 htokens
    obtain ⟨others, hothers, heq⟩ := except_bind_eq_ok.1 hrest
    cases heq
    rw [textOf, String.toList_ofList, ← hbody] at hfirst
    have hends : EndsAtom (charsOf (close :: gs)) := endsAtom_paren (.inr hclose) _
    exact (lexes_of_blockTokens hfirst).marks hends (.skip close (ih hothers))

/-! ## Positions -/

/-- The position of a place in a text whose first character stands in the first line and column. -/
def positionAt (text : List Char) (index : Nat) : Position :=
  (text.take index).foldl Position.advance ⟨1, 1⟩

theorem positionAt_succ {text : List Char} {index : Nat} {c : Char} {rest : List Char}
    (h : text.drop index = c :: rest) :
    positionAt text (index + 1) = (positionAt text index).advance c ∧ text.drop (index + 1) = rest := by
  have hget : text[index]? = some c := by
    rw [← List.head?_drop, h]
    rfl
  constructor
  · rw [positionAt, List.take_add_one, hget, List.foldl_append]
    rfl
  · rw [← List.drop_drop, h]
    rfl

/-- The first glyph of a text behind some index stands at that index, and the others behind the next one. -/
theorem glyphs_drop_eq_cons {document : Coordinate} {text : List Char} {index : Nat} {g : Glyph}
    {gs : List Glyph} (h : glyphs ⟨document, positionAt text index⟩ (text.drop index) = g :: gs) :
    g.location = ⟨document, positionAt text index⟩ ∧
      glyphs ⟨document, positionAt text (index + 1)⟩ (text.drop (index + 1)) = gs := by
  cases hdrop : text.drop index with
  | nil =>
    rw [hdrop] at h
    cases h
  | cons c rest =>
    obtain ⟨hposition, hrest⟩ := positionAt_succ hdrop
    rw [hdrop, glyphs] at h
    obtain ⟨rfl, hgs⟩ := List.cons.inj h
    rw [hposition, hrest]
    exact ⟨rfl, hgs⟩

/-- Tokens that stand at the glyphs of a text behind some index stand at indices of that text. -/
theorem Marks.exists_indices {document : Coordinate} {text : List Char} {index : Nat}
    {tokens : List Token}
    (h : Marks (glyphs ⟨document, positionAt text index⟩ (text.drop index)) tokens) :
    ∃ indices : List Nat, indices.Pairwise (· < ·) ∧ (∀ k ∈ indices, index ≤ k) ∧
      tokens.map Token.location = indices.map (fun k => ⟨document, positionAt text k⟩) ∧
      ∀ pair ∈ tokens.zip indices, pair.1.StandsAt (text.drop pair.2) := by
  generalize hgs : glyphs ⟨document, positionAt text index⟩ (text.drop index) = gs at h
  induction h generalizing index with
  | nil => exact ⟨[], .nil, by simp, rfl, by simp⟩
  | skip _ _ ih =>
    obtain ⟨-, hrest⟩ := glyphs_drop_eq_cons hgs
    obtain ⟨indices, hsorted, hbound, hplaces, hstands⟩ := ih hrest
    exact ⟨indices, hsorted, fun k hk => Nat.le_of_succ_le (hbound k hk), hplaces, hstands⟩
  | @token g gs token tokens hplace hstand _ ih =>
    have hchars : charsOf (g :: gs) = text.drop index := by rw [← hgs, charsOf_glyphs]
    obtain ⟨hlocation, hrest⟩ := glyphs_drop_eq_cons hgs
    obtain ⟨indices, hsorted, hbound, hplaces, hstands⟩ := ih hrest
    refine ⟨index :: indices, .cons (fun k hk => hbound k hk) hsorted, ?_, ?_, ?_⟩
    · intro k hk
      rcases List.mem_cons.1 hk with rfl | hk
      · exact Nat.le_refl k
      · exact Nat.le_of_succ_le (hbound k hk)
    · rw [List.map_cons, List.map_cons, hplaces, hplace, hlocation]
    · intro pair hpair
      rw [List.zip_cons_cons] at hpair
      rcases List.mem_cons.1 hpair with rfl | hpair
      · rwa [hchars] at hstand
      · exact hstands pair hpair

/-- The one block of a file of directives. -/
theorem tokenize_single (text : String) (location : Location) :
    tokenize [.block text location] = blockTokens none (glyphs location text.toList) := by
  show (blockTokens none (glyphs location text.toList)).bind (fun first => .ok (first ++ [])) = _
  cases blockTokens none (glyphs location text.toList) with
  | error fault => rfl
  | ok tokens => simp [Except.bind]

/-- The tokens of a document stand at its glyphs. -/
theorem marks_of_splitText {document : Coordinate} {text : List Char} {parts : List Part}
    {tokens : List Token} (hsplit : splitText document text = .ok parts)
    (htokens : tokenize parts = .ok tokens) : Marks (glyphs document.start text) tokens := by
  unfold splitText at hsplit
  split at hsplit
  next =>
    obtain ⟨found, hfound, rfl⟩ := except_map_eq_ok.1 hsplit
    exact (cuts_of_pieces hfound).merge.marks htokens
  next =>
    obtain ⟨_, -, rfl⟩ := except_map_eq_ok.1 hsplit
    split at htokens
    next =>
      cases htokens
      exact .nil
    next =>
      rw [tokenize_single, String.toList_ofList] at htokens
      have hends : EndsAtom (charsOf []) := fun c hc => nomatch hc
      have hmarks := (lexes_of_blockTokens htokens).marks hends .nil
      rwa [List.append_nil, List.append_nil] at hmarks

/-- **Tokens stand in their document in order**: their locations are the positions of increasing indices of the text with
its line ends unified, and at its index each token begins. -/
theorem tokens_stand_in_order {document : Coordinate} {text : String} {parts : List Part}
    {tokens : List Token} (hsplit : split document text = .ok parts)
    (htokens : tokenize parts = .ok tokens) :
    ∃ indices : List Nat, indices.Pairwise (· < ·) ∧
      tokens.map Token.location =
        indices.map (fun k => ⟨document, positionAt (unifyNewlines text.toList) k⟩) ∧
      ∀ pair ∈ tokens.zip indices, pair.1.StandsAt ((unifyNewlines text.toList).drop pair.2) := by
  unfold split at hsplit
  split at hsplit
  next => cases hsplit
  next =>
    rw [except_mapError_eq_ok] at hsplit
    have hmarks : Marks (glyphs ⟨document, positionAt (unifyNewlines text.toList) 0⟩
        ((unifyNewlines text.toList).drop 0)) tokens := marks_of_splitText hsplit htokens
    obtain ⟨indices, hsorted, -, hplaces, hstands⟩ := hmarks.exists_indices
    exact ⟨indices, hsorted, hplaces, hstands⟩

/-- A document with a wide character, two kinds of line end, a remark before an atom and an escaped parameter. -/
def escapedText : String := "é\r\n<!-- (dl ( (* x) t\n \\(b)) -->`a`\r"

/-- A document far from the first one, for `escapedText`. -/
def escapedDocument : Coordinate := ⟨"/docs/a.md", 2, 3⟩

theorem tokens_of_escapedText : ∃ parts tokens, split escapedDocument escapedText = .ok parts ∧
    tokenize parts = .ok tokens ∧
    tokens.map (·.location.position) = [⟨1, 1⟩, ⟨2, 10⟩, ⟨3, 2⟩, ⟨3, 5⟩, ⟨3, 11⟩] ∧
    ∃ indices : List Nat, indices.Pairwise (· < ·) ∧
      tokens.map Token.location =
        indices.map (fun k => ⟨escapedDocument, positionAt (unifyNewlines escapedText.toList) k⟩) ∧
      ∀ pair ∈ tokens.zip indices,
        pair.1.StandsAt ((unifyNewlines escapedText.toList).drop pair.2) := by
  have hfound : (split escapedDocument escapedText).toOption.map (fun parts =>
      (tokenize parts).toOption.map (List.map (·.location.position))) =
        some (some [⟨1, 1⟩, ⟨2, 10⟩, ⟨3, 2⟩, ⟨3, 5⟩, ⟨3, 11⟩]) := by
    decide +kernel
  obtain ⟨parts, hsplit, hparts⟩ := exists_ok_of_map hfound
  obtain ⟨tokens, htokens, hplaces⟩ := exists_ok_of_map hparts
  exact ⟨parts, tokens, hsplit, htokens, hplaces, tokens_stand_in_order hsplit htokens⟩

end Source
end Bindery
