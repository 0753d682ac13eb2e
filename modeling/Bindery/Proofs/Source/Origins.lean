import Bindery.Proofs.Source.Positions
import Bindery.Proofs.Source.Runs

/-!
# `Proofs.Source.Origins` — which characters of a text a token comes from

A token keeps the place where it begins. To tell where it ends, or on which lines it lies, the characters it comes from are
needed: all characters of a run of prose, comments in it aside, and the one character where a word of a block stands. Put
one after the other, these are characters of the text in their order. So their lines never go back, and go on by one
behind every line end.

## Contents
- `Piece.glyphs`, `Laid`: pieces that lie in a text in order; `laid_of_pieces`, `Laid.merge`.
- `Token.IsFrom`, `Traces`: tokens with the characters they come from; `exists_traces`.
- `Glyph.Precedes`, `pairwise_precedes_glyphs`: lines in the order of the text; `line_add_count_le`.
-/

namespace Bindery
namespace Source

open Text

/-! ## Pieces -/

/-- The glyphs of a piece. -/
def Piece.glyphs : Piece → List Glyph
  | .prose body => body
  | .block _ body => body

/-- The inside of a block stands from its place on. -/
def Piece.Stands : Piece → Prop
  | .prose _ => True
  | .block start body => StandFrom start body

/-- Pieces that lie among some glyphs, one after the other and each as a whole. -/
structure Laid (gs : List Glyph) (found : List Piece) : Prop where
  inOrder : (found.flatMap Piece.glyphs).Sublist gs
  stands : ∀ piece ∈ found, piece.Stands

theorem Laid.append {before after : List Glyph} {found more : List Piece} (h : Laid before found)
    (h' : Laid after more) : Laid (before ++ after) (found ++ more) where
  inOrder := by
    rw [List.flatMap_append]
    exact h.inOrder.append h'.inOrder
  stands := List.forall_mem_append.2 ⟨h.stands, h'.stands⟩

theorem Laid.skip {gs : List Glyph} {found : List Piece} (h : Laid gs found) (before : List Glyph) :
    Laid (before ++ gs) found :=
  ⟨h.inOrder.trans (List.sublist_append_right before gs), h.stands⟩

theorem laid_blocksFrom (place : Location) (insets : List Inset) :
    Laid (glyphs place (insets.flatMap Inset.text)) (blocksFrom place insets) := by
  fun_induction blocksFrom place insets with
  | case1 => exact ⟨List.nil_sublist _, List.forall_mem_nil _⟩
  | case2 place c rest ih => exact ih.skip [⟨c, place⟩]
  | case3 place body rest ih =>
    have hblock : Laid (glyphs (place.advanceOver blockStart) (body ++ [')']))
        [.block (place.advanceOver blockStart) (glyphs (place.advanceOver blockStart) body)] := by
      refine ⟨?_, List.forall_mem_singleton.2 (standFrom_glyphs _ _)⟩
      rw [glyphs_append]
      simp [Piece.glyphs]
    rw [List.flatMap_cons, glyphs_append, Inset.text, glyphs_append]
    exact (hblock.skip _).append ih

/-- The pieces that segments make lie in their text. -/
theorem laid_piecesFrom (place : Location) (segments : List Segment) :
    Laid (glyphs place (segments.flatMap Segment.text)) (piecesFrom place segments) := by
  fun_induction piecesFrom place segments with
  | case1 => exact ⟨List.nil_sublist _, List.forall_mem_nil _⟩
  | case2 place insets rest ih =>
    rw [List.flatMap_cons, glyphs_append]
    refine Laid.append ?_ ih
    rw [Segment.text, glyphs_append, glyphs_append]
    have hblocks := laid_blocksFrom (place.advanceOver commentStart) insets
    refine Laid.skip ⟨?_, hblocks.stands⟩ _
    exact hblocks.inOrder.trans (List.sublist_append_left _ _)
  | case3 place segment rest _ ih =>
    rw [List.flatMap_cons, glyphs_append]
    have hprose : Laid (glyphs place segment.text) [.prose (glyphs place segment.text)] := by
      refine ⟨?_, List.forall_mem_singleton.2 trivial⟩
      simp [Piece.glyphs]
    exact hprose.append ih

theorem laid_of_pieces {place : Location} {cs : List Char} {found : List Piece}
    (h : pieces (glyphs place cs) = .ok found) : Laid (glyphs place cs) found := by
  obtain ⟨segments, hsegments, rfl⟩ := pieces_eq_ok_iff.1 h
  rw [← hsegments.text_eq]
  exact laid_piecesFrom place segments

theorem flatMap_glyphs_merge (found : List Piece) :
    (merge found).flatMap Piece.glyphs = found.flatMap Piece.glyphs := by
  fun_induction merge found with
  | case1 => rfl
  | case2 body rest more others hrest ih =>
    rw [hrest] at ih
    rw [List.flatMap_cons, List.flatMap_cons, ← ih]
    simp [Piece.glyphs]
  | case3 body rest _ ih => rw [List.flatMap_cons, List.flatMap_cons, ih]
  | case4 start body rest ih => rw [List.flatMap_cons, List.flatMap_cons, ih]

theorem stands_merge {found : List Piece} (h : ∀ piece ∈ found, piece.Stands) :
    ∀ piece ∈ merge found, piece.Stands := by
  fun_induction merge found with
  | case1 => exact h
  | case2 body rest more others hrest ih =>
    have hmore := ih (List.forall_mem_cons.1 h).2
    rw [hrest] at hmore
    exact List.forall_mem_cons.2 ⟨trivial, (List.forall_mem_cons.1 hmore).2⟩
  | case3 body rest _ ih =>
    exact List.forall_mem_cons.2 ⟨trivial, ih (List.forall_mem_cons.1 h).2⟩
  | case4 start body rest ih =>
    exact List.forall_mem_cons.2 ⟨(List.forall_mem_cons.1 h).1, ih (List.forall_mem_cons.1 h).2⟩

/-- Joined prose has the glyphs of its pieces. -/
theorem Laid.merge {gs : List Glyph} {found : List Piece} (h : Laid gs found) :
    Laid gs (Source.merge found) :=
  ⟨(flatMap_glyphs_merge found).symm ▸ h.inOrder, stands_merge h.stands⟩

/-! ## Tokens -/

/-- The glyphs that a token comes from: a run of prose as a whole, and the one where any other token stands. -/
def Token.IsFrom (found : List Piece) : Token → List Glyph → Prop
  | .prose text location, gs =>
    .prose gs ∈ found ∧ text = textOf gs ∧ gs.head?.map Glyph.location = some location
  | .atom _ location, gs => gs.map Glyph.location = [location]
  | .parameter _ location, gs => gs.map Glyph.location = [location]
  | .close location, gs => gs.map Glyph.location = [location]

/-- Tokens with the glyphs they come from, which lie among others in order. -/
structure Traces (found : List Piece) (gs : List Glyph) (tokens : List Token)
    (traced : List (Token × List Glyph)) : Prop where
  tokens_eq : traced.map Prod.fst = tokens
  isFrom : ∀ pair ∈ traced, pair.1.IsFrom found pair.2
  inOrder : (traced.flatMap Prod.snd).Sublist gs

namespace Traces

variable {found : List Piece} {gs : List Glyph} {tokens : List Token}
  {traced : List (Token × List Glyph)}

theorem nil (gs : List Glyph) : Traces found gs [] [] :=
  ⟨rfl, List.forall_mem_nil _, List.nil_sublist _⟩

theorem skip (h : Traces found gs tokens traced) (before : List Glyph) :
    Traces found (before ++ gs) tokens traced :=
  ⟨h.tokens_eq, h.isFrom, h.inOrder.trans (List.sublist_append_right before gs)⟩

theorem cons (h : Traces found gs tokens traced) {token : Token} {origin : List Glyph}
    (hfrom : token.IsFrom found origin) :
    Traces found (origin ++ gs) (token :: tokens) ((token, origin) :: traced) where
  tokens_eq := congrArg (token :: ·) h.tokens_eq
  isFrom := List.forall_mem_cons.2 ⟨hfrom, h.isFrom⟩
  inOrder := h.inOrder.append_left origin

theorem append (h : Traces found gs tokens traced) {others : List Glyph} {more : List Token}
    {added : List (Token × List Glyph)} (h' : Traces found others more added) :
    Traces found (gs ++ others) (tokens ++ more) (traced ++ added) where
  tokens_eq := by rw [List.map_append, h.tokens_eq, h'.tokens_eq]
  isFrom := List.forall_mem_append.2 ⟨h.isFrom, h'.isFrom⟩
  inOrder := by
    rw [List.flatMap_append]
    exact h.inOrder.append h'.inOrder

end Traces

/-- Behind a parameter is left what comes after its first glyph, or less. -/
theorem exists_words_behind_parameter {g : Glyph} (rest : List Glyph) (hopen : g.char ≠ '(')
    (hclose : g.char ≠ ')') : ∃ words, rest = words ++ (readParameter (g :: rest)).2 := by
  obtain ⟨words, hwords⟩ := exists_words_of_readParameter (g :: rest)
  cases words with
  | nil =>
    have hfew := @length_readParameter_lt g rest hopen hclose
    rw [List.nil_append] at hwords
    rw [← hwords] at hfew
    exact absurd hfew (Nat.lt_irrefl _)
  | cons first words => exact ⟨words, (List.cons.inj hwords).2⟩

/-- **The words of a block** come from one glyph each. -/
theorem Lexes.exists_traces {gs : List Glyph} {tokens : List Token} (h : Lexes gs tokens)
    (found : List Piece) : ∃ traced, Traces found gs tokens traced := by
  induction h with
  | nil => exact ⟨[], .nil []⟩
  | @gap gap _ _ _ _ ih =>
    obtain ⟨traced, htraced⟩ := ih
    exact ⟨traced, htraced.skip gap⟩
  | @atom g gap name rest _ _ _ _ _ ih =>
    obtain ⟨traced, htraced⟩ := ih
    have hfrom : (Token.atom (textOf name) g.location).IsFrom found [g] := rfl
    exact ⟨_, ((htraced.skip name).skip gap).cons hfrom⟩
  | @close g _ _ _ _ ih =>
    obtain ⟨traced, htraced⟩ := ih
    have hfrom : (Token.close g.location).IsFrom found [g] := rfl
    exact ⟨_, htraced.cons hfrom⟩
  | @parameter g rest _ _ hopen hclose _ ih =>
    obtain ⟨traced, htraced⟩ := ih
    obtain ⟨words, hwords⟩ := exists_words_behind_parameter rest hopen hclose
    have hskipped := htraced.skip words
    rw [← hwords] at hskipped
    have hfrom (text : String) : (Token.parameter text g.location).IsFrom found [g] := rfl
    exact ⟨_, hskipped.cons (hfrom _)⟩

/-- **The tokens of pieces** come from the glyphs of these. -/
theorem exists_traces_of_tokenize {found some : List Piece} (hsome : some ⊆ found)
    (hstands : ∀ piece ∈ some, piece.Stands) {tokens : List Token}
    (htokens : tokenize (some.filterMap Piece.toPart?) = .ok tokens) :
    ∃ traced, Traces found (some.flatMap Piece.glyphs) tokens traced := by
  induction some generalizing tokens with
  | nil =>
    cases htokens
    exact ⟨[], .nil _⟩
  | cons piece rest ih =>
    obtain ⟨hpiece, hrest⟩ := List.cons_subset.1 hsome
    obtain ⟨hstand, hothersStand⟩ := List.forall_mem_cons.1 hstands
    rw [List.flatMap_cons]
    cases piece with
    | prose body =>
      cases body with
      | nil => exact ih hrest hothersStand htokens
      | cons g more =>
        obtain ⟨others, hothers, rfl⟩ := except_map_eq_ok.1 htokens
        obtain ⟨traced, htraced⟩ := ih hrest hothersStand hothers
        have hfrom : (Token.prose (textOf (g :: more)) g.location).IsFrom found (g :: more) :=
          ⟨hpiece, rfl, rfl⟩
        exact ⟨_, htraced.cons hfrom⟩
    | block start body =>
      obtain ⟨first, hfirst, hlater⟩ := except_bind_eq_ok.1 htokens
      obtain ⟨others, hothers, heq⟩ := except_bind_eq_ok.1 hlater
      cases heq
      -- the copy of the inside of a block that is read is the inside itself
      have hbody : glyphs start (textOf body).toList = body := by
        rw [textOf, String.toList_ofList]
        exact hstand.symm
      rw [hbody] at hfirst
      obtain ⟨words, hwords⟩ := (lexes_of_blockTokens hfirst).exists_traces found
      obtain ⟨traced, htraced⟩ := ih hrest hothersStand hothers
      exact ⟨_, hwords.append htraced⟩

/-- **The tokens of a Markdown text come from its glyphs, in order.** -/
theorem exists_traces {place : Location} {cs : List Char} {found : List Piece}
    (hfound : pieces (glyphs place cs) = .ok found) {tokens : List Token}
    (htokens : tokenize ((merge found).filterMap Piece.toPart?) = .ok tokens) :
    ∃ traced, Traces (merge found) (glyphs place cs) tokens traced := by
  have hlaid := (laid_of_pieces hfound).merge
  obtain ⟨traced, htraced⟩ :=
    exists_traces_of_tokenize (List.Subset.refl (merge found)) hlaid.stands htokens
  exact ⟨traced, htraced.tokens_eq, htraced.isFrom, htraced.inOrder.trans hlaid.inOrder⟩

/-! ## Lines -/

/-- The line of a glyph. -/
def Glyph.line (g : Glyph) : Nat := g.location.position.line

/-- A glyph is on no later line than another, and on an earlier one if it is a line end. -/
def Glyph.Precedes (a b : Glyph) : Prop := a.line + [a.char].count '\n' ≤ b.line

theorem line_le_of_mem_glyphs {place : Location} {cs : List Char} {g : Glyph}
    (h : g ∈ glyphs place cs) : place.position.line ≤ g.line := by
  induction cs generalizing place with
  | nil => cases h
  | cons c rest ih =>
    rcases List.mem_cons.1 h with rfl | hrest
    · exact Nat.le_refl _
    · refine Nat.le_trans ?_ (ih hrest)
      rw [Location.advance, Position.advance]
      split
      · exact Nat.le_succ _
      · exact Nat.le_refl _

/-- **Lines never go back**, and go on behind a line end. -/
theorem pairwise_precedes_glyphs (place : Location) (cs : List Char) :
    (glyphs place cs).Pairwise Glyph.Precedes := by
  induction cs generalizing place with
  | nil => exact .nil
  | cons c rest ih =>
    refine .cons ?_ (ih _)
    intro g hg
    have hline := line_le_of_mem_glyphs hg
    rw [Location.advance, Position.advance] at hline
    unfold Glyph.Precedes
    split at hline
    next hend =>
      subst hend
      exact hline
    next hend =>
      rw [List.count_singleton, if_neg (by simpa using hend)]
      exact hline

/-- From one glyph to a later one there are at least as many lines as line ends on the way. -/
theorem line_add_count_le {g : Glyph} {between : List Glyph} {last : Glyph} {more : List Glyph}
    (h : (g :: between ++ last :: more).Pairwise Glyph.Precedes) :
    g.line + (charsOf (g :: between)).count '\n' ≤ last.line := by
  induction between generalizing g with
  | nil =>
    have hfirst := List.rel_of_pairwise_cons h (List.mem_cons_self ..)
    simpa [Glyph.Precedes, charsOf] using hfirst
  | cons next rest ih =>
    have hnext := List.rel_of_pairwise_cons h (List.mem_cons_self ..)
    have hrest := ih h.of_cons
    unfold Glyph.Precedes at hnext
    rw [charsOf, List.map_cons, ← charsOf, List.count_cons]
    rw [List.count_singleton] at hnext
    omega

end Source
end Bindery
