import Bindery.Proofs.Source.Blocks

/-!
# `Proofs.Source.Segments` — how Markdown is cut

From left to right, a Markdown text is cut into fences, spans, comments and single characters, and the inside of a comment
into blocks and characters that are skipped. Which of them comes next is decided by the next characters, in this order,
and the text is refused if the one that comes next does not end. Here the segments are told by characters alone. The
scanner of pieces finds its way through a text exactly if the text can be cut, and there is one way to cut it.

## Contents
- `FenceInside`; `closeSpan_spec`, `closeFence_spec`: where code ends, as it is found; `closeSpan_eq`, `closeFence_eq`: in
  a larger text.
- `Inset`, `Segment`: what a text is cut into; `CommentInside`, `Segmented`: how.
- `pieces_fence`, `pieces_span`, `pieces_commentStart`, `pieces_char`: the scanner at each kind of segment.
- `piecesFrom`, `pieces_eq_ok_iff`: the texts that are accepted, and the pieces that are found in them.
- `Segmented.unique`: one way to cut.
-/

namespace Bindery
namespace Source

open Text

/-! ## Code -/

/-- A fence with this inside ends where it does: no earlier place has its closing mark. -/
def FenceInside (inner : List Char) : Prop :=
  ∀ before after, inner = before ++ after → after ≠ [] → ¬ fenceMark <+: after ++ fenceMark

theorem FenceInside.tail {c : Char} {inner : List Char} (h : FenceInside (c :: inner)) :
    FenceInside inner :=
  fun before after hsplit => h (c :: before) after (by rw [hsplit, List.cons_append])

theorem FenceInside.cons {c : Char} {inner : List Char} (h : FenceInside inner)
    (hc : ¬ fenceMark <+: c :: inner ++ fenceMark) : FenceInside (c :: inner) := by
  intro before after hsplit hsome
  cases before with
  | nil =>
    cases hsplit
    exact hc
  | cons d before => exact h before after (List.cons.inj hsplit).2 hsome

theorem startsWith_iff {word : List Char} {gs : List Glyph} :
    startsWith word gs = true ↔ word <+: charsOf gs := by
  rw [startsWith_eq, List.isPrefixOf_iff_prefix]

/-- The next characters, if they are as expected. -/
theorem exists_of_startsWith {word : List Char} {gs : List Glyph} (h : startsWith word gs = true) :
    charsOf (gs.take word.length) = word := by
  rw [startsWith_iff] at h
  rw [charsOf, List.map_take]
  exact (List.prefix_iff_eq_take.1 h).symm

theorem append_of_closeFence {gs body after : List Glyph} (h : closeFence gs = some (body, after)) :
    gs = body ++ after := by
  fun_induction closeFence gs generalizing body after with
  | case1 => cases h
  | case2 g rest hmark =>
    cases h
    rw [List.cons_append, List.take_append_drop]
  | case3 g rest hmark ih =>
    obtain ⟨⟨body, after⟩, hread, heq⟩ := Option.map_eq_some_iff.1 h
    cases heq
    rw [ih hread]
    rfl

theorem append_of_closeSpan {gs body after : List Glyph} (h : closeSpan gs = some (body, after)) :
    gs = body ++ after := by
  fun_induction closeSpan gs generalizing body after with
  | case1 | case3 => cases h
  | case2 g rest htick =>
    cases h
    rfl
  | case4 g rest htick hline ih =>
    obtain ⟨⟨body, after⟩, hread, heq⟩ := Option.map_eq_some_iff.1 h
    cases heq
    rw [ih hread]
    rfl

/-- What a span that was found consists of. -/
theorem closeSpan_spec {gs body after : List Glyph} (h : closeSpan gs = some (body, after)) :
    ∃ inner, charsOf body = inner ++ ['`'] ∧ ∀ c ∈ inner, c ≠ '`' ∧ c ≠ '\n' := by
  fun_induction closeSpan gs generalizing body after with
  | case1 | case3 => cases h
  | case2 g rest htick =>
    cases h
    exact ⟨[], by rw [charsOf_cons, htick]; rfl, List.forall_mem_nil _⟩
  | case4 g rest htick hline ih =>
    obtain ⟨⟨body, after⟩, hread, heq⟩ := Option.map_eq_some_iff.1 h
    cases heq
    obtain ⟨inner, hbody, hinner⟩ := ih hread
    refine ⟨g.char :: inner, ?_, List.forall_mem_cons.2 ⟨⟨htick, hline⟩, hinner⟩⟩
    show g.char :: charsOf body = _
    rw [hbody]
    rfl

/-- A span is found whatever follows it. -/
theorem closeSpan_eq {inner : List Char} (h : ∀ c ∈ inner, c ≠ '`' ∧ c ≠ '\n') {gs : List Glyph}
    (hgs : charsOf gs = inner ++ ['`']) (rest : List Glyph) :
    closeSpan (gs ++ rest) = some (gs, rest) := by
  induction inner generalizing gs with
  | nil =>
    obtain ⟨g, more, rfl, hg, hmore⟩ := charsOf_eq_cons hgs
    cases List.map_eq_nil_iff.1 hmore
    rw [List.singleton_append, closeSpan, if_pos hg]
  | cons c inner ih =>
    obtain ⟨⟨htick, hline⟩, hinner⟩ := List.forall_mem_cons.1 h
    obtain ⟨g, more, rfl, rfl, hmore⟩ := charsOf_eq_cons hgs
    rw [List.cons_append, closeSpan, if_neg htick, if_neg hline, ih hinner hmore]
    rfl

/-- What the rest of a fence that was found consists of. -/
theorem closeFence_spec {gs body after : List Glyph} (h : closeFence gs = some (body, after)) :
    ∃ inner, charsOf body = inner ++ fenceMark ∧ FenceInside inner := by
  fun_induction closeFence gs generalizing body after with
  | case1 => cases h
  | case2 g rest hmark =>
    cases h
    exact ⟨[], exists_of_startsWith hmark, fun _ after hsplit hsome =>
      absurd (List.append_eq_nil_iff.1 hsplit.symm).2 hsome⟩
  | case3 g rest hmark ih =>
    obtain ⟨⟨body, after⟩, hread, heq⟩ := Option.map_eq_some_iff.1 h
    cases heq
    obtain ⟨inner, hbody, hinner⟩ := ih hread
    refine ⟨g.char :: inner, ?_, hinner.cons fun hstart => hmark ?_⟩
    · show g.char :: charsOf body = _
      rw [hbody]
      rfl
    · rw [startsWith_iff, append_of_closeFence hread, charsOf_cons, charsOf_append, hbody]
      exact hstart.trans (List.prefix_append (g.char :: inner ++ fenceMark) (charsOf after))

/-- The rest of a fence is found whatever follows it. -/
theorem closeFence_eq {inner : List Char} (h : FenceInside inner) {gs : List Glyph}
    (hgs : charsOf gs = inner ++ fenceMark) (rest : List Glyph) :
    closeFence (gs ++ rest) = some (gs, rest) := by
  induction inner generalizing gs with
  | nil =>
    obtain ⟨a, more, rfl, ha, hmore⟩ := charsOf_eq_cons hgs
    obtain ⟨b, more, rfl, hb, hmore⟩ := charsOf_eq_cons hmore
    obtain ⟨c, more, rfl, hc, hmore⟩ := charsOf_eq_cons hmore
    cases List.map_eq_nil_iff.1 hmore
    rw [List.cons_append, closeFence, if_pos (by simp [startsWith, fenceMark, ha, hb, hc])]
    rfl
  | cons c inner ih =>
    obtain ⟨g, more, rfl, rfl, hmore⟩ := charsOf_eq_cons hgs
    have hmark : ¬ startsWith fenceMark (g :: more ++ rest) = true := by
      rw [startsWith_iff, charsOf_append, charsOf_cons, hmore]
      have hlength : fenceMark.length ≤ (g.char :: (inner ++ fenceMark)).length := by
        rw [List.length_cons, List.length_append]
        omega
      intro hstart
      exact h [] (g.char :: inner) rfl (List.cons_ne_nil _ _)
        (List.prefix_of_prefix_length_le hstart (List.prefix_append _ _) hlength)
    rw [List.cons_append] at hmark ⊢
    rw [closeFence, if_neg hmark, ih h.tail hmore]
    rfl

/-! ## Segments -/

/-- What stands in a comment: a character that is skipped, or the inside of a block. -/
inductive Inset where
  | skipped (c : Char)
  | block (body : List Char)
deriving DecidableEq, Repr

/-- What stands in a text: the inside of a fence, the inside of a span, a comment, or a character that is none of these. -/
inductive Segment where
  | fence (inner : List Char)
  | span (inner : List Char)
  | comment (insets : List Inset)
  | char (c : Char)
deriving DecidableEq, Repr

/-- The opener of a block. -/
def blockStart : List Char := ['(', 'd', 'l']

/-- The text of an inset. -/
def Inset.text : Inset → List Char
  | .skipped c => [c]
  | .block body => blockStart ++ (body ++ [')'])

/-- The text of a segment, with its marks. -/
def Segment.text : Segment → List Char
  | .fence inner => fenceMark ++ (inner ++ fenceMark)
  | .span inner => '`' :: (inner ++ ['`'])
  | .comment insets => commentStart ++ (insets.flatMap Inset.text ++ commentEnd)
  | .char c => [c]

/-- The rest of a comment is cut into insets up to the mark that ends it, and `after` follows. A block is balanced text in
which the comment does not end. -/
inductive CommentInside (after : List Char) : List Inset → List Char → Prop where
  | done : CommentInside after [] (commentEnd ++ after)
  | skipped {c : Char} {insets : List Inset} {rest : List Char} (hend : ¬ commentEnd <+: c :: rest)
      (hblock : opensAt (c :: rest) = false) (hrest : CommentInside after insets rest) :
      CommentInside after (.skipped c :: insets) (c :: rest)
  | block {body : List Char} {insets : List Inset} {rest : List Char}
      (hopens : opensAt (blockStart ++ (body ++ ')' :: rest)) = true) (hbody : Balanced body)
      (hend : endsUnescaped body = false) (hrest : CommentInside after insets rest) :
      CommentInside after (.block body :: insets) (blockStart ++ (body ++ ')' :: rest))

/-- The text is cut into segments. A fence comes before a span, and only what begins neither code nor a comment is a
character of its own. -/
inductive Segmented : List Segment → List Char → Prop where
  | nil : Segmented [] []
  | fence {inner : List Char} {segments : List Segment} {rest : List Char}
      (hinner : FenceInside inner) (hrest : Segmented segments rest) :
      Segmented (.fence inner :: segments) (fenceMark ++ (inner ++ fenceMark) ++ rest)
  | span {inner : List Char} {segments : List Segment} {rest : List Char}
      (hinner : ∀ c ∈ inner, c ≠ '`' ∧ c ≠ '\n')
      (hmark : ¬ fenceMark <+: '`' :: (inner ++ ['`']) ++ rest) (hrest : Segmented segments rest) :
      Segmented (.span inner :: segments) ('`' :: (inner ++ ['`']) ++ rest)
  | comment {insets : List Inset} {segments : List Segment} {inside after : List Char}
      (hinside : CommentInside after insets inside) (hrest : Segmented segments after) :
      Segmented (.comment insets :: segments) (commentStart ++ inside)
  | char {c : Char} {segments : List Segment} {rest : List Char} (hc : c ≠ '`')
      (hstart : ¬ commentStart <+: c :: rest) (hrest : Segmented segments rest) :
      Segmented (.char c :: segments) (c :: rest)

theorem CommentInside.text_eq {after : List Char} {insets : List Inset} {cs : List Char}
    (h : CommentInside after insets cs) : cs = insets.flatMap Inset.text ++ commentEnd ++ after := by
  induction h with
  | done => rfl
  | skipped _ _ _ ih =>
    rw [List.flatMap_cons, ih]
    rfl
  | block _ _ _ _ ih =>
    rw [List.flatMap_cons, ih]
    simp [Inset.text]

/-- Nothing is lost when a text is cut. -/
theorem Segmented.text_eq {segments : List Segment} {cs : List Char} (h : Segmented segments cs) :
    segments.flatMap Segment.text = cs := by
  induction h with
  | nil => rfl
  | fence _ _ ih | span _ _ _ ih | char _ _ _ ih =>
    rw [List.flatMap_cons, ih]
    rfl
  | comment hinside _ ih =>
    rw [List.flatMap_cons, ih, hinside.text_eq]
    simp [Segment.text]

/-! ## One step of the scanner -/

/-- A fence is found as a whole. -/
theorem pieces_fence {inner : List Char} (hinner : FenceInside inner) {code : List Glyph}
    (hcode : charsOf code = fenceMark ++ (inner ++ fenceMark)) (rest : List Glyph) :
    pieces (code ++ rest) = (pieces rest).map (.prose code :: ·) := by
  obtain ⟨opening, body, rfl, hopening, hbody⟩ := charsOf_eq_append hcode
  obtain ⟨a, tail, rfl, ha, htail⟩ := charsOf_eq_cons hopening
  obtain ⟨b, tail, rfl, hb, htail⟩ := charsOf_eq_cons htail
  obtain ⟨c, tail, rfl, hc, htail⟩ := charsOf_eq_cons htail
  cases List.map_eq_nil_iff.1 htail
  have hopen : startsWith fenceMark (a :: b :: c :: (body ++ rest)) = true := by
    simp [startsWith, fenceMark, ha, hb, hc]
  have hclose : closeFence ((b :: c :: (body ++ rest)).drop 2) = some (body, rest) :=
    closeFence_eq hinner hbody rest
  show pieces (a :: b :: c :: (body ++ rest)) = _
  rw [pieces_cons, if_pos hopen, hclose]
  rfl

/-- A span is found as a whole, where no fence begins. -/
theorem pieces_span {inner : List Char} (hinner : ∀ c ∈ inner, c ≠ '`' ∧ c ≠ '\n') {code : List Glyph}
    (hcode : charsOf code = '`' :: (inner ++ ['`'])) {rest : List Glyph}
    (hmark : ¬ fenceMark <+: charsOf (code ++ rest)) :
    pieces (code ++ rest) = (pieces rest).map (.prose code :: ·) := by
  obtain ⟨g, body, rfl, hg, hbody⟩ := charsOf_eq_cons hcode
  rw [← startsWith_iff, List.cons_append] at hmark
  rw [List.cons_append, pieces_cons, if_neg hmark, if_pos hg, closeSpan_eq hinner hbody]

/-- A comment leaves its blocks. -/
theorem pieces_commentStart {opening : List Glyph} (hopening : charsOf opening = commentStart)
    (inside : List Glyph) :
    ∃ opener, pieces (opening ++ inside) =
      (readComment opener inside).bind fun comment => (pieces comment.2).map (comment.1 ++ ·) := by
  obtain ⟨a, tail, rfl, ha, htail⟩ := charsOf_eq_cons hopening
  obtain ⟨b, tail, rfl, hb, htail⟩ := charsOf_eq_cons htail
  obtain ⟨c, tail, rfl, hc, htail⟩ := charsOf_eq_cons htail
  obtain ⟨d, tail, rfl, hd, htail⟩ := charsOf_eq_cons htail
  cases List.map_eq_nil_iff.1 htail
  have hmark : ¬ startsWith fenceMark (a :: b :: c :: d :: inside) = true := by
    simp [startsWith, fenceMark, ha]
  have htick : a.char ≠ '`' := by simp [ha]
  have hstart : startsWith commentStart (a :: b :: c :: d :: inside) = true := by
    simp [startsWith, commentStart, ha, hb, hc, hd]
  refine ⟨a.location, ?_⟩
  show pieces (a :: b :: c :: d :: inside) = _
  rw [pieces_cons, if_neg hmark, if_neg htick, if_pos hstart]
  rfl

/-- A character that begins neither code nor a comment is prose of its own. -/
theorem pieces_char {g : Glyph} {rest : List Glyph} (htick : g.char ≠ '`')
    (hstart : ¬ commentStart <+: charsOf (g :: rest)) :
    pieces (g :: rest) = (pieces rest).map (.prose [g] :: ·) := by
  have hmark : ¬ startsWith fenceMark (g :: rest) = true := by simp [startsWith, fenceMark, htick]
  rw [← startsWith_iff] at hstart
  rw [pieces_cons, if_neg hmark, if_neg htick, if_neg hstart]

theorem readComment_end {closing : List Glyph} (hclosing : charsOf closing = commentEnd)
    (opener : Location) (rest : List Glyph) : readComment opener (closing ++ rest) = .ok ([], rest) := by
  obtain ⟨a, tail, rfl, ha, htail⟩ := charsOf_eq_cons hclosing
  obtain ⟨b, tail, rfl, hb, htail⟩ := charsOf_eq_cons htail
  obtain ⟨c, tail, rfl, hc, htail⟩ := charsOf_eq_cons htail
  cases List.map_eq_nil_iff.1 htail
  rw [List.cons_append, readComment_cons, if_pos (by simp [startsWith, commentEnd, ha, hb, hc])]
  rfl

theorem advanceOver_append (place : Location) (cs more : List Char) :
    place.advanceOver (cs ++ more) = (place.advanceOver cs).advanceOver more :=
  List.foldl_append

/-- The place behind the parenthesis that closes a block. -/
theorem advance_block (place : Location) (body : List Char) :
    ((place.advanceOver blockStart).advanceOver body).advance ')' =
      place.advanceOver (Inset.block body).text := by
  rw [Inset.text, advanceOver_append, advanceOver_append]
  rfl

/-- A block in a comment is found as a whole. -/
theorem readComment_blockStart {body rest : List Char}
    (hopens : opensAt (blockStart ++ (body ++ ')' :: rest)) = true) (hbody : Balanced body)
    (hend : endsUnescaped body = false) (opener place : Location) :
    readComment opener (glyphs place (blockStart ++ (body ++ ')' :: rest))) =
      (readComment opener (glyphs (place.advanceOver (Inset.block body).text) rest)).map fun read =>
        (.block (place.advanceOver blockStart) (glyphs (place.advanceOver blockStart) body) :: read.1,
          read.2) := by
  let inside := place.advanceOver blockStart
  have hread : readBlock place [] (glyphs inside (body ++ ')' :: rest)) =
      .ok (glyphs inside body, glyphs (place.advanceOver (Inset.block body).text) rest) := by
    rw [glyphs_append, glyphs, advance_block]
    refine readBlock_whole ?_ ?_ rfl place _
    · rwa [charsOf_glyphs]
    · rwa [charsOf_glyphs]
  have hopened : opensBlock (glyphs place ('(' :: 'd' :: 'l' :: (body ++ ')' :: rest))) = true := by
    rw [opensBlock_eq_opensAt, charsOf_glyphs]
    exact hopens
  show readComment opener (glyphs place ('(' :: 'd' :: 'l' :: (body ++ ')' :: rest))) = _
  rw [glyphs] at hopened ⊢
  rw [readComment_cons, if_neg (by simp [startsWith, commentEnd]), if_pos hopened]
  show (readBlock place [] (glyphs inside (body ++ ')' :: rest))).bind _ = _
  rw [hread]
  rfl

/-! ## What the scanner finds -/

/-- The blocks among insets that stand from a place on. -/
def blocksFrom (place : Location) : List Inset → List Piece
  | [] => []
  | .skipped c :: rest => blocksFrom (place.advance c) rest
  | .block body :: rest =>
    .block (place.advanceOver blockStart) (glyphs (place.advanceOver blockStart) body) ::
      blocksFrom (place.advanceOver (Inset.block body).text) rest

/-- The pieces that segments make which stand from a place on: the blocks of a comment, and any other segment whole. -/
def piecesFrom (place : Location) : List Segment → List Piece
  | [] => []
  | .comment insets :: rest =>
    blocksFrom (place.advanceOver commentStart) insets ++
      piecesFrom (place.advanceOver (Segment.comment insets).text) rest
  | segment :: rest =>
    .prose (glyphs place segment.text) :: piecesFrom (place.advanceOver segment.text) rest

/-- The scanner finds the blocks of a comment. -/
theorem CommentInside.readComment_eq {after : List Char} {insets : List Inset} {cs : List Char}
    (h : CommentInside after insets cs) (opener place : Location) :
    readComment opener (glyphs place cs) =
      .ok (blocksFrom place insets,
        glyphs (place.advanceOver (insets.flatMap Inset.text ++ commentEnd)) after) := by
  induction h generalizing place with
  | done =>
    rw [glyphs_append]
    exact readComment_end (charsOf_glyphs _ _) opener _
  | @skipped c insets rest hend hblock _ ih =>
    have hmark : startsWith commentEnd (glyphs place (c :: rest)) = false := by
      rw [startsWith_eq, charsOf_glyphs, Bool.eq_false_iff, ne_eq, List.isPrefixOf_iff_prefix]
      exact hend
    have hnone : opensBlock (glyphs place (c :: rest)) = false := by
      rw [opensBlock_eq_opensAt, charsOf_glyphs, hblock]
    rw [glyphs, readComment_skip hmark hnone, ih (place.advance c)]
    rfl
  | block hopens hbody hend _ ih =>
    rw [readComment_blockStart hopens hbody hend, ih, ← advanceOver_append, List.flatMap_cons,
      List.append_assoc]
    rfl

/-- The scanner finds the pieces that the segments of a text make. -/
theorem Segmented.pieces_eq {segments : List Segment} {cs : List Char} (h : Segmented segments cs)
    (place : Location) : pieces (glyphs place cs) = .ok (piecesFrom place segments) := by
  induction h generalizing place with
  | nil => rw [glyphs, pieces, piecesFrom]
  | fence hinner _ ih =>
    rw [glyphs_append, pieces_fence hinner (charsOf_glyphs _ _), ih]
    rfl
  | span hinner hmark _ ih =>
    rw [← charsOf_glyphs place ('`' :: _ ++ _), glyphs_append] at hmark
    rw [glyphs_append, pieces_span hinner (charsOf_glyphs _ _) hmark, ih]
    rfl
  | @comment insets segments inside after hinside _ ih =>
    rw [glyphs_append]
    obtain ⟨opener, hpieces⟩ := pieces_commentStart (charsOf_glyphs place commentStart)
      (glyphs (place.advanceOver commentStart) inside)
    rw [hpieces, hinside.readComment_eq]
    show (pieces (glyphs _ after)).map _ = _
    rw [ih, ← advanceOver_append]
    rfl
  | @char c segments rest hc hstart _ ih =>
    rw [← charsOf_glyphs place (c :: rest), glyphs] at hstart
    rw [glyphs, pieces_char hc hstart, ih]
    rfl

theorem charsOf_eq_of_startsWith {word : List Char} {gs : List Glyph} (h : startsWith word gs = true) :
    charsOf gs = word ++ charsOf (gs.drop word.length) := by
  have hgs : charsOf gs = charsOf (gs.take word.length) ++ charsOf (gs.drop word.length) := by
    rw [← charsOf_append, List.take_append_drop]
  rwa [exists_of_startsWith h] at hgs

/-- A comment that ends is cut into insets. -/
theorem exists_insets_of_readComment {opener : Location} {gs after : List Glyph}
    {blocks : List Piece} (h : readComment opener gs = .ok (blocks, after)) :
    ∃ insets, CommentInside (charsOf after) insets (charsOf gs) := by
  fun_induction readComment opener gs generalizing blocks after with
  | case1 | case3 => cases h
  | case2 g rest hmark =>
    cases h
    rw [charsOf_eq_of_startsWith hmark]
    exact ⟨[], .done⟩
  | case4 g rest hmark hopens body later hblock ih =>
    obtain ⟨⟨others, after⟩, hread, heq⟩ := except_map_eq_ok.1 h
    cases heq
    obtain ⟨insets, hinsets⟩ := ih hread
    obtain ⟨close, hlater, hclose, hbody, hend⟩ := readBlock_eq_ok_iff.1 hblock
    have hword : startsWith blockStart (g :: rest) = true := by
      rw [opensBlock_eq, Bool.and_eq_true] at hopens
      exact hopens.1
    have hchars : charsOf (g :: rest) = blockStart ++ (charsOf body ++ ')' :: charsOf later) := by
      rw [charsOf_eq_of_startsWith hword]
      show blockStart ++ charsOf (rest.drop 2) = _
      rw [hlater, charsOf_append, charsOf_cons, hclose]
    rw [opensBlock_eq_opensAt, hchars] at hopens
    rw [hchars]
    exact ⟨_, .block hopens hbody hend hinsets⟩
  | case5 g rest hmark hopens ih =>
    obtain ⟨insets, hinsets⟩ := ih h
    rw [startsWith_iff, charsOf_cons] at hmark
    rw [opensBlock_eq_opensAt, charsOf_cons, Bool.not_eq_true] at hopens
    exact ⟨_, .skipped hmark hopens hinsets⟩

/-- A text in which the scanner finds its way is cut into segments. -/
theorem exists_segments_of_pieces {gs : List Glyph} {found : List Piece} (h : pieces gs = .ok found) :
    ∃ segments, Segmented segments (charsOf gs) := by
  fun_induction pieces gs generalizing found with
  | case1 => exact ⟨[], .nil⟩
  | case2 | case4 | case6 => cases h
  | case3 g rest hmark body after hfence ih =>
    obtain ⟨others, hothers, rfl⟩ := except_map_eq_ok.1 h
    obtain ⟨segments, hsegments⟩ := ih hothers
    obtain ⟨inner, hbody, hinner⟩ := closeFence_spec hfence
    have hchars : charsOf (g :: rest) = fenceMark ++ (inner ++ fenceMark) ++ charsOf after := by
      rw [charsOf_eq_of_startsWith hmark]
      show fenceMark ++ charsOf (rest.drop 2) = _
      rw [append_of_closeFence hfence, charsOf_append, hbody]
      simp
    rw [hchars]
    exact ⟨_, .fence hinner hsegments⟩
  | case5 g rest hmark htick body after hspan ih =>
    obtain ⟨others, hothers, rfl⟩ := except_map_eq_ok.1 h
    obtain ⟨segments, hsegments⟩ := ih hothers
    obtain ⟨inner, hbody, hinner⟩ := closeSpan_spec hspan
    have hchars : charsOf (g :: rest) = '`' :: (inner ++ ['`']) ++ charsOf after := by
      rw [append_of_closeSpan hspan, charsOf_cons, charsOf_append, htick, hbody, List.cons_append]
    rw [startsWith_iff, hchars] at hmark
    rw [hchars]
    exact ⟨_, .span hinner hmark hsegments⟩
  | case7 g rest hmark htick hstart blocks after hcomment ih =>
    obtain ⟨others, hothers, rfl⟩ := except_map_eq_ok.1 h
    obtain ⟨segments, hsegments⟩ := ih hothers
    obtain ⟨insets, hinsets⟩ := exists_insets_of_readComment hcomment
    rw [charsOf_eq_of_startsWith hstart]
    exact ⟨_, .comment hinsets hsegments⟩
  | case8 g rest hmark htick hstart ih =>
    obtain ⟨others, hothers, rfl⟩ := except_map_eq_ok.1 h
    obtain ⟨segments, hsegments⟩ := ih hothers
    rw [startsWith_iff, charsOf_cons] at hstart
    exact ⟨_, .char htick hstart hsegments⟩

/-- **The texts in which the scanner finds its way, and what it finds.** -/
theorem pieces_eq_ok_iff {place : Location} {cs : List Char} {found : List Piece} :
    pieces (glyphs place cs) = .ok found ↔
      ∃ segments, Segmented segments cs ∧ found = piecesFrom place segments := by
  constructor
  · intro h
    obtain ⟨segments, hsegments⟩ := exists_segments_of_pieces h
    rw [charsOf_glyphs] at hsegments
    refine ⟨segments, hsegments, ?_⟩
    rw [hsegments.pieces_eq] at h
    exact (Except.ok.inj h).symm
  · rintro ⟨segments, hsegments, rfl⟩
    exact hsegments.pieces_eq place

/-! ## One way to cut -/

/-- The inside of a comment is cut in one way, and ends at one place. -/
theorem CommentInside.unique {after : List Char} {insets : List Inset} {cs : List Char}
    (h : CommentInside after insets cs) {later : List Char} {others : List Inset}
    (hother : CommentInside later others cs) : insets = others ∧ after = later := by
  induction h generalizing others with
  | done =>
    generalize hcs : commentEnd ++ after = cs at hother
    cases hother with
    | done => exact ⟨rfl, List.append_cancel_left hcs⟩
    | skipped hend => exact absurd (hcs ▸ List.prefix_append commentEnd after) hend
    | block => simp [commentEnd, blockStart] at hcs
  | @skipped c insets rest hend hblock _ ih =>
    generalize hcs : c :: rest = cs at hother
    cases hother with
    | done => exact absurd (hcs ▸ List.prefix_append commentEnd later) hend
    | skipped _ _ hrest =>
      cases hcs
      obtain ⟨rfl, rfl⟩ := ih hrest
      exact ⟨rfl, rfl⟩
    | block hopens =>
      rw [hcs, hopens] at hblock
      cases hblock
  | @block body insets rest hopens hbody _ _ ih =>
    generalize hcs : blockStart ++ (body ++ ')' :: rest) = cs at hother
    cases hother with
    | done => simp [commentEnd, blockStart] at hcs
    | skipped _ hblock =>
      rw [← hcs, hopens] at hblock
      cases hblock
    | block _ hbody' _ hrest =>
      obtain ⟨rfl, rfl⟩ := hbody.eq_of_append_close hbody' (List.append_cancel_left hcs)
      obtain ⟨rfl, rfl⟩ := ih hrest
      exact ⟨rfl, rfl⟩

/-- The inside of a fence does not reach beyond the first closing mark. -/
theorem FenceInside.eq_nil_of_append {inner extra rest more : List Char}
    (h : FenceInside (inner ++ extra)) (heq : fenceMark ++ rest = extra ++ (fenceMark ++ more)) :
    extra = [] := by
  apply Classical.byContradiction
  intro hsome
  have hmark : fenceMark <+: extra ++ fenceMark ++ more := by
    rw [List.append_assoc, ← heq]
    exact List.prefix_append _ _
  have hlength : fenceMark.length ≤ (extra ++ fenceMark).length := by
    rw [List.length_append]
    omega
  exact h inner extra rfl hsome (List.prefix_of_prefix_length_le hmark (List.prefix_append _ _) hlength)

theorem FenceInside.eq_of_append {inner other rest more : List Char} (h : FenceInside inner)
    (hother : FenceInside other)
    (heq : inner ++ (fenceMark ++ rest) = other ++ (fenceMark ++ more)) :
    inner = other ∧ rest = more := by
  rcases List.append_eq_append_iff.1 heq with ⟨extra, rfl, hextra⟩ | ⟨extra, rfl, hextra⟩
  · obtain rfl := hother.eq_nil_of_append hextra
    exact ⟨(List.append_nil _).symm, List.append_cancel_left hextra⟩
  · obtain rfl := h.eq_nil_of_append hextra
    exact ⟨List.append_nil _, (List.append_cancel_left hextra).symm⟩

/-- The inside of a span reaches up to the first backtick. -/
theorem eq_of_append_tick {inner other rest more : List Char} (h : '`' ∉ inner) (hother : '`' ∉ other)
    (heq : inner ++ '`' :: rest = other ++ '`' :: more) : inner = other ∧ rest = more := by
  rcases List.append_eq_append_iff.1 heq with ⟨extra, rfl, hextra⟩ | ⟨extra, rfl, hextra⟩
  · cases extra with
    | nil => exact ⟨(List.append_nil _).symm, (List.cons.inj hextra).2⟩
    | cons c extra =>
      obtain rfl := (List.cons.inj hextra).1
      exact absurd (List.mem_append_right _ List.mem_cons_self) hother
  · cases extra with
    | nil => exact ⟨List.append_nil _, (List.cons.inj hextra).2.symm⟩
    | cons c extra =>
      obtain rfl := (List.cons.inj hextra).1
      exact absurd (List.mem_append_right _ List.mem_cons_self) h

/-- **There is one way to cut a text.** -/
theorem Segmented.unique {segments others : List Segment} {cs : List Char}
    (h : Segmented segments cs) (hother : Segmented others cs) : segments = others := by
  induction h generalizing others with
  | nil =>
    generalize hcs : ([] : List Char) = cs at hother
    cases hother with
    | nil => rfl
    | fence | span | comment | char => simp [fenceMark, commentStart] at hcs
  | @fence inner segments rest hinner _ ih =>
    generalize hcs : fenceMark ++ (inner ++ fenceMark) ++ rest = cs at hother
    have hmark : fenceMark <+: cs := by
      rw [← hcs, List.append_assoc]
      exact List.prefix_append _ _
    cases hother with
    | nil | comment => simp [fenceMark, commentStart] at hcs
    | fence hinner' hrest =>
      rw [List.append_assoc, List.append_assoc, List.append_assoc, List.append_assoc] at hcs
      obtain ⟨rfl, rfl⟩ := hinner.eq_of_append hinner' (List.append_cancel_left hcs)
      rw [ih hrest]
    | span _ hnone => exact absurd hmark hnone
    | char hc => exact absurd (List.cons.inj hcs).1.symm hc
  | @span inner segments rest hinner hmark _ ih =>
    generalize hcs : '`' :: (inner ++ ['`']) ++ rest = cs at hother
    cases hother with
    | nil | comment => simp [commentStart] at hcs
    | fence =>
      rw [hcs, List.append_assoc] at hmark
      exact absurd (List.prefix_append _ _) hmark
    | @span inner' _ rest' hinner' _ hrest =>
      have htail : inner ++ '`' :: rest = inner' ++ '`' :: rest' := by simpa using hcs
      obtain ⟨rfl, rfl⟩ := eq_of_append_tick (fun hmem => (hinner _ hmem).1 rfl)
        (fun hmem => (hinner' _ hmem).1 rfl) htail
      rw [ih hrest]
    | char hc => exact absurd (List.cons.inj hcs).1.symm hc
  | @comment insets segments inside after hinside _ ih =>
    generalize hcs : commentStart ++ inside = cs at hother
    cases hother with
    | nil | fence | span => simp [fenceMark, commentStart] at hcs
    | comment hinside' hrest =>
      rw [← List.append_cancel_left hcs] at hinside'
      obtain ⟨rfl, rfl⟩ := hinside.unique hinside'
      rw [ih hrest]
    | char _ hstart => exact absurd (hcs ▸ List.prefix_append _ _) hstart
  | @char c segments rest hc hstart _ ih =>
    generalize hcs : c :: rest = cs at hother
    cases hother with
    | nil => cases hcs
    | fence | span => exact absurd (List.cons.inj hcs).1 hc
    | comment =>
      rw [hcs] at hstart
      exact absurd (List.prefix_append _ _) hstart
    | char _ _ hrest =>
      cases hcs
      rw [ih hrest]

end Source
end Bindery
