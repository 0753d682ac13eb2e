import Bindery.Proofs.Displacement.Block
import Bindery.Source.Part

/-!
# `Proofs.Displacement.Part` — prose and blocks of a displaced document

A document at another depth or index, with its path unchanged, splits into the same parts, moved.

## Contents
- `readComment_cons`, `pieces_cons`: one step of the Markdown scanners.
- `Piece.displace`, `Part.displace`, and one lemma for each function of `Source.Part`.
- `splitText_displace`.
-/

namespace Bindery
namespace Source

open Text

/-! ## Fences and spans -/

/-- A fence closes at the same glyph wherever it is. -/
theorem closeFence_displace (d : Displacement) (gs : List Glyph) :
    closeFence (displaceGlyphs d gs) = (closeFence gs).map (displaceRead d) := by
  induction gs with
  | nil => rfl
  | cons g rest ih =>
    rw [displaceGlyphs_cons, closeFence, closeFence, startsWith_displace_cons]
    by_cases hmark : startsWith fenceMark (g :: rest) = true
    · rw [if_pos hmark, if_pos hmark, ← displaceGlyphs_take, ← displaceGlyphs_drop]
      rfl
    · rw [if_neg hmark, if_neg hmark, ih, Option.map_map, Option.map_map]
      exact congrArg (Option.map · (closeFence rest)) (funext (prepend_displace d [g]))

theorem closeSpan_displace (d : Displacement) (gs : List Glyph) :
    closeSpan (displaceGlyphs d gs) = (closeSpan gs).map (displaceRead d) := by
  induction gs with
  | nil => rfl
  | cons g rest ih =>
    rw [displaceGlyphs_cons, closeSpan, closeSpan, Glyph.char_displace]
    by_cases hend : g.char = '`'
    · rw [if_pos hend, if_pos hend]
      rfl
    · rw [if_neg hend, if_neg hend]
      by_cases hline : g.char = '\n'
      · rw [if_pos hline, if_pos hline]
        rfl
      · rw [if_neg hline, if_neg hline, ih, Option.map_map, Option.map_map]
        exact congrArg (Option.map · (closeSpan rest)) (funext (prepend_displace d [g]))

/-! ## Pieces -/

/-- A piece at its moved location. -/
def Piece.displace (d : Displacement) : Piece → Piece
  | .prose body => .prose (displaceGlyphs d body)
  | .block start body => .block (d.move start) (displaceGlyphs d body)

/-- The blocks of a comment and what follows it, moved. -/
def displaceComment (d : Displacement) (read : List Piece × List Glyph) : List Piece × List Glyph :=
  (read.1.map (Piece.displace d), displaceGlyphs d read.2)

/-- A comment is read glyph by glyph, and block by block. -/
theorem readComment_cons (opener : Location) (g : Glyph) (rest : List Glyph) :
    readComment opener (g :: rest) =
      if startsWith commentEnd (g :: rest) then .ok ([], rest.drop 2)
      else if opensBlock (g :: rest) then
        (readBlock g.location [] (rest.drop 2)).bind fun block =>
          (readComment opener block.2).map fun read =>
            (.block (g.location.advanceOver ['(', 'd', 'l']) block.1 :: read.1, read.2)
      else readComment opener rest := by
  rw [readComment]
  split
  · rfl
  · split
    · split
      · next hblock => rw [hblock]; rfl
      · next hblock => rw [hblock]; rfl
    · rfl

/-- The blocks of a moved comment are those of the comment, moved; where each starts is counted from its opener, so
that moving has to keep step. -/
theorem readComment_displace {d : Displacement} (hd : d.KeepsStep) (opener : Location)
    (gs : List Glyph) :
    readComment (d.move opener) (displaceGlyphs d gs) =
      displaceResult d (displaceComment d) (readComment opener gs) := by
  fun_induction readComment opener gs with
  | case1 => rw [displaceGlyphs_nil, readComment]; rfl
  | case2 g rest hend =>
    rw [displaceGlyphs_cons, readComment_cons, startsWith_displace_cons, if_pos hend,
      ← displaceGlyphs_drop]
    rfl
  | case3 g rest hend hopen fault hblock =>
    have hmoved := readBlock_displace d g.location [] (rest.drop 2)
    rw [hblock, List.map_nil, displaceGlyphs_drop] at hmoved
    rw [displaceGlyphs_cons, readComment_cons, startsWith_displace_cons, if_neg hend,
      opensBlock_displace_cons, if_pos hopen, Glyph.location_displace, hmoved]
    rfl
  | case4 g rest hend hopen body after hblock ih =>
    have hmoved := readBlock_displace d g.location [] (rest.drop 2)
    rw [hblock, List.map_nil, displaceGlyphs_drop] at hmoved
    rw [displaceGlyphs_cons, readComment_cons, startsWith_displace_cons, if_neg hend,
      opensBlock_displace_cons, if_pos hopen, Glyph.location_displace, hmoved]
    show Except.map _ (readComment (d.move opener) (displaceGlyphs d after)) = _
    rw [ih, ← hd.move_advanceOver]
    refine displaceResult_map (fun read => ?_) _
    rfl
  | case5 g rest hend hopen ih =>
    rw [displaceGlyphs_cons, readComment_cons, startsWith_displace_cons, if_neg hend,
      opensBlock_displace_cons, if_neg hopen, ih]

/-- A Markdown text is cut construct by construct, and elsewhere glyph by glyph. -/
theorem pieces_cons (g : Glyph) (rest : List Glyph) :
    pieces (g :: rest) =
      if startsWith fenceMark (g :: rest) then
        match closeFence (rest.drop 2) with
        | none => .error ⟨.fenceOpen, g.location⟩
        | some fence => (pieces fence.2).map (.prose (g :: rest.take 2 ++ fence.1) :: ·)
      else if g.char = '`' then
        match closeSpan rest with
        | none => .error ⟨.spanOpen, g.location⟩
        | some span => (pieces span.2).map (.prose (g :: span.1) :: ·)
      else if startsWith commentStart (g :: rest) then
        (readComment g.location (rest.drop 3)).bind fun comment =>
          (pieces comment.2).map (comment.1 ++ ·)
      else (pieces rest).map (.prose [g] :: ·) := by
  rw [pieces]
  split
  · split
    · next hfence => rw [hfence]
    · next hfence => rw [hfence]
  · split
    · split
      · next hspan => rw [hspan]
      · next hspan => rw [hspan]
    · split
      · split
        · next hcomment => rw [hcomment]; rfl
        · next hcomment => rw [hcomment]; rfl
      · rfl

/-- A moved text is cut at the same glyphs. -/
theorem pieces_displace {d : Displacement} (hd : d.KeepsStep) (gs : List Glyph) :
    pieces (displaceGlyphs d gs) = displaceResult d (List.map (Piece.displace d)) (pieces gs) := by
  fun_induction pieces gs with
  | case1 => rw [displaceGlyphs_nil, pieces]; rfl
  | case2 g rest hmark hfence =>
    have hmoved := closeFence_displace d (rest.drop 2)
    rw [hfence, displaceGlyphs_drop] at hmoved
    rw [displaceGlyphs_cons, pieces_cons, startsWith_displace_cons, if_pos hmark, hmoved]
    rfl
  | case3 g rest hmark body after hfence ih =>
    have hmoved := closeFence_displace d (rest.drop 2)
    rw [hfence, displaceGlyphs_drop] at hmoved
    rw [displaceGlyphs_cons, pieces_cons, startsWith_displace_cons, if_pos hmark, hmoved]
    show Except.map _ (pieces (displaceGlyphs d after)) = _
    rw [ih, ← displaceGlyphs_take]
    refine displaceResult_map (fun found => ?_) _
    simp [Piece.displace, displaceRead]
  | case4 g rest hmark htick hspan =>
    have hmoved := closeSpan_displace d rest
    rw [hspan] at hmoved
    rw [displaceGlyphs_cons, pieces_cons, startsWith_displace_cons, if_neg hmark,
      Glyph.char_displace, if_pos htick, hmoved]
    rfl
  | case5 g rest hmark htick body after hspan ih =>
    have hmoved := closeSpan_displace d rest
    rw [hspan] at hmoved
    rw [displaceGlyphs_cons, pieces_cons, startsWith_displace_cons, if_neg hmark,
      Glyph.char_displace, if_pos htick, hmoved]
    show Except.map _ (pieces (displaceGlyphs d after)) = _
    rw [ih]
    refine displaceResult_map (fun found => ?_) _
    rfl
  | case6 g rest hmark htick hstart fault hcomment =>
    have hmoved := readComment_displace hd g.location (rest.drop 3)
    rw [hcomment, displaceGlyphs_drop] at hmoved
    rw [displaceGlyphs_cons, pieces_cons, startsWith_displace_cons, if_neg hmark,
      Glyph.char_displace, if_neg htick, startsWith_displace_cons, if_pos hstart,
      Glyph.location_displace, hmoved]
    rfl
  | case7 g rest hmark htick hstart blocks after hcomment ih =>
    have hmoved := readComment_displace hd g.location (rest.drop 3)
    rw [hcomment, displaceGlyphs_drop] at hmoved
    rw [displaceGlyphs_cons, pieces_cons, startsWith_displace_cons, if_neg hmark,
      Glyph.char_displace, if_neg htick, startsWith_displace_cons, if_pos hstart,
      Glyph.location_displace, hmoved]
    show Except.map _ (pieces (displaceGlyphs d after)) = _
    rw [ih]
    refine displaceResult_map (fun found => ?_) _
    exact List.map_append.symm
  | case8 g rest hmark htick hstart ih =>
    rw [displaceGlyphs_cons, pieces_cons, startsWith_displace_cons, if_neg hmark,
      Glyph.char_displace, if_neg htick, startsWith_displace_cons, if_neg hstart, ih]
    refine displaceResult_map (fun found => ?_) _
    rfl

theorem merge_displace (d : Displacement) (found : List Piece) :
    merge (found.map (Piece.displace d)) = (merge found).map (Piece.displace d) := by
  induction found with
  | nil => rfl
  | cons piece rest ih =>
    cases piece with
    | block start body => simp only [List.map_cons, Piece.displace, merge, ih]
    | prose body =>
      simp only [List.map_cons, Piece.displace, merge, ih]
      match merge rest with
      | [] => rfl
      | .prose more :: others => simp [Piece.displace]
      | .block start more :: others => rfl

/-! ## Parts -/

/-- A part at its moved location. -/
def Part.displace (d : Displacement) : Part → Part
  | .prose text location => .prose text (d.move location)
  | .block text location => .block text (d.move location)

theorem Piece.toPart?_displace (d : Displacement) (piece : Piece) :
    (piece.displace d).toPart? = piece.toPart?.map (Part.displace d) := by
  match piece with
  | .prose [] => rfl
  | .prose (g :: rest) =>
    show some (Part.prose (textOf (displaceGlyphs d (g :: rest))) _) = _
    rw [textOf_displace]
    rfl
  | .block start body =>
    show some (Part.block (textOf (displaceGlyphs d body)) _) = _
    rw [textOf_displace]
    rfl

/-- The parts of a Markdown text that starts elsewhere are the parts of the text, moved. -/
theorem splitMarkdown_displace {d : Displacement} (hd : d.KeepsStep) (start : Location)
    (text : List Char) :
    splitMarkdown (d.move start) text =
      displaceResult d (List.map (Part.displace d)) (splitMarkdown start text) := by
  unfold splitMarkdown
  rw [glyphs_displace hd, pieces_displace hd]
  refine displaceResult_map (fun found => ?_) _
  rw [merge_displace, List.filterMap_map, List.map_filterMap]
  exact congrArg (List.filterMap · (merge found)) (funext (Piece.toPart?_displace d))

/-- A file of directives is checked glyph by glyph. -/
theorem checkDirectives_cons (path : String) (opens : List Location) (g : Glyph)
    (rest : List Glyph) :
    checkDirectives path opens (g :: rest) =
      if g.char = '\\' then
        match rest with
        | [] => allClosed opens
        | _ :: rest => checkDirectives path opens rest
      else if g.char = '(' then
        if opensBlock (g :: rest) then .error ⟨.blockNested, g.location⟩
        else checkDirectives path (g.location :: opens) rest
      else if g.char = ')' then
        match opens with
        | [] => .error ⟨.outsideParentheses path, g.location⟩
        | _ :: outer => checkDirectives path outer rest
      else if opens.isEmpty && !isBlank g.char then .error ⟨.outsideParentheses path, g.location⟩
      else checkDirectives path opens rest :=
  checkDirectives.eq_def path opens (g :: rest)

theorem allClosed_displace (d : Displacement) (opens : List Location) :
    allClosed (opens.map d.move) = displaceResult d id (allClosed opens) := by
  cases opens <;> rfl

/-- A file of directives is accepted or not wherever it is said to stand. -/
theorem checkDirectives_displace (d : Displacement) (path : String) (opens : List Location)
    (gs : List Glyph) :
    checkDirectives path (opens.map d.move) (displaceGlyphs d gs) =
      displaceResult d id (checkDirectives path opens gs) := by
  fun_induction checkDirectives path opens gs with
  | case1 opens => exact allClosed_displace d opens
  | case2 opens g hesc =>
    rw [displaceGlyphs_cons, checkDirectives_cons, Glyph.char_displace, if_pos hesc]
    exact allClosed_displace d opens
  | case3 opens g hesc taken rest ih =>
    rw [displaceGlyphs_cons, checkDirectives_cons, Glyph.char_displace, if_pos hesc]
    exact ih
  | case4 opens g rest hesc hopen hblock =>
    rw [displaceGlyphs_cons, checkDirectives_cons, Glyph.char_displace, if_neg hesc,
      if_pos hopen, opensBlock_displace_cons, if_pos hblock]
    rfl
  | case5 opens g rest hesc hopen hblock ih =>
    rw [displaceGlyphs_cons, checkDirectives_cons, Glyph.char_displace, if_neg hesc,
      if_pos hopen, opensBlock_displace_cons, if_neg hblock]
    exact ih
  | case6 g rest hesc hopen hclose =>
    rw [displaceGlyphs_cons, checkDirectives_cons, Glyph.char_displace, if_neg hesc,
      if_neg hopen, if_pos hclose]
    rfl
  | case7 g rest hesc hopen hclose head outer ih =>
    rw [displaceGlyphs_cons, checkDirectives_cons, Glyph.char_displace, if_neg hesc,
      if_neg hopen, if_pos hclose]
    exact ih
  | case8 opens g rest hesc hopen hclose houtside =>
    rw [displaceGlyphs_cons, checkDirectives_cons, Glyph.char_displace, if_neg hesc,
      if_neg hopen, if_neg hclose, List.isEmpty_map, if_pos houtside]
    rfl
  | case9 opens g rest hesc hopen hclose houtside ih =>
    rw [displaceGlyphs_cons, checkDirectives_cons, Glyph.char_displace, if_neg hesc,
      if_neg hopen, if_neg hclose, List.isEmpty_map, if_neg houtside]
    exact ih

/-- Directives split alike wherever their file is said to stand, as long as it is the same file. -/
theorem splitDirectives_displace {d : Displacement} (hd : d.KeepsStep) (start : Location)
    (hpath : (d.move start).document.path = start.document.path) (text : List Char) :
    splitDirectives (d.move start) text =
      displaceResult d (List.map (Part.displace d)) (splitDirectives start text) := by
  unfold splitDirectives
  rw [hpath, glyphs_displace hd, ← List.map_nil (f := d.move), checkDirectives_displace]
  refine displaceResult_map (fun _ => ?_) _
  split <;> rfl

/-- **The parts of a document depend on its depth and index only by the locations they carry.** -/
theorem splitText_displace {document other : Coordinate} (hpath : other.path = document.path)
    (text : List Char) :
    splitText other text =
      displaceResult (.into other) (List.map (Part.displace (.into other)))
        (splitText document text) := by
  have hext : other.extension? = document.extension? := congrArg Path.extension? hpath
  have hmarkdown := splitMarkdown_displace (Displacement.keepsStep_into other) document.start text
  have hdirectives := splitDirectives_displace (Displacement.keepsStep_into other) document.start
    hpath text
  unfold splitText
  rw [hext]
  split
  · exact hmarkdown
  · exact hdirectives

end Source
end Bindery
