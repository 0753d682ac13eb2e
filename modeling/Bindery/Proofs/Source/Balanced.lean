import Bindery.Proofs.Displacement.Part

/-!
# `Proofs.Source.Balanced` — text whose parentheses pair up

Both scanners that look for the extent of a block go by parentheses alone. A text is balanced if its parentheses pair
up, not counting characters behind a backslash, and no group in it opens a block. Inside of parentheses, both scanners
pass over balanced text and are then where they were before.

## Contents
- `startsWith_eq`, `opensBlock_eq_opensAt`: what comes next, told by characters alone.
- `Balanced`, `Balanced.append`.
- `checkDirectives_balanced`, `checkDirectives_group`: a file of directives.
- `endsUnescaped`, `readBlock_balanced`, `readBlock_whole`: a block inside a comment.
-/

namespace Bindery
namespace Source

open Text

/-! ## Characters of glyphs -/

theorem charsOf_eq_cons {gs : List Glyph} {c : Char} {cs : List Char} (h : charsOf gs = c :: cs) :
    ∃ g rest, gs = g :: rest ∧ g.char = c ∧ charsOf rest = cs := by
  obtain ⟨g, rest, hgs, hg, hrest⟩ := List.map_eq_cons_iff.1 h
  exact ⟨g, rest, hgs, hg, hrest⟩

theorem charsOf_eq_append {gs : List Glyph} {first second : List Char}
    (h : charsOf gs = first ++ second) :
    ∃ before after, gs = before ++ after ∧ charsOf before = first ∧ charsOf after = second :=
  List.map_eq_append_iff.1 h

@[simp] theorem charsOf_append (gs hs : List Glyph) :
    charsOf (gs ++ hs) = charsOf gs ++ charsOf hs := List.map_append

@[simp] theorem charsOf_cons (g : Glyph) (gs : List Glyph) :
    charsOf (g :: gs) = g.char :: charsOf gs := rfl

theorem startsWith_eq (word : List Char) (gs : List Glyph) :
    startsWith word gs = word.isPrefixOf (charsOf gs) := by
  fun_induction startsWith word gs with
  | case1 gs => simp
  | case2 c word => rfl
  | case3 c word g rest ih => rw [charsOf_cons, List.isPrefixOf_cons_cons, ih, BEq.comm]

/-- Whether the opener of a block comes next. -/
def opensAt (cs : List Char) : Bool :=
  ['(', 'd', 'l'].isPrefixOf cs && (cs.drop 3).head?.all fun c => isBlank c || c == ')'

theorem opensBlock_eq_opensAt (gs : List Glyph) : opensBlock gs = opensAt (charsOf gs) := by
  rw [opensBlock_eq, startsWith_eq, opensAt, charsOf, ← List.map_drop, List.head?_map,
    Option.all_map]

/-- Whether a group opens a block is seen up to its closing parenthesis. -/
theorem opensAt_group (inner rest : List Char) :
    opensAt ('(' :: (inner ++ ')' :: rest)) = opensAt ('(' :: (inner ++ [')'])) := by
  -- what the opener is told by lies before the closing parenthesis, wherever that stands
  match inner with
  | [] => simp [opensAt, List.isPrefixOf_cons_cons]
  | [_] => simp [opensAt, List.isPrefixOf_cons_cons]
  | [_, _] => simp [opensAt, List.isPrefixOf_cons_cons]
  | _ :: _ :: _ :: _ => simp [opensAt, List.isPrefixOf_cons_cons]

theorem charsOf_eq_group {gs : List Glyph} {cs rest : List Char}
    (h : charsOf gs = '(' :: (cs ++ ')' :: rest)) :
    ∃ g inner close after, gs = g :: (inner ++ close :: after) ∧ g.char = '(' ∧
      charsOf inner = cs ∧ close.char = ')' ∧ charsOf after = rest := by
  obtain ⟨g, more, rfl, hg, hmore⟩ := charsOf_eq_cons h
  obtain ⟨inner, more', rfl, hinner, hmore'⟩ := charsOf_eq_append hmore
  obtain ⟨close, after, rfl, hclose, hafter⟩ := charsOf_eq_cons hmore'
  exact ⟨g, inner, close, after, rfl, hg, hinner, hclose, hafter⟩

theorem opensBlock_group {g close : Glyph} {inner : List Glyph} {cs : List Char}
    (hg : g.char = '(') (hinner : charsOf inner = cs) (hclose : close.char = ')')
    (hblock : opensAt ('(' :: (cs ++ [')'])) = false) (rest : List Glyph) :
    opensBlock (g :: (inner ++ close :: rest)) = false := by
  rw [opensBlock_eq_opensAt, charsOf_cons, hg, charsOf_append, hinner, charsOf_cons, hclose,
    opensAt_group, hblock]

/-- A blank is no parenthesis and no backslash. -/
theorem plain_of_isBlank {c : Char} (h : isBlank c = true) : c ≠ '(' ∧ c ≠ ')' ∧ c ≠ '\\' := by
  refine ⟨?_, ?_, ?_⟩ <;> (rintro rfl; exact absurd h (by decide))

/-! ## Balanced text -/

/-- Parentheses pair up, a backslash takes the next character for itself, and no group opens a block. -/
inductive Balanced : List Char → Prop where
  | nil : Balanced []
  | plain {c : Char} {rest : List Char} (hopen : c ≠ '(') (hclose : c ≠ ')') (hescape : c ≠ '\\')
      (hrest : Balanced rest) : Balanced (c :: rest)
  | escape {rest : List Char} (taken : Char) (hrest : Balanced rest) :
      Balanced ('\\' :: taken :: rest)
  | group {inner rest : List Char} (hblock : opensAt ('(' :: (inner ++ [')'])) = false)
      (hinner : Balanced inner) (hrest : Balanced rest) : Balanced ('(' :: (inner ++ ')' :: rest))

theorem Balanced.append {cs more : List Char} (h : Balanced cs) (hmore : Balanced more) :
    Balanced (cs ++ more) := by
  induction h with
  | nil => exact hmore
  | plain hopen hclose hescape _ ih => exact .plain hopen hclose hescape ih
  | escape taken _ ih => exact .escape taken ih
  | group hblock hinner _ _ ih =>
    rw [List.cons_append, List.append_assoc]
    exact .group hblock hinner ih

theorem Balanced.singleton {c : Char} (h : c ≠ '(' ∧ c ≠ ')' ∧ c ≠ '\\') : Balanced [c] :=
  .plain h.1 h.2.1 h.2.2 .nil

/-- Text without parentheses and backslashes is balanced. -/
theorem Balanced.of_plain {cs : List Char} (h : ∀ c ∈ cs, c ≠ '(' ∧ c ≠ ')' ∧ c ≠ '\\') :
    Balanced cs := by
  induction cs with
  | nil => exact .nil
  | cons c rest ih =>
    obtain ⟨hopen, hclose, hescape⟩ := h c List.mem_cons_self
    exact .plain hopen hclose hescape (ih fun d hd => h d (List.mem_cons_of_mem c hd))

/-! ## A file of directives -/

/-- A group that opens no block adds its parenthesis to those that are open. -/
theorem checkDirectives_open {g : Glyph} (hg : g.char = '(') {rest : List Glyph}
    (hblock : opensBlock (g :: rest) = false) (path : String) (opens : List Location) :
    checkDirectives path opens (g :: rest) = checkDirectives path (g.location :: opens) rest := by
  rw [checkDirectives_cons, if_neg (by simp [hg]), if_pos hg, hblock]
  rfl

theorem checkDirectives_close {g : Glyph} (hg : g.char = ')') (path : String) (innermost : Location)
    (outer : List Location) (rest : List Glyph) :
    checkDirectives path (innermost :: outer) (g :: rest) = checkDirectives path outer rest := by
  rw [checkDirectives_cons, if_neg (by simp [hg]), if_neg (by simp [hg]), if_pos hg]

/-- Inside of parentheses, balanced text is passed over. -/
theorem checkDirectives_balanced {cs : List Char} (h : Balanced cs) {gs : List Glyph}
    (hgs : charsOf gs = cs) (path : String) {opens : List Location} (hopens : opens ≠ [])
    (rest : List Glyph) :
    checkDirectives path opens (gs ++ rest) = checkDirectives path opens rest := by
  induction h generalizing gs opens rest with
  | nil =>
    rw [List.map_eq_nil_iff.1 hgs]
    rfl
  | plain hopen hclose hescape _ ih =>
    obtain ⟨g, more, rfl, rfl, hmore⟩ := charsOf_eq_cons hgs
    rw [List.cons_append, checkDirectives_cons, if_neg hescape, if_neg hopen, if_neg hclose,
      if_neg (by simp [hopens])]
    exact ih hmore hopens rest
  | escape taken _ ih =>
    obtain ⟨g, more, rfl, hg, hmore⟩ := charsOf_eq_cons hgs
    obtain ⟨g', more', rfl, -, hmore'⟩ := charsOf_eq_cons hmore
    rw [List.cons_append, checkDirectives_cons, if_pos hg]
    exact ih hmore' hopens rest
  | group hblock _ _ ihInner ihAfter =>
    obtain ⟨g, inner, close, after, rfl, hg, hinner, hclose, hafter⟩ := charsOf_eq_group hgs
    have hnot := opensBlock_group hg hinner hclose hblock (after ++ rest)
    rw [List.cons_append, List.append_assoc, List.cons_append, checkDirectives_open hg hnot,
      ihInner hinner (List.cons_ne_nil _ _), checkDirectives_close hclose]
    exact ihAfter hafter hopens rest

/-- A group is passed over wherever it stands. -/
theorem checkDirectives_group {cs : List Char} (h : Balanced cs)
    (hblock : opensAt ('(' :: (cs ++ [')'])) = false) {g close : Glyph} {inner : List Glyph}
    (hg : g.char = '(') (hinner : charsOf inner = cs) (hclose : close.char = ')') (path : String)
    (opens : List Location) (rest : List Glyph) :
    checkDirectives path opens (g :: (inner ++ close :: rest)) = checkDirectives path opens rest := by
  rw [checkDirectives_open hg (opensBlock_group hg hinner hclose hblock rest),
    checkDirectives_balanced h hinner path (List.cons_ne_nil _ _), checkDirectives_close hclose]

/-- Outside of parentheses, blanks are passed over. -/
theorem checkDirectives_blank {gs : List Glyph} (h : ∀ c ∈ charsOf gs, isBlank c = true)
    (path : String) (rest : List Glyph) :
    checkDirectives path [] (gs ++ rest) = checkDirectives path [] rest := by
  induction gs with
  | nil => rfl
  | cons g more ih =>
    obtain ⟨hg, hmore⟩ := List.forall_mem_cons.1 h
    obtain ⟨hopen, hclose, hescape⟩ := plain_of_isBlank hg
    rw [List.cons_append, checkDirectives_cons, if_neg hescape, if_neg hopen, if_neg hclose,
      if_neg (by simp [hg])]
    exact ih hmore

/-! ## A block inside a comment -/

/-- A word without the character that follows a text does not reach beyond the text. -/
theorem prefix_of_prefix_append_cons {word cs rest : List Char} {c : Char} (hc : c ∉ word)
    (h : word <+: cs ++ c :: rest) : word <+: cs := by
  induction cs generalizing word with
  | nil =>
    cases word with
    | nil => exact List.nil_prefix
    | cons d word =>
      obtain ⟨rfl, -⟩ := List.cons_prefix_cons.1 h
      exact absurd List.mem_cons_self hc
  | cons d cs ih =>
    cases word with
    | nil => exact List.nil_prefix
    | cons e word =>
      obtain ⟨rfl, hmore⟩ := List.cons_prefix_cons.1 h
      exact List.cons_prefix_cons.2 ⟨rfl, ih (fun hmem => hc (List.mem_cons_of_mem _ hmem)) hmore⟩

/-- Whether the mark that ends a comment comes up in a text, other than behind a backslash that takes its first character. -/
def endsUnescaped : List Char → Bool
  | [] => false
  | '\\' :: _ :: rest => endsUnescaped rest
  | c :: rest => commentEnd.isPrefixOf (c :: rest) || endsUnescaped rest

theorem endsUnescaped_plain {c : Char} (hc : c ≠ '\\') (rest : List Char) :
    endsUnescaped (c :: rest) = (commentEnd.isPrefixOf (c :: rest) || endsUnescaped rest) :=
  endsUnescaped.eq_3 c rest fun _ _ heq _ => hc heq

theorem endsUnescaped_of_plain {c : Char} (hc : c ≠ '\\') {rest : List Char}
    (h : endsUnescaped (c :: rest) = false) : endsUnescaped rest = false := by
  rw [endsUnescaped_plain hc, Bool.or_eq_false_iff] at h
  exact h.2

/-- At its first character, a text in which the mark does not come up does not begin with it. -/
theorem not_commentEnd_prefix {cs : List Char} (h : endsUnescaped cs = false) :
    ¬ commentEnd <+: cs := by
  intro hmark
  cases cs with
  | nil => simp [commentEnd] at hmark
  | cons c rest =>
    have hc : c ≠ '\\' := by
      rintro rfl
      simp [commentEnd] at hmark
    rw [endsUnescaped_plain hc, List.isPrefixOf_iff_prefix.2 hmark] at h
    cases h

/-- A text without the mark has it in no other place either. -/
theorem endsUnescaped_of_not_infix {cs : List Char} (h : ¬ commentEnd <:+: cs) :
    endsUnescaped cs = false := by
  fun_induction endsUnescaped cs with
  | case1 => rfl
  | case2 taken rest ih =>
    refine ih fun hinfix => h ?_
    exact hinfix.trans ⟨['\\', taken], [], by simp⟩
  | case3 c rest hescape ih =>
    rw [List.infix_cons_iff, not_or] at h
    rw [Bool.or_eq_false_iff, Bool.eq_false_iff, ne_eq, List.isPrefixOf_iff_prefix]
    exact ⟨h.1, ih h.2⟩

/-- Behind balanced text, a backslash takes what it would take without that text. -/
theorem Balanced.endsUnescaped_of_append {cs : List Char} (h : Balanced cs) {rest : List Char}
    (hend : endsUnescaped (cs ++ rest) = false) : endsUnescaped rest = false := by
  induction h generalizing rest with
  | nil => exact hend
  | plain _ _ hescape _ ih => exact ih (endsUnescaped_of_plain hescape hend)
  | escape taken _ ih => exact ih hend
  | @group inner later _ _ _ ihInner ihLater =>
    rw [List.cons_append, List.append_assoc] at hend
    have hclose := ihInner (endsUnescaped_of_plain (by decide) hend)
    exact ihLater (endsUnescaped_of_plain (by decide) hclose)

theorem endsUnescaped_of_append {cs rest : List Char} (hend : endsUnescaped (cs ++ rest) = false) :
    endsUnescaped cs = false := by
  fun_induction endsUnescaped cs with
  | case1 => rfl
  | case2 taken more ih => exact ih hend
  | case3 c more hescape ih =>
    have hmark : ¬ commentEnd <+: c :: more := fun hstart =>
      not_commentEnd_prefix hend (hstart.trans (List.prefix_append _ _))
    rw [Bool.or_eq_false_iff, Bool.eq_false_iff, ne_eq, List.isPrefixOf_iff_prefix]
    refine ⟨hmark, ?_⟩
    by_cases hc : c = '\\'
    · -- a backslash that nothing follows in the text itself
      cases more with
      | nil => rfl
      | cons taken more => exact absurd rfl (hescape taken more hc)
    · exact ih (endsUnescaped_of_plain hc hend)

/-- The mark does not come up before the closing parenthesis that follows a text without it. -/
theorem startsWith_commentEnd_eq_false {gs : List Glyph} (h : endsUnescaped (charsOf gs) = false)
    {close : Glyph} (hclose : close.char = ')') (rest : List Glyph) :
    startsWith commentEnd (gs ++ close :: rest) = false := by
  rw [startsWith_eq, charsOf_append, charsOf_cons, hclose, Bool.eq_false_iff]
  intro hmark
  have hstart := prefix_of_prefix_append_cons (by decide) (List.isPrefixOf_iff_prefix.1 hmark)
  exact not_commentEnd_prefix h hstart

theorem map_prepend_prepend (first second : List Glyph)
    (read : Except Fault (List Glyph × List Glyph)) :
    (read.map (prepend second)).map (prepend first) = read.map (prepend (first ++ second)) := by
  cases read with
  | error fault => rfl
  | ok found => exact congrArg (fun gs => Except.ok (gs, found.2)) (List.append_assoc ..).symm

theorem readBlock_open {g : Glyph} (hg : g.char = '(') {rest : List Glyph}
    (hmark : startsWith commentEnd (g :: rest) = false) (hblock : opensBlock (g :: rest) = false)
    (opener : Location) (opens : List Location) :
    readBlock opener opens (g :: rest) =
      (readBlock opener (g.location :: opens) rest).map (prepend [g]) := by
  rw [readBlock_cons, hmark, if_neg Bool.false_ne_true, if_neg (by simp [hg]), if_pos hg, hblock]
  rfl

theorem readBlock_close {g : Glyph} (hg : g.char = ')') {rest : List Glyph}
    (hmark : startsWith commentEnd (g :: rest) = false) (opener innermost : Location)
    (outer : List Location) :
    readBlock opener (innermost :: outer) (g :: rest) =
      (readBlock opener outer rest).map (prepend [g]) := by
  rw [readBlock_cons, hmark, if_neg Bool.false_ne_true, if_neg (by simp [hg]),
    if_neg (by simp [hg]), if_pos hg]

/-- Balanced text that the comment does not end in belongs to the block as a whole, if a closing parenthesis follows. -/
theorem readBlock_balanced {cs : List Char} (h : Balanced cs) (hend : endsUnescaped cs = false)
    {gs : List Glyph} (hgs : charsOf gs = cs) {close : Glyph} (hclose : close.char = ')')
    (opener : Location) (opens : List Location) (rest : List Glyph) :
    readBlock opener opens (gs ++ close :: rest) =
      (readBlock opener opens (close :: rest)).map (prepend gs) := by
  induction h generalizing gs opens close rest with
  | nil =>
    rw [List.map_eq_nil_iff.1 hgs, List.nil_append]
    cases readBlock opener opens (close :: rest) <;> rfl
  | plain hopen hparen hescape _ ih =>
    have hmark := startsWith_commentEnd_eq_false (hgs ▸ hend) hclose rest
    obtain ⟨g, more, rfl, rfl, hmore⟩ := charsOf_eq_cons hgs
    rw [List.cons_append, readBlock_cons, ← List.cons_append, hmark, if_neg Bool.false_ne_true,
      if_neg hescape, if_neg hopen, if_neg hparen,
      ih (endsUnescaped_of_plain hescape hend) hmore hclose, map_prepend_prepend]
    rfl
  | escape taken _ ih =>
    have hmark := startsWith_commentEnd_eq_false (hgs ▸ hend) hclose rest
    obtain ⟨g, more, rfl, hg, hmore⟩ := charsOf_eq_cons hgs
    obtain ⟨g', more', rfl, rfl, hmore'⟩ := charsOf_eq_cons hmore
    rw [List.cons_append, readBlock_cons, ← List.cons_append, hmark, if_neg Bool.false_ne_true,
      if_pos hg]
    show (readBlock opener opens (more' ++ close :: rest)).map (prepend [g, g']) = _
    rw [ih hend hmore' hclose, map_prepend_prepend]
    rfl
  | @group body later hblock hbody _ ihInner ihAfter =>
    have hmark := startsWith_commentEnd_eq_false (hgs ▸ hend) hclose rest
    obtain ⟨g, inner, middle, after, rfl, hg, hinner, hmiddle, hafter⟩ := charsOf_eq_group hgs
    have hnot := opensBlock_group hg hinner hmiddle hblock (after ++ close :: rest)
    have hinside := endsUnescaped_of_plain (by decide) hend
    have hbeyond := endsUnescaped_of_plain (by decide) (hbody.endsUnescaped_of_append hinside)
    -- the mark is looked for at the closing parenthesis of the group as well
    have hmark' : startsWith commentEnd (middle :: (after ++ close :: rest)) = false :=
      @startsWith_commentEnd_eq_false [] rfl middle hmiddle _
    rw [List.cons_append, List.append_assoc, List.cons_append] at hmark ⊢
    rw [readBlock_open hg hmark hnot, ihInner (endsUnescaped_of_append hinside) hinner hmiddle,
      readBlock_close hmiddle hmark', ihAfter hbeyond hafter hclose, map_prepend_prepend,
      map_prepend_prepend, map_prepend_prepend]
    simp

/-- Balanced text is the inside of a block, up to the closing parenthesis that is left over. -/
theorem readBlock_whole {gs : List Glyph} (h : Balanced (charsOf gs))
    (hend : endsUnescaped (charsOf gs) = false) {close : Glyph} (hclose : close.char = ')')
    (opener : Location) (rest : List Glyph) :
    readBlock opener [] (gs ++ close :: rest) = .ok (gs, rest) := by
  have hlast : readBlock opener [] (close :: rest) = .ok ([], rest) := by
    rw [readBlock_cons, if_neg (by simp [startsWith, commentEnd, hclose]), if_neg (by simp [hclose]),
      if_neg (by simp [hclose]), if_pos hclose]
  rw [readBlock_balanced h hend rfl hclose, hlast]
  simp [Except.map, prepend]

/-- What does not end the comment and opens no block is skipped. -/
theorem readComment_skip {g : Glyph} {rest : List Glyph}
    (hmark : startsWith commentEnd (g :: rest) = false) (hblock : opensBlock (g :: rest) = false)
    (opener : Location) : readComment opener (g :: rest) = readComment opener rest := by
  rw [readComment_cons, hmark, hblock]
  rfl

/-- The rest of a comment that holds nothing but one block. -/
theorem readComment_block {body : List Char} (h : Balanced body)
    (hblank : ∀ c ∈ body.head?, isBlank c = true) (hend : ¬ commentEnd <:+: body)
    (opener start : Location) :
    ∃ place, readComment opener
        (glyphs start (' ' :: '(' :: 'd' :: 'l' :: (body ++ [')', ' ', '-', '-', '>']))) =
      .ok ([.block place (glyphs place body)], []) := by
  have hopens : opensAt ('(' :: 'd' :: 'l' :: (body ++ [')', ' ', '-', '-', '>'])) = true := by
    cases body with
    | nil => decide
    | cons c rest => simp [opensAt, hblank c rfl]
  let first := start.advance ' '
  let place := first.advanceOver ['(', 'd', 'l']
  let later := (place.advanceOver body).advance ')'
  refine ⟨place, ?_⟩
  have hbody : readBlock first [] (glyphs place (body ++ [')', ' ', '-', '-', '>'])) =
      .ok (glyphs place body, glyphs later [' ', '-', '-', '>']) := by
    rw [glyphs_append, glyphs]
    refine readBlock_whole ?_ ?_ rfl first _
    · rwa [charsOf_glyphs]
    · rw [charsOf_glyphs, endsUnescaped_of_not_infix hend]
  have hclosed : readComment opener (glyphs later [' ', '-', '-', '>']) = .ok ([], []) := by
    rw [glyphs, readComment_skip (by simp [startsWith, commentEnd, glyphs]) rfl, glyphs,
      readComment_cons, if_pos (by simp [startsWith, commentEnd, glyphs])]
    rfl
  have hopened : opensBlock (glyphs first ('(' :: 'd' :: 'l' :: (body ++ [')', ' ', '-', '-', '>']))) =
      true := by
    rw [opensBlock_eq_opensAt, charsOf_glyphs, hopens]
  rw [glyphs, readComment_skip (by simp [startsWith, commentEnd]) rfl]
  rw [glyphs] at hopened ⊢
  rw [readComment_cons, if_neg (by simp [startsWith, commentEnd]), if_pos hopened]
  show (readBlock first [] (glyphs place (body ++ [')', ' ', '-', '-', '>']))).bind _ = _
  rw [hbody]
  show (readComment opener (glyphs later [' ', '-', '-', '>'])).map _ = _
  rw [hclosed]
  rfl

/-- A text that is one comment with one block in it gives that block. -/
theorem splitMarkdown_comment {body : List Char} (h : Balanced body)
    (hblank : ∀ c ∈ body.head?, isBlank c = true) (hend : ¬ commentEnd <:+: body)
    (start : Location) :
    ∃ place, splitMarkdown start
        ('<' :: '!' :: '-' :: '-' :: ' ' :: '(' :: 'd' :: 'l' :: (body ++ [')', ' ', '-', '-', '>'])) =
      .ok [.block (String.ofList body) place] := by
  let inside := start.advanceOver ['<', '!', '-', '-']
  obtain ⟨place, hcomment⟩ := readComment_block h hblank hend start inside
  refine ⟨place, ?_⟩
  have hpieces : pieces (glyphs start
      ('<' :: '!' :: '-' :: '-' :: ' ' :: '(' :: 'd' :: 'l' :: (body ++ [')', ' ', '-', '-', '>']))) =
      .ok [.block place (glyphs place body)] := by
    rw [glyphs, pieces_cons, if_neg (by simp [startsWith, fenceMark]), if_neg (by simp),
      if_pos (by simp [startsWith, commentStart, glyphs])]
    show (readComment start (glyphs inside (' ' :: '(' :: 'd' :: 'l' ::
      (body ++ [')', ' ', '-', '-', '>'])))).bind _ = _
    rw [hcomment]
    show (pieces []).map _ = _
    rw [pieces]
    rfl
  rw [splitMarkdown, hpieces]
  simp [Except.map, merge, Piece.toPart?, textOf]

end Source
end Bindery
