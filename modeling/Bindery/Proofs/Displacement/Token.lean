import Bindery.Proofs.Displacement.Part
import Bindery.Source.Token

/-!
# `Proofs.Displacement.Token` — tokens of displaced parts

## Contents
- `blockTokens_cons`: one step of the token reader.
- `Token.displace`; `blockTokens_displace`, `tokenize_displace`.
-/

namespace Bindery
namespace Source

open Text

/-- A remark is skipped glyph by glyph. -/
theorem skipRemark_cons (opener : Location) (depth : Nat) (g : Glyph) (rest : List Glyph) :
    skipRemark opener depth (g :: rest) =
      if g.char = '\\' then
        match rest with
        | [] => .error ⟨.remarkOpen, opener⟩
        | _ :: rest => skipRemark opener depth rest
      else if g.char = '(' then skipRemark opener (depth + 1) rest
      else if g.char = ')' then
        match depth with
        | 0 => .ok rest
        | depth + 1 => skipRemark opener depth rest
      else skipRemark opener depth rest :=
  skipRemark.eq_def opener depth (g :: rest)

/-- A remark ends at the same parenthesis wherever it is. -/
theorem skipRemark_displace (d : Displacement) (opener : Location) (depth : Nat)
    (gs : List Glyph) :
    skipRemark (d.move opener) depth (displaceGlyphs d gs) =
      displaceResult d (displaceGlyphs d) (skipRemark opener depth gs) := by
  fun_induction skipRemark opener depth gs with
  | case1 => rfl
  | case2 depth g hesc =>
    rw [displaceGlyphs_cons, skipRemark_cons, Glyph.char_displace, if_pos hesc]
    rfl
  | case3 depth g hesc taken rest ih =>
    rw [displaceGlyphs_cons, skipRemark_cons, Glyph.char_displace, if_pos hesc]
    exact ih
  | case4 depth g rest hesc hopen ih =>
    rw [displaceGlyphs_cons, skipRemark_cons, Glyph.char_displace, if_neg hesc, if_pos hopen]
    exact ih
  | case5 g rest hesc hopen hclose =>
    rw [displaceGlyphs_cons, skipRemark_cons, Glyph.char_displace, if_neg hesc, if_neg hopen,
      if_pos hclose]
    rfl
  | case6 g rest hesc hopen hclose depth ih =>
    rw [displaceGlyphs_cons, skipRemark_cons, Glyph.char_displace, if_neg hesc, if_neg hopen,
      if_pos hclose]
    exact ih
  | case7 depth g rest hesc hopen hclose ih =>
    rw [displaceGlyphs_cons, skipRemark_cons, Glyph.char_displace, if_neg hesc, if_neg hopen,
      if_neg hclose]
    exact ih

/-- A parameter is read glyph by glyph. -/
theorem readParameter_cons (g : Glyph) (rest : List Glyph) :
    readParameter (g :: rest) =
      if g.char = '(' ∨ g.char = ')' then ([], g :: rest)
      else if g.char = '\\' then
        match rest with
        | [] => (['\\'], [])
        | taken :: rest => prependChars (unescape taken.char) (readParameter rest)
      else prependChars [g.char] (readParameter rest) :=
  readParameter.eq_def (g :: rest)

/-- A parameter has the same text wherever it is, and what follows it is moved. -/
theorem readParameter_displace (d : Displacement) (gs : List Glyph) :
    readParameter (displaceGlyphs d gs) =
      ((readParameter gs).1, displaceGlyphs d (readParameter gs).2) := by
  fun_induction readParameter gs with
  | case1 => rfl
  | case2 g rest hparen =>
    rw [displaceGlyphs_cons, readParameter_cons, Glyph.char_displace, if_pos hparen]
  | case3 g hparen hesc =>
    rw [displaceGlyphs_cons, readParameter_cons, Glyph.char_displace, if_neg hparen, if_pos hesc]
    rfl
  | case4 g hparen hesc taken rest ih =>
    rw [displaceGlyphs_cons, readParameter_cons, Glyph.char_displace, if_neg hparen, if_pos hesc]
    show prependChars (unescape taken.char) (readParameter (displaceGlyphs d rest)) = _
    rw [ih]
    rfl
  | case5 g rest hparen hesc ih =>
    rw [displaceGlyphs_cons, readParameter_cons, Glyph.char_displace, if_neg hparen, if_neg hesc,
      ih]
    rfl

/-- A token at its moved location. -/
def Token.displace (d : Displacement) : Token → Token
  | .prose text location => .prose text (d.move location)
  | .atom text location => .atom text (d.move location)
  | .parameter text location => .parameter text (d.move location)
  | .close location => .close (d.move location)

@[simp] theorem Token.location_displace (d : Displacement) (token : Token) :
    (token.displace d).location = d.move token.location := by
  cases token <;> rfl

/-- A block is read token by token. -/
theorem blockTokens_cons (pending : Option Location) (g : Glyph) (rest : List Glyph) :
    blockTokens pending (g :: rest) =
      if isBlank g.char then blockTokens pending rest
      else if startsWith ['(', '*'] (g :: rest) then
        (skipRemark g.location 0 (rest.drop 1)).bind (blockTokens pending)
      else if g.char = '(' then
        match pending with
        | some opener => .error ⟨.atomMissing, opener⟩
        | none => blockTokens (some g.location) rest
      else if g.char = ')' then
        match pending with
        | some opener => .error ⟨.parenthesesEmpty, opener⟩
        | none => (blockTokens none rest).map (.close g.location :: ·)
      else
        match pending with
        | some opener =>
          (blockTokens none (rest.dropWhile (isAtomChar ·.char))).map
            (.atom (textOf (g :: rest.takeWhile (isAtomChar ·.char))) opener :: ·)
        | none =>
          (blockTokens none (readParameter (g :: rest)).2).map
            (.parameter (String.ofList (trimEnd (readParameter (g :: rest)).1)) g.location :: ·) := by
  rw [blockTokens.eq_def]
  dsimp only
  split
  · rfl
  · split
    · split
      · next hremark => rw [hremark]; rfl
      · next hremark => rw [hremark]; rfl
    · split
      · rfl
      · rfl

theorem takeWhile_displace (d : Displacement) (p : Char → Bool) (gs : List Glyph) :
    (displaceGlyphs d gs).takeWhile (p ·.char) = displaceGlyphs d (gs.takeWhile (p ·.char)) :=
  List.takeWhile_map ..

theorem dropWhile_displace (d : Displacement) (p : Char → Bool) (gs : List Glyph) :
    (displaceGlyphs d gs).dropWhile (p ·.char) = displaceGlyphs d (gs.dropWhile (p ·.char)) :=
  List.dropWhile_map ..

/-- The tokens of a moved block are those of the block, moved; so is the parenthesis that waits for its atom. -/
theorem blockTokens_displace (d : Displacement) (pending : Option Location) (gs : List Glyph) :
    blockTokens (pending.map d.move) (displaceGlyphs d gs) =
      displaceResult d (List.map (Token.displace d)) (blockTokens pending gs) := by
  fun_induction blockTokens pending gs with
  | case1 opener => rw [displaceGlyphs_nil, blockTokens.eq_def]; rfl
  | case2 => rw [displaceGlyphs_nil, blockTokens.eq_def]; rfl
  | case3 pending g rest hblank ih =>
    rw [displaceGlyphs_cons, blockTokens_cons, Glyph.char_displace, if_pos hblank, ih]
  | case4 pending g rest hblank hstar fault hremark =>
    have hmoved := skipRemark_displace d g.location 0 (rest.drop 1)
    rw [hremark, displaceGlyphs_drop] at hmoved
    rw [displaceGlyphs_cons, blockTokens_cons, Glyph.char_displace, if_neg hblank,
      startsWith_displace_cons, if_pos hstar, Glyph.location_displace, hmoved]
    rfl
  | case5 pending g rest hblank hstar after hremark ih =>
    have hmoved := skipRemark_displace d g.location 0 (rest.drop 1)
    rw [hremark, displaceGlyphs_drop] at hmoved
    rw [displaceGlyphs_cons, blockTokens_cons, Glyph.char_displace, if_neg hblank,
      startsWith_displace_cons, if_pos hstar, Glyph.location_displace, hmoved]
    exact ih
  | case6 g rest hblank hstar hopen opener =>
    rw [displaceGlyphs_cons, blockTokens_cons, Glyph.char_displace, if_neg hblank,
      startsWith_displace_cons, if_neg hstar, if_pos hopen]
    rfl
  | case7 g rest hblank hstar hopen ih =>
    rw [displaceGlyphs_cons, blockTokens_cons, Glyph.char_displace, if_neg hblank,
      startsWith_displace_cons, if_neg hstar, if_pos hopen]
    exact ih
  | case8 g rest hblank hstar hopen hclose opener =>
    rw [displaceGlyphs_cons, blockTokens_cons, Glyph.char_displace, if_neg hblank,
      startsWith_displace_cons, if_neg hstar, if_neg hopen, if_pos hclose]
    rfl
  | case9 g rest hblank hstar hopen hclose ih =>
    rw [displaceGlyphs_cons, blockTokens_cons, Glyph.char_displace, if_neg hblank,
      startsWith_displace_cons, if_neg hstar, if_neg hopen, if_pos hclose]
    show Except.map _ (blockTokens (Option.map d.move none) (displaceGlyphs d rest)) = _
    rw [ih]
    refine displaceResult_map (fun tokens => ?_) _
    rfl
  | case10 g rest hblank hstar hopen hclose opener ih =>
    rw [displaceGlyphs_cons, blockTokens_cons, Glyph.char_displace, if_neg hblank,
      startsWith_displace_cons, if_neg hstar, if_neg hopen, if_neg hclose]
    show Except.map _ (blockTokens none (List.dropWhile _ (displaceGlyphs d rest))) = _
    rw [dropWhile_displace, takeWhile_displace, ← displaceGlyphs_cons, textOf_displace,
      ← Option.map_none, ih]
    refine displaceResult_map (fun tokens => ?_) _
    rfl
  | case11 g rest hblank hstar hopen hclose ih =>
    rw [displaceGlyphs_cons, blockTokens_cons, Glyph.char_displace, if_neg hblank,
      startsWith_displace_cons, if_neg hstar, if_neg hopen, if_neg hclose]
    show Except.map _ (blockTokens (Option.map d.move none)
      (readParameter (displaceGlyphs d (g :: rest))).2) = _
    rw [← displaceGlyphs_cons, readParameter_displace, ih]
    refine displaceResult_map (fun tokens => ?_) _
    rfl

/-- **The tokens of moved parts are the tokens of the parts, moved.** The glyphs of a block are counted from its
start, so that moving has to keep step here. -/
theorem tokenize_displace {d : Displacement} (hd : d.KeepsStep) (parts : List Part) :
    tokenize (parts.map (Part.displace d)) =
      displaceResult d (List.map (Token.displace d)) (tokenize parts) := by
  induction parts with
  | nil => rfl
  | cons part rest ih =>
    cases part with
    | prose text location =>
      show Except.map _ (tokenize (rest.map (Part.displace d))) = _
      rw [ih]
      refine displaceResult_map (fun tokens => ?_) _
      rfl
    | block text location =>
      show (blockTokens none (glyphs (d.move location) text.toList)).bind (fun first =>
        (tokenize (rest.map (Part.displace d))).bind fun others => .ok (first ++ others)) = _
      rw [glyphs_displace hd, ← Option.map_none, blockTokens_displace, ih]
      refine displaceResult_bind (fun first => ?_) _
      refine displaceResult_bind (fun others => ?_) _
      exact congrArg Except.ok List.map_append.symm

end Source
end Bindery
