import Bindery.Source.Block

/-!
# `Proofs.Displacement.Block` — scanning does not look at locations

The scanners carry locations along but never decide anything by them. So a text that is scanned from another place gives
the same parts, tokens and items, all moved to that place, and the same faults. Two things follow for every document:
what is read from it does not depend on its depth and index, and whatever is read from it lies in it.

## Contents
- `Displacement`: a way to move locations; `Displacement.KeepsStep`, `Displacement.into`, `Displacement.onto`.
- `displaceResult`: a result with its faults moved.
- `Source.glyphs_displace`, `Source.readBlock_displace`: glyphs and directive blocks.
-/

namespace Bindery

/-- A way to move locations. -/
structure Displacement where
  move : Location → Location

namespace Displacement

/-- Moving keeps step with reading, so that a text can be moved before it is read. What is read already can be moved in
any way. -/
def KeepsStep (d : Displacement) : Prop :=
  ∀ location c, d.move (location.advance c) = (d.move location).advance c

/-- The same line and column in another document. -/
def into (document : Coordinate) : Displacement where
  move location := { location with document := document }

/-- Everything at one location. -/
def onto (location : Location) : Displacement where
  move _ := location

/-- Lines and columns are counted alike in every document. -/
theorem keepsStep_into (document : Coordinate) : (into document).KeepsStep := fun _ _ => rfl

@[simp] theorem into_start (document other : Coordinate) :
    (into document).move other.start = document.start := rfl

@[simp] theorem document_into (document : Coordinate) (location : Location) :
    ((into document).move location).document = document := rfl

/-- What keeps step with one character keeps step with a text. -/
theorem KeepsStep.move_advanceOver {d : Displacement} (hd : d.KeepsStep) (location : Location)
    (cs : List Char) :
    d.move (location.advanceOver cs) = (d.move location).advanceOver cs := by
  induction cs generalizing location with
  | nil => rfl
  | cons c rest ih =>
    show d.move ((location.advance c).advanceOver rest) = _
    rw [ih, hd]
    rfl

end Displacement

/-- A fault at the moved location. -/
def Fault.displace (d : Displacement) (fault : Fault) : Fault := ⟨fault.cause, d.move fault.location⟩

/-- A result with its faults moved and its value changed by `f`. -/
def displaceResult (d : Displacement) (f : α → β) (result : Except Fault α) : Except Fault β :=
  (result.map f).mapError (Fault.displace d)

@[simp] theorem displaceResult_ok (d : Displacement) (f : α → β) (value : α) :
    displaceResult d f (.ok value) = .ok (f value) := rfl

@[simp] theorem displaceResult_error (d : Displacement) (f : α → β) (fault : Fault) :
    displaceResult d f (.error fault) = .error (fault.displace d) := rfl

/-- Moving after going on with a result is going on with the moved result, where both steps agree. -/
theorem displaceResult_map {d : Displacement} {f : α → β} {g : γ → δ} {h : α → γ} {k : β → δ}
    (hk : ∀ a, k (f a) = g (h a)) (result : Except Fault α) :
    (displaceResult d f result).map k = displaceResult d g (result.map h) := by
  cases result with
  | error fault => rfl
  | ok value => exact congrArg Except.ok (hk value)

/-- Going on with a moved result is moving what going on comes to, where the next step can be moved. -/
theorem displaceResult_bind {d : Displacement} {f : α → β} {g : γ → δ} {h : α → Except Fault γ}
    {k : β → Except Fault δ} (hk : ∀ a, k (f a) = displaceResult d g (h a))
    (result : Except Fault α) :
    (displaceResult d f result).bind k = displaceResult d g (result.bind h) := by
  cases result with
  | error fault => rfl
  | ok value => exact hk value

namespace Source

open Text

/-! ## Glyphs -/

/-- The same character at the moved location. -/
def Glyph.displace (d : Displacement) (g : Glyph) : Glyph := ⟨g.char, d.move g.location⟩

@[simp] theorem Glyph.char_displace (d : Displacement) (g : Glyph) :
    (g.displace d).char = g.char := rfl

@[simp] theorem Glyph.location_displace (d : Displacement) (g : Glyph) :
    (g.displace d).location = d.move g.location := rfl

/-- Glyphs at their moved locations. -/
def displaceGlyphs (d : Displacement) (gs : List Glyph) : List Glyph := gs.map (Glyph.displace d)

@[simp] theorem displaceGlyphs_nil (d : Displacement) : displaceGlyphs d [] = [] := rfl

@[simp] theorem displaceGlyphs_cons (d : Displacement) (g : Glyph) (gs : List Glyph) :
    displaceGlyphs d (g :: gs) = g.displace d :: displaceGlyphs d gs := rfl

@[simp] theorem displaceGlyphs_append (d : Displacement) (gs hs : List Glyph) :
    displaceGlyphs d (gs ++ hs) = displaceGlyphs d gs ++ displaceGlyphs d hs := List.map_append

theorem displaceGlyphs_take (d : Displacement) (count : Nat) (gs : List Glyph) :
    displaceGlyphs d (gs.take count) = (displaceGlyphs d gs).take count := List.map_take

theorem displaceGlyphs_drop (d : Displacement) (count : Nat) (gs : List Glyph) :
    displaceGlyphs d (gs.drop count) = (displaceGlyphs d gs).drop count := List.map_drop

/-- A text that begins at the moved location has its glyphs at the moved locations. -/
theorem glyphs_displace {d : Displacement} (hd : d.KeepsStep) (location : Location)
    (cs : List Char) :
    glyphs (d.move location) cs = displaceGlyphs d (glyphs location cs) := by
  induction cs generalizing location with
  | nil => rfl
  | cons c rest ih =>
    show ⟨c, d.move location⟩ :: glyphs ((d.move location).advance c) rest = _
    rw [← hd, ih]
    rfl

/-- Moved glyphs spell the same. -/
@[simp] theorem charsOf_displace (d : Displacement) (gs : List Glyph) :
    charsOf (displaceGlyphs d gs) = charsOf gs := by
  simp [charsOf, displaceGlyphs, Function.comp_def]

@[simp] theorem textOf_displace (d : Displacement) (gs : List Glyph) :
    textOf (displaceGlyphs d gs) = textOf gs := by
  simp only [textOf, charsOf_displace]

/-- A word is found by its characters, wherever they are. -/
theorem startsWith_displace (d : Displacement) (word : List Char) (gs : List Glyph) :
    startsWith word (displaceGlyphs d gs) = startsWith word gs := by
  induction word generalizing gs with
  | nil => rfl
  | cons c word ih =>
    cases gs with
    | nil => rfl
    | cons g rest =>
      show (g.char == c && startsWith word (displaceGlyphs d rest)) = _
      rw [ih]
      rfl

theorem startsWith_displace_cons (d : Displacement) (word : List Char) (g : Glyph) (gs : List Glyph) :
    startsWith word (g.displace d :: displaceGlyphs d gs) = startsWith word (g :: gs) :=
  startsWith_displace d word (g :: gs)

/-! ## Blocks -/

/-- The pattern of an opener matches wherever its characters come next. -/
theorem exists_of_startsWith_opener {gs : List Glyph} (h : startsWith ['(', 'd', 'l'] gs = true) :
    ∃ l₁ l₂ l₃ rest, gs = ⟨'(', l₁⟩ :: ⟨'d', l₂⟩ :: ⟨'l', l₃⟩ :: rest := by
  match gs, h with
  | [g], h => simp [startsWith] at h
  | [g, g'], h => simp [startsWith] at h
  | ⟨a, l₁⟩ :: ⟨b, l₂⟩ :: ⟨c, l₃⟩ :: rest, h =>
    simp only [startsWith, Bool.and_true, Bool.and_eq_true, beq_iff_eq] at h
    obtain ⟨rfl, rfl, rfl⟩ := h
    exact ⟨l₁, l₂, l₃, rest, rfl⟩

/-- A block opens at the word `(dl`, provided that the word ends there. -/
theorem opensBlock_eq (gs : List Glyph) :
    opensBlock gs = (startsWith ['(', 'd', 'l'] gs &&
      (gs.drop 3).head?.all fun g => isBlank g.char || g.char == ')') := by
  cases hw : startsWith ['(', 'd', 'l'] gs with
  | true =>
    obtain ⟨l₁, l₂, l₃, rest, rfl⟩ := exists_of_startsWith_opener hw
    cases rest <;> rfl
  | false =>
    unfold opensBlock
    split
    · cases hw
    · rfl

/-- The opener of a block is found by its characters, wherever they are. -/
theorem opensBlock_displace (d : Displacement) (gs : List Glyph) :
    opensBlock (displaceGlyphs d gs) = opensBlock gs := by
  rw [opensBlock_eq, opensBlock_eq, startsWith_displace, ← displaceGlyphs_drop]
  cases gs.drop 3 <;> rfl

theorem opensBlock_displace_cons (d : Displacement) (g : Glyph) (gs : List Glyph) :
    opensBlock (g.displace d :: displaceGlyphs d gs) = opensBlock (g :: gs) :=
  opensBlock_displace d (g :: gs)

/-- Both halves of what was read, moved. -/
def displaceRead (d : Displacement) (read : List Glyph × List Glyph) : List Glyph × List Glyph :=
  (displaceGlyphs d read.1, displaceGlyphs d read.2)

/-- Glyphs can be put in front before both are moved, or after. -/
theorem prepend_displace (d : Displacement) (gs : List Glyph) (read : List Glyph × List Glyph) :
    prepend (displaceGlyphs d gs) (displaceRead d read) = displaceRead d (prepend gs read) := by
  simp [prepend, displaceRead]

/-- An unfinished block is blamed on its opener, or on the innermost parenthesis, wherever that is. -/
theorem unfinished_displace (d : Displacement) (opener : Location) (opens : List Location) :
    unfinished (d.move opener) (opens.map d.move) = (unfinished opener opens).displace d := by
  cases opens <;> rfl

/-- A block is read glyph by glyph. -/
theorem readBlock_cons (opener : Location) (opens : List Location) (g : Glyph) (rest : List Glyph) :
    readBlock opener opens (g :: rest) =
      if startsWith commentEnd (g :: rest) then .error ⟨.blockOpen, opener⟩
      else if g.char = '\\' then
        match rest with
        | [] => .error (unfinished opener opens)
        | taken :: rest => (readBlock opener opens rest).map (prepend [g, taken])
      else if g.char = '(' then
        if opensBlock (g :: rest) then .error ⟨.blockNested, g.location⟩
        else (readBlock opener (g.location :: opens) rest).map (prepend [g])
      else if g.char = ')' then
        match opens with
        | [] => .ok ([], rest)
        | _ :: outer => (readBlock opener outer rest).map (prepend [g])
      else (readBlock opener opens rest).map (prepend [g]) :=
  readBlock.eq_def opener opens (g :: rest)

/-- **A block reads the same wherever it is**: the locations that the reader keeps of open parentheses are only
blamed, never compared. -/
theorem readBlock_displace (d : Displacement) (opener : Location) (opens : List Location)
    (gs : List Glyph) :
    readBlock (d.move opener) (opens.map d.move) (displaceGlyphs d gs) =
      displaceResult d (displaceRead d) (readBlock opener opens gs) := by
  fun_induction readBlock opener opens gs with
  | case1 opens => exact congrArg Except.error (unfinished_displace d opener opens)
  | case2 opens g rest hend =>
    rw [displaceGlyphs_cons, readBlock_cons, startsWith_displace_cons, if_pos hend]
    rfl
  | case3 opens g hesc hend =>
    rw [displaceGlyphs_cons, readBlock_cons, startsWith_displace_cons, Glyph.char_displace,
      if_neg hend, if_pos hesc]
    exact congrArg Except.error (unfinished_displace d opener opens)
  | case4 opens g hesc taken rest hend ih =>
    rw [displaceGlyphs_cons, readBlock_cons, startsWith_displace_cons, Glyph.char_displace,
      if_neg hend, if_pos hesc]
    show Except.map _ (readBlock _ _ (displaceGlyphs d rest)) = _
    rw [ih]
    exact displaceResult_map (prepend_displace d [g, taken]) _
  | case5 opens g rest hend hesc hopen hblock =>
    rw [displaceGlyphs_cons, readBlock_cons, startsWith_displace_cons, Glyph.char_displace,
      if_neg hend, if_neg hesc, if_pos hopen, opensBlock_displace_cons, if_pos hblock]
    rfl
  | case6 opens g rest hend hesc hopen hblock ih =>
    rw [displaceGlyphs_cons, readBlock_cons, startsWith_displace_cons, Glyph.char_displace,
      if_neg hend, if_neg hesc, if_pos hopen, opensBlock_displace_cons, if_neg hblock,
      Glyph.location_displace, ← List.map_cons, ih]
    exact displaceResult_map (prepend_displace d [g]) _
  | case7 g rest hend hesc hopen hclose =>
    rw [displaceGlyphs_cons, readBlock_cons, startsWith_displace_cons, Glyph.char_displace,
      if_neg hend, if_neg hesc, if_neg hopen, if_pos hclose]
    rfl
  | case8 g rest hend hesc hopen hclose head outer ih =>
    rw [displaceGlyphs_cons, readBlock_cons, startsWith_displace_cons, Glyph.char_displace,
      if_neg hend, if_neg hesc, if_neg hopen, if_pos hclose]
    show Except.map _ (readBlock _ (outer.map d.move) (displaceGlyphs d rest)) = _
    rw [ih]
    exact displaceResult_map (prepend_displace d [g]) _
  | case9 opens g rest hend hesc hopen hclose ih =>
    rw [displaceGlyphs_cons, readBlock_cons, startsWith_displace_cons, Glyph.char_displace,
      if_neg hend, if_neg hesc, if_neg hopen, if_neg hclose, ih]
    exact displaceResult_map (prepend_displace d [g]) _

end Source
end Bindery
