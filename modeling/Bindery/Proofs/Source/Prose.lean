import Bindery.Proofs.Source.Runs

/-!
# `Proofs.Source.Prose` — text that is all prose

In a text without comments everything is prose, and so are the marks of comments inside of code. Such a text can be told
by its characters alone: it is cut into fences, spans and single characters, none of which begins a comment. Blanks never
belong to the end of a fence or a span. So they can be taken away at both ends, and other text can be put there, without
any of the cuts changing.

## Contents
- `Prose`: texts without comments outside of code.
- `Segmented.prose`, `prose_of_splitMarkdown`: a text of which nothing is dropped.
- `Prose.of_blank_append`, `Prose.of_append_blank`: blanks at both ends.
- `PassesOver`, `Prose.passesOver`: what the scanner finds in such a text, whatever follows.
- `pieces_comment`, `splitMarkdown_prose`: a comment without blocks, and the prose around it.
-/

namespace Bindery
namespace Source

open Text

/-! ## Text without comments -/

/-- Texts in which no comment begins outside of code, and all code is closed. -/
inductive Prose : List Char → Prop where
  | nil : Prose []
  | char {c : Char} {rest : List Char} (hc : c ≠ '`') (hstart : ¬ commentStart <+: c :: rest)
      (hrest : Prose rest) : Prose (c :: rest)
  | span {inner rest : List Char} (hinner : ∀ c ∈ inner, c ≠ '`' ∧ c ≠ '\n')
      (hmark : ¬ fenceMark <+: '`' :: (inner ++ ['`']) ++ rest) (hrest : Prose rest) :
      Prose ('`' :: (inner ++ ['`']) ++ rest)
  | fence {inner rest : List Char} (hinner : FenceInside inner) (hrest : Prose rest) :
      Prose (fenceMark ++ (inner ++ fenceMark) ++ rest)

/-- A text that is cut without comments is prose, and from any other text something is missing. -/
theorem Segmented.prose {segments : List Segment} {cs : List Char} (h : Segmented segments cs) :
    (segments.flatMap Segment.proseChars).length ≤ cs.length ∧
      ((segments.flatMap Segment.proseChars).length = cs.length → Prose cs) := by
  induction h with
  | nil => exact ⟨Nat.le_refl 0, fun _ => .nil⟩
  | fence hinner _ ih =>
    rw [List.flatMap_cons, List.length_append, List.length_append]
    exact ⟨Nat.add_le_add_left ih.1 _, fun hlength => .fence hinner (ih.2 (Nat.add_left_cancel hlength))⟩
  | span hinner hmark _ ih =>
    rw [List.flatMap_cons, List.length_append, List.length_append]
    exact ⟨Nat.add_le_add_left ih.1 _,
      fun hlength => .span hinner hmark (ih.2 (Nat.add_left_cancel hlength))⟩
  | char hc hstart _ ih =>
    rw [List.flatMap_cons, List.length_append, List.length_cons, Nat.add_comm]
    exact ⟨Nat.add_le_add_right ih.1 _,
      fun hlength => .char hc hstart (ih.2 (Nat.add_right_cancel hlength))⟩
  | comment hinside _ ih =>
    -- at least the mark of the comment is missing
    obtain ⟨hle, -⟩ := ih
    have hinner := congrArg List.length hinside.text_eq
    rw [List.length_append] at hinner
    rw [List.flatMap_cons, Segment.proseChars, List.nil_append, List.length_append]
    have hmark : commentStart.length = 4 := rfl
    exact ⟨by omega, by omega⟩

/-- **A text that is a single part with all of its characters has no comments.** -/
theorem prose_of_splitMarkdown {start location : Location} {cs : List Char}
    (h : splitMarkdown start cs = .ok [.prose (String.ofList cs) location]) : Prose cs := by
  obtain ⟨segments, hsegments, hjoined⟩ := splitMarkdown_eq_ok_iff.1 h
  have hprose : cs = segments.flatMap Segment.proseChars := by
    rw [← proseChars_piecesFrom start, ← hjoined.proseChars_eq]
    simp [Part.proseChars]
  exact hsegments.prose.2 (congrArg List.length hprose.symm)

/-! ## Blanks at both ends -/

/-- What a mark is made of is no blank, so it does not reach across one. -/
theorem prefix_of_prefix_append {word cs tail : List Char} (hword : ∀ c ∈ word, isBlank c = false)
    (htail : ∀ c ∈ tail.head?, isBlank c = true) (h : word <+: cs ++ tail) : word <+: cs := by
  induction cs generalizing word with
  | nil =>
    cases word with
    | nil => exact List.nil_prefix
    | cons c word =>
      obtain ⟨more, rfl⟩ := h
      have hblank := htail c rfl
      rw [hword c List.mem_cons_self] at hblank
      cases hblank
  | cons d cs ih =>
    cases word with
    | nil => exact List.nil_prefix
    | cons c word =>
      obtain ⟨rfl, hmore⟩ := List.cons_prefix_cons.1 h
      exact List.cons_prefix_cons.2 ⟨rfl, ih (List.forall_mem_cons.1 hword).2 hmore⟩

theorem commentStart_not_blank : ∀ c ∈ commentStart, isBlank c = false := by
  simp only [commentStart, List.mem_cons, List.not_mem_nil, or_false, forall_eq_or_imp, forall_eq]
  decide

theorem fenceMark_not_blank : ∀ c ∈ fenceMark, isBlank c = false := by
  simp only [fenceMark, List.mem_cons, List.not_mem_nil, or_false, forall_eq_or_imp, forall_eq]
  decide

theorem ne_tick_of_isBlank {c : Char} (h : isBlank c = true) : c ≠ '`' := by
  rintro rfl
  cases h

/-- No comment begins with a blank. -/
theorem not_commentStart_of_isBlank {c : Char} (h : isBlank c = true) (rest : List Char) :
    ¬ commentStart <+: c :: rest := by
  intro hprefix
  obtain ⟨rfl, -⟩ := List.cons_prefix_cons.1 hprefix
  cases h

theorem Prose.of_blank_append {blanks cs : List Char} (hblanks : ∀ c ∈ blanks, isBlank c = true)
    (h : Prose (blanks ++ cs)) : Prose cs := by
  induction blanks with
  | nil => exact h
  | cons c rest ih =>
    obtain ⟨hc, hrest⟩ := List.forall_mem_cons.1 hblanks
    have htick := ne_tick_of_isBlank hc
    generalize htext : c :: rest ++ cs = text at h
    cases h with
    | nil => cases htext
    | char _ _ hmore =>
      cases htext
      exact ih hrest hmore
    | span => exact absurd (List.cons.inj htext).1 htick
    | fence => exact absurd (List.cons.inj htext).1 htick

theorem Prose.blank_append {blanks cs : List Char} (hblanks : ∀ c ∈ blanks, isBlank c = true)
    (h : Prose cs) : Prose (blanks ++ cs) := by
  induction blanks with
  | nil => exact h
  | cons c rest ih =>
    obtain ⟨hc, hrest⟩ := List.forall_mem_cons.1 hblanks
    exact .char (ne_tick_of_isBlank hc) (not_commentStart_of_isBlank hc _) (ih hrest)

/-- Code ends with a backtick, and so before the blanks that a text ends with. -/
theorem exists_append_of_tick {code rest cs blanks : List Char}
    (hblanks : ∀ c ∈ blanks, isBlank c = true) (h : code ++ '`' :: rest = cs ++ blanks) :
    ∃ more, cs = code ++ '`' :: more ∧ rest = more ++ blanks := by
  have htick : '`' ∉ blanks := fun hmem => ne_tick_of_isBlank (hblanks _ hmem) rfl
  rcases List.append_eq_append_iff.1 h with ⟨more, hcs, hrest⟩ | ⟨later, hcode, hlater⟩
  · cases more with
    | nil =>
      rw [List.nil_append] at hrest
      exact absurd (hrest ▸ List.mem_cons_self) htick
    | cons c more =>
      rw [List.cons_append, List.cons.injEq] at hrest
      obtain ⟨rfl, hrest⟩ := hrest
      exact ⟨more, hcs, hrest⟩
  · exact absurd (hlater ▸ List.mem_append_right later List.mem_cons_self) htick

/-- **Blanks can be taken away at the end**: they are no part of any code. -/
theorem Prose.of_append_blank {cs blanks : List Char} (hblanks : ∀ c ∈ blanks, isBlank c = true)
    (h : Prose (cs ++ blanks)) : Prose cs := by
  generalize htext : cs ++ blanks = text at h
  induction h generalizing cs with
  | nil =>
    cases (List.append_eq_nil_iff.1 htext).1
    exact .nil
  | @char c rest hc hstart _ ih =>
    cases cs with
    | nil => exact .nil
    | cons d more =>
      obtain ⟨rfl, hmore⟩ := List.cons.inj htext
      refine .char hc (fun hprefix => hstart ?_) (ih hmore)
      rw [← hmore]
      exact hprefix.trans (List.prefix_append (d :: more) blanks)
  | @span inner rest hinner hmark _ ih =>
    have hsplit : ('`' :: inner) ++ '`' :: rest = cs ++ blanks := by simp [htext]
    obtain ⟨more, rfl, hrest⟩ := exists_append_of_tick hblanks hsplit
    have hcode : ('`' :: inner) ++ '`' :: more = '`' :: (inner ++ ['`']) ++ more := by simp
    rw [hcode] at htext ⊢
    refine .span hinner (fun hprefix => hmark ?_) (ih hrest.symm)
    rw [← htext]
    exact hprefix.trans (List.prefix_append _ blanks)
  | @fence inner rest hinner _ ih =>
    have hsplit : (fenceMark ++ (inner ++ ['`', '`'])) ++ '`' :: rest = cs ++ blanks := by
      simp [htext, fenceMark]
    obtain ⟨more, rfl, hrest⟩ := exists_append_of_tick hblanks hsplit
    have hcode : (fenceMark ++ (inner ++ ['`', '`'])) ++ '`' :: more =
        fenceMark ++ (inner ++ fenceMark) ++ more := by
      simp [fenceMark]
    rw [hcode]
    exact .fence hinner (ih hrest.symm)

/-! ## What the scanner finds -/

/-- The scanner passes over some glyphs, which are all prose, and goes on with the rest. -/
def PassesOver (gs rest : List Glyph) : Prop :=
  ∃ bodies : List (List Glyph), bodies.flatten = gs ∧
    pieces (gs ++ rest) = (pieces rest).map (bodies.map Piece.prose ++ ·)

theorem PassesOver.nil (rest : List Glyph) : PassesOver [] rest := by
  refine ⟨[], rfl, ?_⟩
  rw [List.nil_append]
  cases pieces rest <;> rfl

theorem PassesOver.append {gs more rest : List Glyph} (h : PassesOver gs (more ++ rest))
    (hmore : PassesOver more rest) : PassesOver (gs ++ more) rest := by
  obtain ⟨bodies, hbodies, hpieces⟩ := h
  obtain ⟨others, hothers, hrest⟩ := hmore
  refine ⟨bodies ++ others, by rw [List.flatten_append, hbodies, hothers], ?_⟩
  rw [List.append_assoc, hpieces, hrest, except_map_map]
  simp only [List.map_append, List.append_assoc]

/-- One step of the scanner, and the rest. -/
theorem PassesOver.cons (body : List Glyph) {more rest : List Glyph}
    (hstep : pieces (body ++ (more ++ rest)) = (pieces (more ++ rest)).map (.prose body :: ·))
    (hmore : PassesOver more rest) : PassesOver (body ++ more) rest :=
  PassesOver.append ⟨[body], by simp, hstep⟩ hmore

theorem passesOver_blank {gs : List Glyph} (h : ∀ c ∈ charsOf gs, isBlank c = true)
    (rest : List Glyph) : PassesOver gs rest := by
  induction gs with
  | nil => exact .nil rest
  | cons g more ih =>
    obtain ⟨hg, hmore⟩ := List.forall_mem_cons.1 h
    have hstep := pieces_char (ne_tick_of_isBlank hg)
      (not_commentStart_of_isBlank hg (charsOf (more ++ rest)))
    exact PassesOver.cons [g] hstep (ih hmore)

/-- **Text without comments is passed over, whatever follows it**, if that begins with a blank. -/
theorem Prose.passesOver {cs : List Char} (h : Prose cs) {gs : List Glyph} (hgs : charsOf gs = cs)
    {rest : List Glyph} (hrest : ∀ c ∈ (charsOf rest).head?, isBlank c = true) :
    PassesOver gs rest := by
  induction h generalizing gs with
  | nil =>
    cases List.map_eq_nil_iff.1 hgs
    exact .nil rest
  | @char c others hc hstart _ ih =>
    obtain ⟨g, more, rfl, rfl, hmore⟩ := charsOf_eq_cons hgs
    have hnone : ¬ commentStart <+: charsOf (g :: (more ++ rest)) := by
      intro hprefix
      rw [charsOf_cons, charsOf_append, hmore] at hprefix
      exact hstart (prefix_of_prefix_append commentStart_not_blank hrest hprefix)
    exact PassesOver.cons [g] (pieces_char hc hnone) (ih hmore)
  | @span inner others hinner hmark _ ih =>
    obtain ⟨code, more, rfl, hcode, hmore⟩ := charsOf_eq_append hgs
    have hnone : ¬ fenceMark <+: charsOf (code ++ (more ++ rest)) := by
      rw [← List.append_assoc, charsOf_append, hgs]
      intro hprefix
      exact hmark (prefix_of_prefix_append fenceMark_not_blank hrest hprefix)
    exact PassesOver.cons _ (pieces_span hinner hcode hnone) (ih hmore)
  | @fence inner others hinner _ ih =>
    obtain ⟨code, more, rfl, hcode, hmore⟩ := charsOf_eq_append hgs
    exact PassesOver.cons _ (pieces_fence hinner hcode (more ++ rest)) (ih hmore)

/-! ## Comments without blocks -/

/-- A remark that neither opens a block nor ends the comment is skipped up to the end of the comment. -/
theorem readComment_remark {inner : List Char} (h : ∀ c ∈ inner, c ≠ '-' ∧ c ≠ '(') {gs : List Glyph}
    (hgs : charsOf gs = inner ++ commentEnd) (opener : Location) (rest : List Glyph) :
    readComment opener (gs ++ rest) = .ok ([], rest) := by
  induction inner generalizing gs with
  | nil => exact readComment_end hgs opener rest
  | cons c inner ih =>
    obtain ⟨⟨hdash, hparen⟩, hinner⟩ := List.forall_mem_cons.1 h
    obtain ⟨g, more, rfl, rfl, hmore⟩ := charsOf_eq_cons hgs
    have hend : startsWith commentEnd (g :: (more ++ rest)) = false := by
      simp [startsWith, commentEnd, hdash]
    have hblock : opensBlock (g :: (more ++ rest)) = false := by
      rw [opensBlock_eq_opensAt, opensAt]
      simp [Ne.symm hparen]
    rw [List.cons_append, readComment_skip hend hblock]
    exact ih hinner hmore

/-- A comment without blocks leaves nothing. -/
theorem pieces_comment {inner : List Char} (h : ∀ c ∈ inner, c ≠ '-' ∧ c ≠ '(') {gs : List Glyph}
    (hgs : charsOf gs = commentStart ++ (inner ++ commentEnd)) (rest : List Glyph) :
    pieces (gs ++ rest) = pieces rest := by
  obtain ⟨opening, body, rfl, hopening, hbody⟩ := charsOf_eq_append hgs
  obtain ⟨opener, hpieces⟩ := pieces_commentStart hopening (body ++ rest)
  rw [List.append_assoc, hpieces, readComment_remark h hbody]
  show (pieces rest).map ([] ++ ·) = _
  cases pieces rest <;> rfl

/-! ## One run of prose -/

/-- Prose without anything between makes one part. -/
theorem exists_part_of_prose {bodies : List (List Glyph)} (h : bodies.flatten ≠ []) :
    ∃ location, (merge (bodies.map Piece.prose)).filterMap Piece.toPart? =
      [.prose (textOf bodies.flatten) location] := by
  obtain ⟨g, more, hflat⟩ := List.exists_cons_of_ne_nil h
  have hjoined := (Joined.run hflat (by simp) .nil).parts_eq
  rw [List.append_nil] at hjoined
  rw [hflat]
  exact ⟨g.location, hjoined.symm⟩

/-- **Prose between two comments is one run with the blanks around it**, also with those behind the second comment. -/
theorem splitMarkdown_prose {comment inner : List Char}
    (hcomment : comment = commentStart ++ (inner ++ commentEnd))
    (hinner : ∀ c ∈ inner, c ≠ '-' ∧ c ≠ '(') {value before between after : List Char}
    (hvalue : Prose value) (hbefore : ∀ c ∈ before, isBlank c = true)
    (hbetween : ∀ c ∈ between, isBlank c = true) (hsome : between ≠ [])
    (hafter : ∀ c ∈ after, isBlank c = true) (start : Location) :
    ∃ location,
      splitMarkdown start (comment ++ ((before ++ value) ++ (between ++ (comment ++ after)))) =
        .ok [.prose (String.ofList ((before ++ value) ++ (between ++ after))) location] := by
  generalize hgs : glyphs start (comment ++ ((before ++ value) ++ (between ++ (comment ++ after)))) = gs
  have hchars := charsOf_glyphs start (comment ++ ((before ++ value) ++ (between ++ (comment ++ after))))
  rw [hgs] at hchars
  obtain ⟨first, gs, rfl, hfirst, hrest⟩ := charsOf_eq_append hchars
  obtain ⟨prose, gs, rfl, hprose, hrest⟩ := charsOf_eq_append hrest
  obtain ⟨gap, gs, rfl, hgap, hrest⟩ := charsOf_eq_append hrest
  obtain ⟨second, last, rfl, hsecond, hlast⟩ := charsOf_eq_append hrest
  -- the prose ends at a blank, and the blanks end anywhere
  have hhead : ∀ c ∈ (charsOf (gap ++ (second ++ last))).head?, isBlank c = true := by
    obtain ⟨c, more, rfl⟩ := List.exists_cons_of_ne_nil hsome
    rw [charsOf_append, hgap]
    rintro d ⟨⟩
    exact hbetween c List.mem_cons_self
  obtain ⟨bodies, hbodies, hpassed⟩ := (hvalue.blank_append hbefore).passesOver hprose hhead
  obtain ⟨gaps, hgaps, hgapped⟩ := passesOver_blank (hgap ▸ hbetween) (second ++ last)
  obtain ⟨ends, hends, hended⟩ := passesOver_blank (hlast ▸ hafter) []
  have hpieces : pieces (first ++ (prose ++ (gap ++ (second ++ last)))) =
      .ok ((bodies ++ (gaps ++ ends)).map Piece.prose) := by
    rw [pieces_comment hinner (hfirst.trans hcomment), hpassed, hgapped,
      pieces_comment hinner (hsecond.trans hcomment), ← List.append_nil last, hended, pieces]
    simp [Except.map]
  have hflat : (bodies ++ (gaps ++ ends)).flatten = prose ++ (gap ++ last) := by
    rw [List.flatten_append, List.flatten_append, hbodies, hgaps, hends]
  have htext : charsOf (prose ++ (gap ++ last)) = (before ++ value) ++ (between ++ after) := by
    rw [charsOf_append, charsOf_append, hprose, hgap, hlast]
  have hne : (bodies ++ (gaps ++ ends)).flatten ≠ [] := by
    rw [hflat]
    intro hnil
    rw [hnil] at htext
    have hnone := (List.append_eq_nil_iff.1 htext.symm).2
    exact hsome (List.append_eq_nil_iff.1 hnone).1
  obtain ⟨location, hparts⟩ := exists_part_of_prose hne
  refine ⟨location, ?_⟩
  rw [hflat, textOf, htext] at hparts
  rw [splitMarkdown, hgs, hpieces]
  exact congrArg Except.ok hparts

end Source
end Bindery
