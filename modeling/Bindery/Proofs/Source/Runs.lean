import Bindery.Proofs.Source.Segments

/-!
# `Proofs.Source.Runs` — the parts of a Markdown text

What is not a comment is prose, and prose is kept: the segments between one block and the next are one run, whatever
comments without blocks stood between them, and every run that has characters is a part. A block is a part of its own, with
what stands between its opener and the parenthesis that closes it. So the parts of a text can be told from its segments.

## Contents
- `Joined`: pieces and the parts they make; `joined_iff`.
- `splitMarkdown_eq_ok_iff`: the texts that are split, and their parts.
- `Part.proseChars`, `Segment.proseChars`: prose is kept.
- `Piece.StandsIn`, `Part.StandsIn`: where pieces and parts stand in the text.
- `split_markdown_iff`.
-/

namespace Bindery
namespace Source

open Text

/-! ## Runs of prose -/

/-- A block is a part. Prose up to the next block or the end of the text is a part, with the place of its first
character. -/
inductive Joined : List Piece → List Part → Prop where
  | nil : Joined [] []
  | block {found : List Piece} {parts : List Part} (start : Location) (body : List Glyph)
      (hrest : Joined found parts) :
      Joined (.block start body :: found) (.block (textOf body) start :: parts)
  | run {bodies : List (List Glyph)} {g : Glyph} {more : List Glyph} {found : List Piece}
      {parts : List Part} (hbodies : bodies.flatten = g :: more)
      (hnext : ∀ body, found.head? ≠ some (.prose body)) (hrest : Joined found parts) :
      Joined (bodies.map Piece.prose ++ found) (.prose (textOf (g :: more)) g.location :: parts)

/-- Prose that no prose follows is joined to one piece. -/
theorem merge_run {found : List Piece} (hnext : ∀ body, found.head? ≠ some (.prose body))
    (body : List Glyph) (bodies : List (List Glyph)) :
    merge ((body :: bodies).map Piece.prose ++ found) = .prose (body :: bodies).flatten :: merge found := by
  induction bodies generalizing body with
  | nil =>
    rw [List.map_singleton, List.singleton_append, merge, List.flatten_singleton]
    cases found with
    | nil => rfl
    | cons piece rest =>
      cases piece with
      | prose body => exact absurd rfl (hnext body)
      | block start body => rfl
  | cons next rest ih =>
    rw [List.map_cons, List.cons_append, merge, ih next]
    rfl

theorem Joined.parts_eq {found : List Piece} {parts : List Part} (h : Joined found parts) :
    parts = (merge found).filterMap Piece.toPart? := by
  induction h with
  | nil => rfl
  | block start body _ ih => rw [ih]; rfl
  | @run bodies g more found parts hbodies hnext _ ih =>
    cases bodies with
    | nil => cases hbodies
    | cons body bodies =>
      rw [merge_run hnext, hbodies, ih]
      rfl

/-- Where all prose has characters, there are parts for it. -/
theorem exists_joined {found : List Piece} (hsome : ∀ body, .prose body ∈ found → body ≠ []) :
    ∃ parts, Joined found parts := by
  induction found with
  | nil => exact ⟨[], .nil⟩
  | cons piece rest ih =>
    obtain ⟨parts, hparts⟩ := ih fun body hmem => hsome body (List.mem_cons_of_mem _ hmem)
    cases piece with
    | block start body => exact ⟨_, .block start body hparts⟩
    | prose body =>
      obtain ⟨g, more, rfl⟩ := List.exists_cons_of_ne_nil (hsome body List.mem_cons_self)
      have hsingle : [g :: more].flatten = g :: more := by simp
      -- the prose is a run of its own, or comes before the one that follows
      cases hparts with
      | nil => exact ⟨_, Joined.run hsingle (by simp) .nil⟩
      | block start body hrest => exact ⟨_, Joined.run hsingle (by simp) (.block start body hrest)⟩
      | @run bodies g' more' found parts hbodies hnext hrest =>
        have hlonger : ((g :: more) :: bodies).flatten = g :: (more ++ g' :: more') := by simp [hbodies]
        exact ⟨_, Joined.run hlonger hnext hrest⟩

/-- **The parts that pieces make are their blocks and their runs of prose.** -/
theorem joined_iff {found : List Piece} (hsome : ∀ body, .prose body ∈ found → body ≠ [])
    {parts : List Part} : Joined found parts ↔ (merge found).filterMap Piece.toPart? = parts := by
  constructor
  · intro h
    exact h.parts_eq.symm
  · rintro rfl
    obtain ⟨parts, hparts⟩ := exists_joined hsome
    rwa [← hparts.parts_eq]

/-! ## Where pieces stand -/

/-- Prose stands somewhere in the text, and a block between its opener and the parenthesis that closes it. -/
def Piece.StandsIn (place : Location) (cs : List Char) : Piece → Prop
  | .prose body => ∃ before c more after, cs = before ++ (c :: more ++ after) ∧
      body = glyphs (place.advanceOver before) (c :: more)
  | .block start body => ∃ before inner after, cs = before ++ (blockStart ++ (inner ++ ')' :: after)) ∧
      Balanced inner ∧ start = place.advanceOver (before ++ blockStart) ∧ body = glyphs start inner

theorem Piece.StandsIn.append_left {place : Location} {before cs : List Char} {piece : Piece}
    (h : piece.StandsIn (place.advanceOver before) cs) : piece.StandsIn place (before ++ cs) := by
  cases piece with
  | prose body =>
    obtain ⟨middle, c, more, after, rfl, rfl⟩ := h
    refine ⟨before ++ middle, c, more, after, by simp, ?_⟩
    rw [advanceOver_append]
  | block start body =>
    obtain ⟨middle, inner, after, rfl, hinner, hstart, hbody⟩ := h
    refine ⟨before ++ middle, inner, after, by simp, hinner, ?_, hbody⟩
    rw [hstart, ← advanceOver_append, List.append_assoc]

theorem CommentInside.standsIn {after : List Char} {insets : List Inset} {cs : List Char}
    (h : CommentInside after insets cs) (place : Location) :
    ∀ piece ∈ blocksFrom place insets, piece.StandsIn place cs := by
  induction h generalizing place with
  | done => exact List.forall_mem_nil _
  | @skipped c insets rest _ _ _ ih =>
    intro piece hmem
    exact @Piece.StandsIn.append_left place [c] rest piece (ih (place.advance c) piece hmem)
  | @block body insets rest _ hbody _ _ ih =>
    intro piece hmem
    rcases List.mem_cons.1 hmem with rfl | hlater
    · exact ⟨[], body, rest, rfl, hbody, rfl, rfl⟩
    · have hstands := (ih _ piece hlater).append_left
      simpa [Inset.text] using hstands

/-- A segment that is no comment makes one piece, and the rest stands behind it. -/
theorem standsIn_cons {place : Location} {c : Char} {more rest : List Char} {found : List Piece}
    (hrest : ∀ piece ∈ found, piece.StandsIn (place.advanceOver (c :: more)) rest) :
    ∀ piece ∈ Piece.prose (glyphs place (c :: more)) :: found,
      piece.StandsIn place (c :: more ++ rest) := by
  intro piece hmem
  rcases List.mem_cons.1 hmem with rfl | hlater
  · exact ⟨[], c, more, rest, rfl, rfl⟩
  · exact (hrest piece hlater).append_left

/-- **The pieces of a text stand in it.** -/
theorem Segmented.standsIn {segments : List Segment} {cs : List Char} (h : Segmented segments cs)
    (place : Location) : ∀ piece ∈ piecesFrom place segments, piece.StandsIn place cs := by
  induction h generalizing place with
  | nil => exact List.forall_mem_nil _
  | fence _ _ ih => exact standsIn_cons (ih _)
  | span _ _ _ ih => exact standsIn_cons (ih _)
  | char _ _ _ ih => exact standsIn_cons (ih _)
  | @comment insets segments inside after hinside _ ih =>
    intro piece hmem
    rcases List.mem_append.1 hmem with hblock | hlater
    · exact (hinside.standsIn _ piece hblock).append_left
    · have hstands := (ih _ piece hlater).append_left
      rw [hinside.text_eq]
      simpa [Segment.text] using hstands

theorem Segmented.prose_ne_nil {segments : List Segment} {cs : List Char} (h : Segmented segments cs)
    (place : Location) : ∀ body, .prose body ∈ piecesFrom place segments → body ≠ [] := by
  intro body hmem
  obtain ⟨before, c, more, after, -, rfl⟩ := h.standsIn place _ hmem
  exact List.cons_ne_nil _ _

/-! ## The parts of a text -/

/-- **The Markdown texts that are split, and their parts.** -/
theorem splitMarkdown_eq_ok_iff {start : Location} {cs : List Char} {parts : List Part} :
    splitMarkdown start cs = .ok parts ↔
      ∃ segments, Segmented segments cs ∧ Joined (piecesFrom start segments) parts := by
  unfold splitMarkdown
  rw [except_map_eq_ok]
  constructor
  · rintro ⟨found, hfound, hparts⟩
    obtain ⟨segments, hsegments, rfl⟩ := pieces_eq_ok_iff.1 hfound
    exact ⟨segments, hsegments, (joined_iff (hsegments.prose_ne_nil start)).2 hparts⟩
  · rintro ⟨segments, hsegments, hjoined⟩
    exact ⟨_, hsegments.pieces_eq start, hjoined.parts_eq.symm⟩

/-- The characters of prose in a piece. -/
def Piece.proseChars : Piece → List Char
  | .prose body => charsOf body
  | .block _ _ => []

/-- The characters of prose in a part. -/
def Part.proseChars : Part → List Char
  | .prose text _ => text.toList
  | .block _ _ => []

/-- The characters of a segment that is no comment. -/
def Segment.proseChars : Segment → List Char
  | .comment _ => []
  | segment => segment.text

theorem proseChars_blocksFrom (place : Location) (insets : List Inset) :
    (blocksFrom place insets).flatMap Piece.proseChars = [] := by
  fun_induction blocksFrom place insets with
  | case1 => rfl
  | case2 place c rest ih => exact ih
  | case3 place body rest ih => exact ih

theorem proseChars_piecesFrom (place : Location) (segments : List Segment) :
    (piecesFrom place segments).flatMap Piece.proseChars = segments.flatMap Segment.proseChars := by
  fun_induction piecesFrom place segments with
  | case1 => rfl
  | case2 place insets rest ih =>
    rw [List.flatMap_append, proseChars_blocksFrom, ih]
    rfl
  | case3 place segment rest hcomment ih =>
    rw [List.flatMap_cons, List.flatMap_cons, ih, Piece.proseChars, charsOf_glyphs]
    cases segment with
    | comment insets => exact absurd rfl (hcomment insets)
    | fence | span | char => rfl

/-- Prose is kept when it is joined. -/
theorem Joined.proseChars_eq {found : List Piece} {parts : List Part} (h : Joined found parts) :
    parts.flatMap Part.proseChars = found.flatMap Piece.proseChars := by
  induction h with
  | nil => rfl
  | block start body _ ih => exact ih
  | @run bodies g more found parts hbodies _ _ ih =>
    have hprose : (bodies.map Piece.prose).flatMap Piece.proseChars = charsOf bodies.flatten := by
      rw [List.flatMap_def, List.map_map, charsOf, List.map_flatten]
      rfl
    rw [List.flatMap_cons, List.flatMap_append, hprose, hbodies, ih, Part.proseChars, textOf,
      String.toList_ofList]

/-- A run of prose begins at a character of the text. A block has the text between an opener and the parenthesis that
closes it, and begins where that text does. -/
def Part.StandsIn (start : Location) (cs : List Char) : Part → Prop
  | .prose text location => ∃ before c after, cs = before ++ c :: after ∧ text.toList.head? = some c ∧
      location = start.advanceOver before
  | .block text location => ∃ before after, cs = before ++ (blockStart ++ (text.toList ++ ')' :: after)) ∧
      Balanced text.toList ∧ location = start.advanceOver (before ++ blockStart)

theorem Joined.standsIn {found : List Piece} {parts : List Part} (h : Joined found parts)
    {start : Location} {cs : List Char} (hfound : ∀ piece ∈ found, piece.StandsIn start cs) :
    ∀ part ∈ parts, part.StandsIn start cs := by
  induction h with
  | nil => exact List.forall_mem_nil _
  | block place body _ ih =>
    obtain ⟨hblock, hrest⟩ := List.forall_mem_cons.1 hfound
    refine List.forall_mem_cons.2 ⟨?_, ih hrest⟩
    obtain ⟨before, inner, after, hcs, hinner, hplace, rfl⟩ := hblock
    have htext : (textOf (glyphs place inner)).toList = inner := by
      rw [textOf, charsOf_glyphs, String.toList_ofList]
    refine ⟨before, after, ?_, ?_, hplace⟩
    · rwa [htext]
    · rwa [htext]
  | @run bodies g more found parts hbodies _ _ ih =>
    obtain ⟨hprose, hrest⟩ := List.forall_mem_append.1 hfound
    refine List.forall_mem_cons.2 ⟨?_, ih hrest⟩
    cases bodies with
    | nil => cases hbodies
    | cons body bodies =>
      -- the first piece of the run has the first character
      obtain ⟨before, c, others, after, rfl, rfl⟩ := hprose _ List.mem_cons_self
      obtain ⟨rfl, -⟩ := List.cons.inj hbodies
      exact ⟨before, c, others ++ after, by simp, by simp [textOf], rfl⟩

theorem markdown_of_extension {extension : Option String} (hdirectives : extension ≠ some "dlisp")
    (hproject : extension ≠ some "dlproj") :
    DocumentPath.Kind.ofExtension? extension = .markdown :=
  DocumentPath.Kind.ofExtension?.eq_3 extension hdirectives hproject

/-- **Markdown texts.** A document with any other extension than those of directives is accepted exactly if it can be cut
into segments. There is one way to do that, and nothing is lost in it. The parts of the document are then its blocks and
the runs of its other segments, in order, at the places where they stand. -/
theorem split_markdown_iff {document : Coordinate} (hdepth : 1 ≤ document.depth)
    (hindex : 1 ≤ document.index) (hdirectives : document.extension? ≠ some "dlisp")
    (hproject : document.extension? ≠ some "dlproj") (text : String) :
    ((∃ parts, split document text = .ok parts) ↔
      ∃ segments, Segmented segments (unifyNewlines text.toList)) ∧
    ∀ segments, Segmented segments (unifyNewlines text.toList) →
      segments.flatMap Segment.text = unifyNewlines text.toList ∧
      (∀ others, Segmented others (unifyNewlines text.toList) → others = segments) ∧
      ∃ parts, split document text = .ok parts ∧
        Joined (piecesFrom document.start segments) parts ∧
        parts.flatMap Part.proseChars = segments.flatMap Segment.proseChars ∧
        ∀ part ∈ parts, part.StandsIn document.start (unifyNewlines text.toList) := by
  have hkind := markdown_of_extension hdirectives hproject
  have hsplit : ∀ parts, split document text = .ok parts ↔
      ∃ segments, Segmented segments (unifyNewlines text.toList) ∧
        Joined (piecesFrom document.start segments) parts := by
    intro parts
    rw [split_valid hdepth hindex, splitText_markdown hkind, except_mapError_eq_ok,
      splitMarkdown_eq_ok_iff]
  have hparts : ∀ segments, Segmented segments (unifyNewlines text.toList) →
      ∃ parts, Joined (piecesFrom document.start segments) parts := fun segments hsegments =>
    exists_joined (hsegments.prose_ne_nil document.start)
  refine ⟨⟨?_, ?_⟩, ?_⟩
  · rintro ⟨parts, h⟩
    obtain ⟨segments, hsegments, -⟩ := (hsplit parts).1 h
    exact ⟨segments, hsegments⟩
  · rintro ⟨segments, hsegments⟩
    obtain ⟨parts, hjoined⟩ := hparts segments hsegments
    exact ⟨parts, (hsplit parts).2 ⟨segments, hsegments, hjoined⟩⟩
  · intro segments hsegments
    obtain ⟨parts, hjoined⟩ := hparts segments hsegments
    refine ⟨hsegments.text_eq, fun others hothers => hothers.unique hsegments, parts,
      (hsplit parts).2 ⟨segments, hsegments, hjoined⟩, hjoined, ?_, ?_⟩
    · rw [hjoined.proseChars_eq, proseChars_piecesFrom]
    · exact hjoined.standsIn (hsegments.standsIn document.start)

/-- Prose on both sides of a comment without blocks, marks in code, and a comment with two blocks, in one of which the
mark that ends a comment is escaped. -/
def mixedText : String := "a`<!--`<!-- x -->é\r\n<!-- (dl (b \\) \\-->) )y(dl) -->```(dl```\r"

/-- A document far from the first one, for `mixedText`. -/
def mixedDocument : Coordinate := ⟨"/docs/a.md", 4, 2⟩

theorem split_markdown_mixedText :
    ∃ segments, Segmented segments (unifyNewlines mixedText.toList) ∧
      segments.flatMap Segment.proseChars = "a`<!--`é\n```(dl```\n".toList ∧
      Joined (piecesFrom mixedDocument.start segments)
        [.prose "a`<!--`é\n" ⟨mixedDocument, ⟨1, 1⟩⟩,
         .block " (b \\) \\-->) " ⟨mixedDocument, ⟨2, 9⟩⟩,
         .block "" ⟨mixedDocument, ⟨2, 27⟩⟩,
         .prose "```(dl```\n" ⟨mixedDocument, ⟨2, 32⟩⟩] := by
  have hsplit : split mixedDocument mixedText = .ok
      [.prose "a`<!--`é\n" ⟨mixedDocument, ⟨1, 1⟩⟩,
       .block " (b \\) \\-->) " ⟨mixedDocument, ⟨2, 9⟩⟩,
       .block "" ⟨mixedDocument, ⟨2, 27⟩⟩,
       .prose "```(dl```\n" ⟨mixedDocument, ⟨2, 32⟩⟩] :=
    ok_of_toOption (by decide +kernel)
  have hdirectives : mixedDocument.extension? ≠ some "dlisp" := by decide +kernel
  have hproject : mixedDocument.extension? ≠ some "dlproj" := by decide +kernel
  obtain ⟨haccepted, hall⟩ :=
    split_markdown_iff (by decide) (by decide) hdirectives hproject mixedText
  obtain ⟨segments, hsegments⟩ := haccepted.1 ⟨_, hsplit⟩
  obtain ⟨-, -, parts, hparts, hjoined, hprose, -⟩ := hall segments hsegments
  obtain rfl := Except.ok.inj (hsplit.symm.trans hparts)
  refine ⟨segments, hsegments, ?_, hjoined⟩
  rw [← hprose]
  decide +kernel

end Source
end Bindery
