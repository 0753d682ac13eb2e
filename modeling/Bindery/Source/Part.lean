import Bindery.Path.DocumentPath
import Bindery.Source.Block
import Bindery.Text.Newline

/-!
# `Source.Part` — prose and directive blocks of a document

In Markdown, directives live inside comments; everything else is prose, and in code nothing is special. What else a
comment says is dropped, so prose on both sides of a comment without directives is one run. A file of directives
is a single block.

## Contents
- `closeFence`, `closeSpan`, `readComment`: the constructs of Markdown that matter here.
- `Piece`, `pieces`, `merge`: prose and blocks in order, neighbouring prose joined.
- `Part`, `split`.
-/

namespace Bindery
namespace Source

open Text

/-! ## Constructs of Markdown -/

/-- Three backticks, which open and close a fence. -/
def fenceMark : List Char := ['`', '`', '`']

/-- The mark that opens a comment. -/
def commentStart : List Char := ['<', '!', '-', '-']

/-- The inside of a fence with its closing mark, and what follows. -/
def closeFence : List Glyph → Option (List Glyph × List Glyph)
  | [] => none
  | g :: rest =>
    if startsWith fenceMark (g :: rest) then some (g :: rest.take 2, rest.drop 2)
    else (closeFence rest).map (prepend [g])

/-- The inside of a code span with its closing backtick, and what follows. A span ends on its line. -/
def closeSpan : List Glyph → Option (List Glyph × List Glyph)
  | [] => none
  | g :: rest =>
    if g.char = '`' then some ([g], rest)
    else if g.char = '\n' then none
    else (closeSpan rest).map (prepend [g])

/-- What follows a fence is shorter than what it was read from. -/
theorem length_of_closeFence {gs body rest : List Glyph} (h : closeFence gs = some (body, rest)) :
    rest.length < gs.length := by
  fun_induction closeFence gs generalizing body rest with
  | case1 => cases h
  | case2 g rest' =>
    cases h
    simp only [List.length_drop, List.length_cons]
    omega
  | case3 g rest' _ ih =>
    obtain ⟨⟨body', rest''⟩, hr, heq⟩ := Option.map_eq_some_iff.1 h
    cases heq
    have := ih hr
    simp only [List.length_cons]
    omega

/-- What follows a span is shorter than what it was read from. -/
theorem length_of_closeSpan {gs body rest : List Glyph} (h : closeSpan gs = some (body, rest)) :
    rest.length < gs.length := by
  fun_induction closeSpan gs generalizing body rest with
  | case1 | case3 => cases h
  | case2 g rest' =>
    cases h
    simp
  | case4 g rest' _ _ ih =>
    obtain ⟨⟨body', rest''⟩, hr, heq⟩ := Option.map_eq_some_iff.1 h
    cases heq
    have := ih hr
    simp only [List.length_cons]
    omega

/-! ## Pieces -/

/-- A stretch of prose, or the inside of a block and where it starts. -/
inductive Piece where
  | prose (body : List Glyph)
  | block (start : Location) (body : List Glyph)
deriving DecidableEq, Repr

/-- The blocks in the rest of a comment that was opened at `opener`, and what follows the comment. -/
def readComment (opener : Location) (gs : List Glyph) : Except Fault (List Piece × List Glyph) :=
  match gs with
  | [] => .error ⟨.commentOpen, opener⟩
  | g :: rest =>
    if startsWith commentEnd (g :: rest) then .ok ([], rest.drop 2)
    else if opensBlock (g :: rest) then
      match _h : readBlock g.location [] (rest.drop 2) with
      | .error fault => .error fault
      | .ok (body, after) =>
        (readComment opener after).map fun read =>
          (.block (g.location.advanceOver ['(', 'd', 'l']) body :: read.1, read.2)
    else readComment opener rest
termination_by gs.length
decreasing_by
  · have := length_of_readBlock _h
    simp only [List.length_drop, List.length_cons] at this ⊢
    omega
  · simp

/-- What follows a comment is no longer than what it was read from. -/
theorem length_of_readComment {opener : Location} {gs rest : List Glyph} {blocks : List Piece}
    (h : readComment opener gs = .ok (blocks, rest)) : rest.length < gs.length := by
  fun_induction readComment opener gs generalizing blocks rest with
  | case1 | case3 => cases h
  | case2 g rest' =>
    cases h
    simp only [List.length_drop, List.length_cons]
    omega
  | case4 g rest' _ _ body after hb ih =>
    cases hr : readComment opener after with
    | error fault => rw [hr] at h; cases h
    | ok read =>
      rw [hr] at h
      cases h
      have h1 := ih hr
      have h2 := length_of_readBlock hb
      simp only [List.length_drop, List.length_cons] at h2 ⊢
      omega
  | case5 g rest' _ _ ih =>
    have := ih h
    simp only [List.length_cons]
    omega

/-- The pieces of a Markdown text: fences and spans whole, the blocks of each comment, and all else character by
character. -/
def pieces (gs : List Glyph) : Except Fault (List Piece) :=
  match gs with
  | [] => .ok []
  | g :: rest =>
    if startsWith fenceMark (g :: rest) then
      match _h : closeFence (rest.drop 2) with
      | none => .error ⟨.fenceOpen, g.location⟩
      | some (body, after) => (pieces after).map (.prose (g :: rest.take 2 ++ body) :: ·)
    else if g.char = '`' then
      match _h : closeSpan rest with
      | none => .error ⟨.spanOpen, g.location⟩
      | some (body, after) => (pieces after).map (.prose (g :: body) :: ·)
    else if startsWith commentStart (g :: rest) then
      match _h : readComment g.location (rest.drop 3) with
      | .error fault => .error fault
      | .ok (blocks, after) => (pieces after).map (blocks ++ ·)
    else (pieces rest).map (.prose [g] :: ·)
termination_by gs.length
decreasing_by
  · have := length_of_closeFence _h
    simp only [List.length_drop, List.length_cons] at this ⊢
    omega
  · have := length_of_closeSpan _h
    simp only [List.length_cons]
    omega
  · have := length_of_readComment _h
    simp only [List.length_drop, List.length_cons] at this ⊢
    omega
  · simp

/-- Join neighbouring prose. -/
def merge : List Piece → List Piece
  | [] => []
  | .prose body :: rest =>
    match merge rest with
    | .prose more :: others => .prose (body ++ more) :: others
    | others => .prose body :: others
  | .block start body :: rest => .block start body :: merge rest

/-! ## Parts -/

/-- A run of prose or the inside of a directive block, with the location of its first character. -/
inductive Part where
  | prose (text : String) (location : Location)
  | block (text : String) (location : Location)
deriving DecidableEq, Repr

namespace Part

/-- The text of a part. -/
def text : Part → String
  | .prose text _ => text
  | .block text _ => text

/-- Where a part begins. -/
def location : Part → Location
  | .prose _ location => location
  | .block _ location => location

end Part

/-- The part a piece makes; prose without characters makes none. -/
def Piece.toPart? : Piece → Option Part
  | .prose [] => none
  | .prose (g :: rest) => some (.prose (textOf (g :: rest)) g.location)
  | .block start body => some (.block (textOf body) start)

/-- The parts of a Markdown text. -/
def splitMarkdown (start : Location) (text : List Char) : Except Fault (List Part) :=
  (pieces (glyphs start text)).map fun found => (merge found).filterMap Piece.toPart?

/-- The parts of a file of directives: one block, unless it is blank. -/
def splitDirectives (start : Location) (text : List Char) : Except Fault (List Part) :=
  (checkDirectives start.document.path [] (glyphs start text)).map fun _ =>
    if text.all isBlank then [] else [.block (String.ofList text) start]

/-- The parts of a document whose line ends are line feeds. -/
def splitText (document : Coordinate) (text : List Char) : Except Fault (List Part) :=
  match DocumentPath.Kind.ofExtension? document.extension? with
  | .markdown => splitMarkdown document.start text
  | _ => splitDirectives document.start text

/-- All documents that are not Markdown are files of directives. -/
theorem splitText_directives {document : Coordinate}
    (hkind : DocumentPath.Kind.ofExtension? document.extension? ≠ .markdown) (text : List Char) :
    splitText document text = splitDirectives document.start text := by
  unfold splitText
  split
  · contradiction
  · rfl

theorem splitText_markdown {document : Coordinate}
    (hkind : DocumentPath.Kind.ofExtension? document.extension? = .markdown) (text : List Char) :
    splitText document text = splitMarkdown document.start text := by
  rw [splitText, hkind]

/-- The prose and the blocks of a document, in order. -/
def split (document : Coordinate) (text : String) : Except Failure (List Part) :=
  if document.depth < 1 ∨ document.index < 1 then
    .error (.general
      ("Invalid document coordinate (depth " ++ toString document.depth ++ ", index "
        ++ toString document.index ++ ")")
      (some document.path))
  else (splitText document (unifyNewlines text.toList)).mapError Fault.toFailure

/-- Where the coordinate counts from one, the text decides. -/
theorem split_valid {document : Coordinate} (hdepth : 1 ≤ document.depth)
    (hindex : 1 ≤ document.index) (text : String) :
    split document text =
      (splitText document (unifyNewlines text.toList)).mapError Fault.toFailure := by
  rw [split, if_neg (by omega)]

end Source
end Bindery
