import Bindery.Section.Emission
import Bindery.Text.Blank

/-!
# `Section.Layout` — generated Markdown

Blocks have a blank line between them. An inline text continues the one before it if it starts on the line of its
document where that one ended, and otherwise begins anew like a block. The first and the last block say that the
document was generated.

## Contents
- `Sheet`: what has been written so far; `Sheet.add`, `Sheet.finish`.
- `layOut`: the text of some emissions.
- `render`: the text of a tree of sections.
-/

namespace Bindery

open Text

/-- The first and the last line of a generated document. -/
def generatedMark : String := "<!-- Generated Document do not edit! -->"

/-- What has been written, and where the last inline text ended in its document if nothing stands behind it. -/
structure Sheet where
  text : List Char
  lastInline : Option Location
deriving DecidableEq, Repr

namespace Sheet

/-- A sheet with nothing on it. -/
def empty : Sheet := ⟨[], none⟩

/-- What has been written, ready for a new block. -/
def separated (sheet : Sheet) : List Char :=
  if sheet.text.isEmpty then [] else trimEnd sheet.text ++ ['\n', '\n']

/-- Where a text that starts at `location` ends; only its lines count. -/
def endOf (text : List Char) (location : Location) : Location :=
  (text.filter (· == '\n')).foldl (fun reached _ => reached.nextLine) location

/-- Whether a text at `location` continues the line that was written last. -/
def continues (sheet : Sheet) (location : Location) : Bool :=
  match sheet.lastInline with
  | some last => last.sameLine location
  | none => false

/-- Write one more text. -/
def add (sheet : Sheet) : Emission → Sheet
  | .block text =>
    if text.isEmpty then sheet else ⟨sheet.separated ++ text.toList, none⟩
  | .inline text location =>
    let before := if sheet.continues location then sheet.text else sheet.separated
    ⟨before ++ text.toList, some (endOf text.toList location)⟩

/-- The text of a sheet, which ends with a line end. -/
def finish (sheet : Sheet) : List Char :=
  if sheet.text.getLast? == some '\n' then sheet.text else sheet.text ++ ['\n']

end Sheet

/-- The text of some emissions, between two marks. -/
def layOut (emissions : List Emission) : String :=
  let all := .block generatedMark :: emissions ++ [.block generatedMark]
  String.ofList (all.foldl Sheet.add Sheet.empty).finish

/-- The text of a tree of sections; where there is nothing to say it is empty. -/
def render (table : Table) : Option Section → Except Fault String
  | none => .ok ""
  | some tree => (tree.emissions table).map layOut

end Bindery
