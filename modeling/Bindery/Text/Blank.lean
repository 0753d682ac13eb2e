import Bindery.Text.Ranges

/-!
# `Text.Blank` — blank characters and trimming

Blank means the White_Space property: spaces of every width, tabs, line and paragraph separators.

## Contents
- `isBlank`, `isBlankText`.
- `trimStart`, `trimEnd`, `trim` on characters, `trimmed` on texts.
-/

namespace Bindery
namespace Text

/-- The code points with the White_Space property. -/
def blank : Ranges :=
  [(0x9, 0xD), (0x20, 0x20), (0x85, 0x85), (0xA0, 0xA0), (0x1680, 0x1680), (0x2000, 0x200A),
   (0x2028, 0x2029), (0x202F, 0x202F), (0x205F, 0x205F), (0x3000, 0x3000)]

/-- Whether `c` is white space. -/
def isBlank (c : Char) : Bool := blank.contains c.toNat

/-- Whether a text has no character that can be seen. -/
def isBlankText (text : String) : Bool := text.toList.all isBlank

/-- Drop the blank characters a text begins with. -/
def trimStart (cs : List Char) : List Char := cs.dropWhile isBlank

/-- Drop the blank characters a text ends with. -/
def trimEnd : List Char → List Char
  | [] => []
  | c :: rest =>
    match trimEnd rest with
    | [] => if isBlank c then [] else [c]
    | d :: kept => c :: d :: kept

/-- Drop the blank characters at both ends. -/
def trim (cs : List Char) : List Char := trimStart (trimEnd cs)

/-- A text without the blank characters at its ends. -/
def trimmed (text : String) : String := String.ofList (trim text.toList)

theorem trimEnd_eq_nil_iff {cs : List Char} : trimEnd cs = [] ↔ ∀ c ∈ cs, isBlank c = true := by
  induction cs with
  | nil => simp [trimEnd]
  | cons c rest ih =>
    simp only [trimEnd, List.mem_cons, forall_eq_or_imp]
    cases h : trimEnd rest with
    | nil =>
      have hrest := ih.1 h
      by_cases hc : isBlank c = true
      · simp only [hc, if_true, true_and, true_iff]; exact hrest
      · simp [hc]
    | cons d kept =>
      simp only [reduceCtorEq, false_iff, not_and]
      intro _ hrest
      rw [ih.2 hrest] at h
      cases h

end Text
end Bindery
