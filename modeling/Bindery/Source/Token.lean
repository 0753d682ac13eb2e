import Bindery.Source.Part

/-!
# `Source.Token` — the words of directives

A directive block is read as atoms, parameters and closing parentheses. An opening parenthesis is no token of its
own: it announces an atom, and the atom stands where the parenthesis does. A form that starts with `(*` is a remark
and leaves no trace.

## Contents
- `Token`.
- `skipRemark`, `readParameter`, `isAtomChar`: the lexical classes.
- `blockTokens`, `tokenize`.
-/

namespace Bindery
namespace Source

open Text

/-- A word of a document: prose as it stands, or a word of a directive block. -/
inductive Token where
  | prose (text : String) (location : Location)
  | atom (text : String) (location : Location)
  | parameter (text : String) (location : Location)
  | close (location : Location)
deriving DecidableEq, Repr

/-- Where a token stands. -/
def Token.location : Token → Location
  | .prose _ location => location
  | .atom _ location => location
  | .parameter _ location => location
  | .close location => location

/-- Whether `c` can be part of an atom. -/
def isAtomChar (c : Char) : Bool := !isBlank c && c != '(' && c != ')'

/-- Whether a backslash before `c` is taken away in a parameter. -/
def isEscapable (c : Char) : Bool := c == '(' || c == ')' || c == '\\'

/-- The rest of a remark that was opened at `opener`, with `depth` parentheses open inside it; what follows it. -/
def skipRemark (opener : Location) (depth : Nat) : List Glyph → Except Fault (List Glyph)
  | [] => .error ⟨.remarkOpen, opener⟩
  | g :: rest =>
    if g.char = '\\' then
      match rest with
      | [] => .error ⟨.remarkOpen, opener⟩
      | _ :: rest => skipRemark opener depth rest
    else if g.char = '(' then skipRemark opener (depth + 1) rest
    else if g.char = ')' then
      match depth with
      | 0 => .ok rest
      | depth + 1 => skipRemark opener depth rest
    else skipRemark opener depth rest

/-- What follows a remark is shorter than what it was read from. -/
theorem length_of_skipRemark {opener : Location} {depth : Nat} {gs rest : List Glyph}
    (h : skipRemark opener depth gs = .ok rest) : rest.length < gs.length := by
  fun_induction skipRemark opener depth gs with
  | case1 | case2 => cases h
  | case5 g rest' =>
    cases h
    simp
  | case3 depth g _ _ rest' ih | case4 depth g rest' _ _ ih | case6 g rest' _ _ _ depth ih
  | case7 depth g rest' _ _ _ ih =>
    have := ih h
    simp only [List.length_cons]
    omega

/-- Put characters in front of what was read. -/
def prependChars (cs : List Char) (read : List Char × List Glyph) : List Char × List Glyph :=
  (cs ++ read.1, read.2)

/-- What a backslash and the character after it stand for in a parameter. -/
def unescape (taken : Char) : List Char := if isEscapable taken then [taken] else ['\\', taken]

/-- A parameter up to the next parenthesis, and what follows. A backslash before a parenthesis or a backslash stands for
that character; any other backslash stands for itself. -/
def readParameter : List Glyph → List Char × List Glyph
  | [] => ([], [])
  | g :: rest =>
    if g.char = '(' ∨ g.char = ')' then ([], g :: rest)
    else if g.char = '\\' then
      match rest with
      | [] => (['\\'], [])
      | taken :: rest => prependChars (unescape taken.char) (readParameter rest)
    else prependChars [g.char] (readParameter rest)

/-- What follows a parameter is no longer than what it was read from. -/
theorem length_readParameter_le (gs : List Glyph) : (readParameter gs).2.length ≤ gs.length := by
  fun_induction readParameter gs <;> simp_all [prependChars] <;> omega

/-- A parameter takes at least one character that is no parenthesis. -/
theorem length_readParameter_lt {g : Glyph} {rest : List Glyph} (ho : g.char ≠ '(')
    (hc : g.char ≠ ')') : (readParameter (g :: rest)).2.length < (g :: rest).length := by
  unfold readParameter
  simp only [ho, hc, or_self, if_false]
  split
  · cases rest with
    | nil => simp
    | cons taken rest =>
      have := length_readParameter_le rest
      simp only [List.length_cons, prependChars]
      omega
  · have := length_readParameter_le rest
    simp only [List.length_cons, prependChars]
    omega

/-- The tokens of a block. `pending` is an opening parenthesis whose atom has not come yet. -/
def blockTokens (pending : Option Location) (gs : List Glyph) : Except Fault (List Token) :=
  match gs with
  | [] =>
    match pending with
    | some opener => .error ⟨.atomMissing, opener⟩
    | none => .ok []
  | g :: rest =>
    if isBlank g.char then blockTokens pending rest
    else if startsWith ['(', '*'] (g :: rest) then
      match _h : skipRemark g.location 0 (rest.drop 1) with
      | .error fault => .error fault
      | .ok after => blockTokens pending after
    else if _ho : g.char = '(' then
      match pending with
      | some opener => .error ⟨.atomMissing, opener⟩
      | none => blockTokens (some g.location) rest
    else if _hc : g.char = ')' then
      match pending with
      | some opener => .error ⟨.parenthesesEmpty, opener⟩
      | none => (blockTokens none rest).map (.close g.location :: ·)
    else
      match pending with
      | some opener =>
        (blockTokens none (rest.dropWhile (isAtomChar ·.char))).map
          (.atom (textOf (g :: rest.takeWhile (isAtomChar ·.char))) opener :: ·)
      | none =>
        (blockTokens none (readParameter (g :: rest)).2).map
          (.parameter (String.ofList (trimEnd (readParameter (g :: rest)).1)) g.location :: ·)
termination_by gs.length
decreasing_by
  · simp
  · have := length_of_skipRemark _h
    simp only [List.length_drop, List.length_cons] at this ⊢
    omega
  · simp
  · simp
  · have := (List.dropWhile_suffix (isAtomChar ·.char) (l := rest)).length_le
    simp only [List.length_cons]
    omega
  · exact length_readParameter_lt _ho _hc

/-- The tokens of the parts of a document, in order. -/
def tokenize : List Part → Except Fault (List Token)
  | [] => .ok []
  | .prose text location :: parts => (tokenize parts).map (.prose text location :: ·)
  | .block text location :: parts => do
    let first ← blockTokens none (glyphs location text.toList)
    let others ← tokenize parts
    return first ++ others

end Source
end Bindery
