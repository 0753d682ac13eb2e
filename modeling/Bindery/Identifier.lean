import Bindery.Form

/-!
# `Identifier` — names by which documents and sections refer to each other

An id is written in lower kebab case: words of small ASCII letters and digits, with single hyphens between them.

## Contents
- `isId`.
- `Form.readId`: the id that a form gives.
-/

namespace Bindery

/-- Whether `c` can be part of a word of an id. -/
def isIdChar (c : Char) : Bool := ('a' ≤ c && c ≤ 'z') || ('0' ≤ c && c ≤ '9')

/-- Whether the characters finish an id; `inWord` says whether a word has begun. -/
def finishesId (inWord : Bool) : List Char → Bool
  | [] => inWord
  | c :: rest =>
    if isIdChar c then finishesId true rest else c == '-' && inWord && finishesId false rest

/-- Whether a text is an id. -/
def isId (text : String) : Bool := finishesId false text.toList

/-- The id that a form gives as its parameter. -/
def Form.readId (form : Form) : Except Fault String :=
  let id := Text.trimmed form.parameterText
  if isId id then .ok id else .error ⟨.idInvalid id, form.parameterLocation⟩

end Bindery
