import Bindery.Source.Token

/-!
# `Form` — directives as trees

A form has an atom, at most one parameter, and sub-forms behind it. What a directive language shares with every other
is checked here: parentheses pair up, and a parameter comes once and before the sub-forms. Which forms may stand
where is the business of a grammar.

## Contents
- `Parameter`, `Form`, and access to sub-forms.
- `Item`: prose or a form at the outermost level.
- `readItems`: the items that a list of tokens spells.
-/

namespace Bindery

open Source

/-- The parameter of a form. -/
structure Parameter where
  text : String
  location : Location
deriving DecidableEq, Repr

/-- A directive: an atom, perhaps a parameter, and sub-forms. Its location is that of its opening parenthesis. -/
structure Form where
  atom : String
  location : Location
  parameter : Option Parameter
  children : List Form
deriving Repr

namespace Form

/-- The text of the parameter. -/
def parameterText? (form : Form) : Option String := form.parameter.map Parameter.text

/-- The text of the parameter, where the grammar asks for one. -/
def parameterText (form : Form) : String := form.parameterText?.getD ""

/-- Where the parameter stands, or else the form itself. -/
def parameterLocation (form : Form) : Location :=
  match form.parameter with
  | some parameter => parameter.location
  | none => form.location

/-- The first sub-form with the given atom. -/
def child? (form : Form) (atom : String) : Option Form := form.children.find? (·.atom == atom)

/-- All sub-forms with the given atom. -/
def childrenNamed (form : Form) (atom : String) : List Form :=
  form.children.filter (·.atom == atom)

/-- The form with one more sub-form at its end. -/
def addChild (form child : Form) : Form := { form with children := form.children ++ [child] }

end Form

/-- What stands at the outermost level of a document. -/
inductive Item where
  | prose (text : String) (location : Location)
  | form (form : Form)
deriving Repr

/-- The forms among some items. -/
def Item.forms : List Item → List Form
  | [] => []
  | .prose _ _ :: rest => forms rest
  | .form first :: rest => first :: forms rest

/-- The items that the tokens spell, with the forms of `opens` (innermost first) still growing. -/
def readItems (opens : List Form) : List Token → Except Fault (List Item)
  | [] =>
    match opens with
    | [] => .ok []
    | innermost :: _ => .error ⟨.formOpen innermost.atom, innermost.location⟩
  | .prose text location :: rest =>
    match opens with
    | [] => (readItems [] rest).map (.prose text location :: ·)
    | innermost :: _ => .error ⟨.proseInForm innermost.atom, innermost.location⟩
  | .atom text location :: rest => readItems (⟨text, location, none, []⟩ :: opens) rest
  | .parameter text location :: rest =>
    match opens with
    | [] => .error ⟨.parameterOutside, location⟩
    | innermost :: outer =>
      if !innermost.children.isEmpty then .error ⟨.parameterLate innermost.atom, location⟩
      else if innermost.parameter.isSome then .error ⟨.parameterRepeated innermost.atom, location⟩
      else readItems ({ innermost with parameter := some ⟨text, location⟩ } :: outer) rest
  | .close location :: rest =>
    match opens with
    | [] => .error ⟨.closeUnmatched, location⟩
    | [outermost] => (readItems [] rest).map (.form outermost :: ·)
    | innermost :: parent :: outer => readItems (parent.addChild innermost :: outer) rest

/-- The items of a document given as tokens. -/
def Item.ofTokens (tokens : List Token) : Except Fault (List Item) := readItems [] tokens

end Bindery
