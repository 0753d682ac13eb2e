import Bindery.Form

/-!
# `Grammar` — which forms may stand where

A grammar is a tree of rules. A rule says which atoms it governs, whether they take a parameter, and which rules govern
the sub-forms, each with how often it may be used. A form is governed by the first rule that matches its atom.

## Contents
- `Matcher`, `ParameterUse`, `Occurrence`, `Rule`, `Grammar`.
- `Grammar.check`: the first fault of a list of items, if any.
-/

namespace Bindery

open Text

/-- The atoms that a rule governs. -/
inductive Matcher where
  /-- One atom only. -/
  | exact (name : String)
  /-- One or more number signs. -/
  | heading
  /-- Every atom. -/
  | anyAtom
deriving DecidableEq, Repr

/-- Whether an atom is among those a rule governs. -/
def Matcher.accepts : Matcher → String → Bool
  | .exact name, atom => name == atom
  | .heading, atom => !atom.isEmpty && atom.toList.all (· == '#')
  | .anyAtom, atom => !atom.isEmpty

/-- Whether a form takes a parameter. -/
inductive ParameterUse where
  | never
  | optional
  | required
deriving DecidableEq, Repr

/-- How often a form may appear inside its parent. -/
inductive Occurrence where
  | once
  | atMostOnce
  | many
  | atLeastOnce
deriving DecidableEq, Repr

/-- Whether one has to be there. -/
def Occurrence.isMandatory : Occurrence → Bool
  | .once | .atLeastOnce => true
  | .atMostOnce | .many => false

/-- Whether a second one is too much. -/
def Occurrence.isSingle : Occurrence → Bool
  | .once | .atMostOnce => true
  | .many | .atLeastOnce => false

/-- What is required of the forms that a matcher accepts. The name is used in messages. -/
structure Rule where
  name : String
  matcher : Matcher
  parameter : ParameterUse
  children : List (Rule × Occurrence)
deriving Repr

/-- A rule for a single atom. -/
def Rule.exactly (name : String) (parameter : ParameterUse)
    (children : List (Rule × Occurrence)) : Rule :=
  ⟨name, .exact name, parameter, children⟩

/-- A directive language: the forms at its outermost level, and whether prose may stand between them. -/
structure Grammar where
  name : String
  allowsProse : Bool
  root : List (Rule × Occurrence)
deriving Repr

/-- The first rule that matches an atom, with its number among the rules. -/
def governing? (rules : List (Rule × Occurrence)) (atom : String) :
    Option ((Rule × Occurrence) × Nat) :=
  rules.zipIdx.find? fun entry => entry.1.1.matcher.accepts atom

/-- The first rule that has to be used and whose number is not among `used`. -/
def unused? (rules : List (Rule × Occurrence)) (used : List Nat) : Option Rule :=
  (rules.zipIdx.find? fun entry => entry.1.2.isMandatory && !used.contains entry.2).map (·.1.1)

/-- A form has a parameter where one is required and none where one is refused. -/
def ParameterUse.check (use : ParameterUse) (atom : String) (location : Location) :
    Option Parameter → Except Fault Unit
  | none => if use = .required then .error ⟨.parameterRequired atom, location⟩ else .ok ()
  | some parameter =>
    if use = .never then .error ⟨.parameterRefused atom, parameter.location⟩ else .ok ()

/-- Every mandatory rule has been used. -/
def checkUsed (parent : String) (location : Location) (rules : List (Rule × Occurrence))
    (used : List Nat) : Except Fault Unit :=
  match unused? rules used with
  | some rule => .error ⟨.formRequired rule.name parent, location⟩
  | none => .ok ()

mutual

/-- Check a form against the rule that governs it. -/
def Rule.check (rule : Rule) : Form → Except Fault Unit
  | ⟨atom, location, parameter, children⟩ => do
    rule.parameter.check atom location parameter
    match rule.children, children with
    | [], [] => .ok ()
    | [], child :: _ => .error ⟨.childrenRefused atom, child.location⟩
    | rules, children => checkForms atom location rules [] children

/-- Check forms in order against the rules of their parent, of which those numbered in `used` have been used before. -/
def checkForms (parent : String) (location : Location) (rules : List (Rule × Occurrence))
    (used : List Nat) : List Form → Except Fault Unit
  | [] => checkUsed parent location rules used
  | form :: others =>
    match governing? rules form.atom with
    | none => .error ⟨.formUnknown form.atom parent, form.location⟩
    | some ((rule, occurrence), number) =>
      if occurrence.isSingle && used.contains number then
        .error ⟨.formRepeated rule.name parent, form.location⟩
      else do
        rule.check form
        checkForms parent location rules (number :: used) others

end

namespace Grammar

/-- No prose but blank prose stands among the items. -/
def checkProse (name : String) : List Item → Except Fault Unit
  | [] => .ok ()
  | .prose text location :: rest =>
    if isBlankText text then checkProse name rest else .error ⟨.proseRefused name, location⟩
  | .form _ :: rest => checkProse name rest

/-- Check the items of a document. What the document as a whole lacks is reported at `start`. -/
def check (grammar : Grammar) (start : Location) (items : List Item) : Except Fault Unit := do
  if grammar.allowsProse then .ok () else checkProse grammar.name items
  checkForms grammar.name start grammar.root [] (Item.forms items)

end Grammar
end Bindery
