import Bindery.Form
import Bindery.Proofs.Success

/-!
# `Proofs.Form.Spelling` — the tokens of forms

A form is spelled by its atom, its parameter if it has one, the tokens of its sub-forms and a closing parenthesis, which
may stand anywhere. Reading the tokens of some forms gives these forms back, whatever forms are still growing around
them.

## Contents
- `Spells`: the tokens of forms in order.
- `Spells.readItems_eq`: reading them inside of a growing form.
- `Spells.readItems_outermost`, `Spells.ofTokens_eq`: reading them at the outermost level.
-/

namespace Bindery

open Source

/-- The token of a parameter, if there is one. -/
def parameterTokens : Option Parameter → List Token
  | none => []
  | some parameter => [.parameter parameter.text parameter.location]

/-- The tokens of forms in order. -/
inductive Spells : List Form → List Token → Prop where
  | nil : Spells [] []
  | cons {atom : String} {location : Location} (closing : Location) {parameter : Option Parameter}
      {children rest : List Form} {tokens more : List Token} (hchildren : Spells children tokens)
      (hrest : Spells rest more) :
      Spells (⟨atom, location, parameter, children⟩ :: rest)
        (.atom atom location :: (parameterTokens parameter ++ (tokens ++ .close closing :: more)))

/-- The form with some more sub-forms at its end. -/
def Form.addChildren (form : Form) (children : List Form) : Form :=
  { form with children := form.children ++ children }

@[simp] theorem Form.addChildren_nil (form : Form) : form.addChildren [] = form := by
  cases form
  simp [addChildren]

theorem Form.addChildren_cons (form child : Form) (children : List Form) :
    form.addChildren (child :: children) = (form.addChild child).addChildren children := by
  simp [addChild, addChildren]

/-- After its atom, a form takes up its parameter. -/
theorem readItems_parameter (atom : String) (location : Location) (parameter : Option Parameter)
    (opens : List Form) (rest : List Token) :
    readItems (⟨atom, location, none, []⟩ :: opens) (parameterTokens parameter ++ rest) =
      readItems (⟨atom, location, parameter, []⟩ :: opens) rest := by
  cases parameter <;> rfl

/-- The tokens of forms inside of a growing form make it grow by these forms. -/
theorem Spells.readItems_eq {forms : List Form} {tokens : List Token} (h : Spells forms tokens)
    (parent : Form) (outer : List Form) (rest : List Token) :
    readItems (parent :: outer) (tokens ++ rest) =
      readItems (parent.addChildren forms :: outer) rest := by
  induction h generalizing parent outer rest with
  | nil => rw [Form.addChildren_nil, List.nil_append]
  | @cons atom location closing parameter children others tokens more _ _ ihChildren ihOthers =>
    -- the form grows on top of its parent until it is closed, and its siblings come after it
    calc readItems (parent :: outer) _
        = readItems (⟨atom, location, none, []⟩ :: parent :: outer)
            (parameterTokens parameter ++ (tokens ++ .close closing :: (more ++ rest))) := by
          simp [readItems]
      _ = readItems (⟨atom, location, parameter, children⟩ :: parent :: outer)
            (.close closing :: (more ++ rest)) := by
          rw [readItems_parameter, ihChildren]
          rfl
      _ = readItems ((parent.addChild ⟨atom, location, parameter, children⟩).addChildren others
            :: outer) rest := ihOthers _ outer rest
      _ = _ := by rw [Form.addChildren_cons]

/-- At the outermost level, the tokens of forms give these forms, whatever follows them. -/
theorem Spells.readItems_outermost {forms : List Form} {tokens : List Token}
    (h : Spells forms tokens) (rest : List Token) :
    readItems [] (tokens ++ rest) = (readItems [] rest).map (forms.map .form ++ ·) := by
  induction h with
  | nil => cases hrest : readItems [] rest <;> simp [hrest, Except.map]
  | @cons atom location closing parameter children others tokens more hchildren _ _ ihOthers =>
    calc readItems [] _
        = readItems [⟨atom, location, parameter, children⟩] (.close closing :: (more ++ rest)) := by
          rw [List.cons_append, readItems, List.append_assoc, readItems_parameter,
            List.append_assoc, hchildren.readItems_eq]
          rfl
      _ = (readItems [] (more ++ rest)).map (.form ⟨atom, location, parameter, children⟩ :: ·) := rfl
      _ = _ := by
          rw [ihOthers, except_map_map]
          rfl

/-- **Reading the tokens of forms gives the forms back.** -/
theorem Spells.ofTokens_eq {forms : List Form} {tokens : List Token} (h : Spells forms tokens) :
    Item.ofTokens tokens = .ok (forms.map .form) := by
  have hread := h.readItems_outermost []
  rw [List.append_nil] at hread
  rw [Item.ofTokens, hread]
  simp [readItems, Except.map]

end Bindery
