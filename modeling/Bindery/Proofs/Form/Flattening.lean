import Bindery.Proofs.Form.Spelling

/-!
# `Proofs.Form.Flattening` — reading tokens undoes flattening items

The tokens of an item can be written down without any stack: prose is its own token, and a form is its atom, its
parameter if it has one, the tokens of its sub-forms and a closing parenthesis. Where that parenthesis stands is the one
thing that a form does not keep. Up to this, reading tokens is the inverse of writing them down: a list of tokens is
read as some items exactly if it is the list that these items are written as.

## Contents
- `SameTokens`: tokens that differ in the places of closing parentheses only.
- `Form.tokens`, `flatten`; `readItems_flatten`: the tokens of items are read as these items.
- `growing`, `sameTokens_of_readItems`: what is read has come from the tokens of items.
- `ofTokens_inverts_flatten`.
-/

namespace Bindery

open Source

/-! ## Tokens up to the places of closing parentheses -/

/-- A token, with all closing parentheses taken for the same. -/
def Source.Token.unlessClosing : Token → Option Token
  | .close _ => none
  | token => some token

/-- The tokens are the same, in the same order, but closing parentheses may stand anywhere. -/
def SameTokens (tokens others : List Token) : Prop :=
  tokens.map Token.unlessClosing = others.map Token.unlessClosing

instance (tokens others : List Token) : Decidable (SameTokens tokens others) :=
  inferInstanceAs (Decidable (tokens.map Token.unlessClosing = others.map Token.unlessClosing))

namespace SameTokens

variable {tokens others : List Token}

theorem refl (tokens : List Token) : SameTokens tokens tokens := rfl

theorem symm (h : SameTokens tokens others) : SameTokens others tokens := Eq.symm h

theorem trans {more : List Token} (h : SameTokens tokens others) (h' : SameTokens others more) :
    SameTokens tokens more := Eq.trans h h'

theorem append_left (before : List Token) (h : SameTokens tokens others) :
    SameTokens (before ++ tokens) (before ++ others) := by
  unfold SameTokens at *
  rw [List.map_append, List.map_append, h]

theorem close (here there : Location) (h : SameTokens tokens others) :
    SameTokens (.close here :: tokens) (.close there :: others) := by
  unfold SameTokens at *
  rw [List.map_cons, List.map_cons, h]
  rfl

theorem exists_of_cons {token : Token} (h : SameTokens (token :: tokens) others) :
    ∃ other more, others = other :: more ∧ token.unlessClosing = other.unlessClosing ∧
      SameTokens tokens more := by
  cases others with
  | nil => cases h
  | cons other more =>
    obtain ⟨htoken, hrest⟩ := List.cons.inj h
    exact ⟨other, more, rfl, htoken, hrest⟩

end SameTokens

/-- Where closing parentheses stand is never looked at. -/
theorem readItems_of_sameTokens {opens : List Form} {tokens others : List Token} {items : List Item}
    (h : readItems opens tokens = .ok items) (hsame : SameTokens tokens others) :
    readItems opens others = .ok items := by
  fun_induction readItems opens tokens generalizing others items with
  | case1 =>
    cases others with
    | nil => exact h
    | cons => cases hsame
  | case2 | case4 | case6 | case7 | case8 | case10 => cases h
  | case3 text location rest ih =>
    obtain ⟨other, more, rfl, htoken, hrest⟩ := hsame.exists_of_cons
    cases other <;> cases htoken
    obtain ⟨found, hfound, rfl⟩ := except_map_eq_ok.1 h
    rw [readItems, ih hfound hrest]
    rfl
  | case5 opens text location rest ih =>
    obtain ⟨other, more, rfl, htoken, hrest⟩ := hsame.exists_of_cons
    cases other <;> cases htoken
    exact ih h hrest
  | case9 text location rest innermost outer hchildren hparameter ih =>
    obtain ⟨other, more, rfl, htoken, hrest⟩ := hsame.exists_of_cons
    cases other <;> cases htoken
    rw [readItems, if_neg hchildren, if_neg hparameter]
    exact ih h hrest
  | case11 location rest outermost ih =>
    obtain ⟨other, more, rfl, htoken, hrest⟩ := hsame.exists_of_cons
    cases other <;> cases htoken
    obtain ⟨found, hfound, rfl⟩ := except_map_eq_ok.1 h
    rw [readItems, ih hfound hrest]
    rfl
  | case12 location rest innermost parent outer ih =>
    obtain ⟨other, more, rfl, htoken, hrest⟩ := hsame.exists_of_cons
    cases other <;> cases htoken
    exact ih h hrest

/-! ## The tokens of items -/

mutual

/-- The tokens of a form. The closing parenthesis is put where the form begins. -/
def Form.tokens : Form → List Token
  | ⟨atom, location, parameter, children⟩ =>
    .atom atom location ::
      (parameterTokens parameter ++ (Form.tokensOfAll children ++ [.close location]))

/-- The tokens of forms in order. -/
def Form.tokensOfAll : List Form → List Token
  | [] => []
  | form :: rest => form.tokens ++ Form.tokensOfAll rest

end

/-- The tokens of an item. -/
def Item.tokens : Item → List Token
  | .prose text location => [.prose text location]
  | .form directive => directive.tokens

/-- The tokens of items in order. -/
def flatten (items : List Item) : List Token := items.flatMap Item.tokens

theorem Form.tokensOfAll_append (forms more : List Form) :
    Form.tokensOfAll (forms ++ more) = Form.tokensOfAll forms ++ Form.tokensOfAll more := by
  induction forms with
  | nil => rfl
  | cons form rest ih => simp [Form.tokensOfAll, ih]

theorem spells_tokensOfAll : (forms : List Form) → Spells forms (Form.tokensOfAll forms)
  | [] => .nil
  | ⟨atom, location, parameter, children⟩ :: rest => by
    have hspells : Spells (⟨atom, location, parameter, children⟩ :: rest) _ :=
      .cons location (spells_tokensOfAll children) (spells_tokensOfAll rest)
    simpa [Form.tokensOfAll, Form.tokens] using hspells

theorem spells_tokens (form : Form) : Spells [form] form.tokens := by
  have hspells := spells_tokensOfAll [form]
  rwa [Form.tokensOfAll, Form.tokensOfAll, List.append_nil] at hspells

/-- **The tokens of items are read as these items.** -/
theorem readItems_flatten (items : List Item) : readItems [] (flatten items) = .ok items := by
  induction items with
  | nil => rfl
  | cons item rest ih =>
    rw [flatten, List.flatMap_cons, ← flatten]
    cases item with
    | prose text location =>
      rw [Item.tokens, List.singleton_append, readItems, ih]
      rfl
    | form form =>
      rw [Item.tokens, (spells_tokens form).readItems_outermost, ih]
      rfl

/-! ## What was read -/

/-- The tokens of a form that is not closed yet. -/
def Form.opened (form : Form) : List Token :=
  .atom form.atom form.location :: (parameterTokens form.parameter ++ Form.tokensOfAll form.children)

theorem Form.tokens_eq (form : Form) : form.tokens = form.opened ++ [.close form.location] := by
  obtain ⟨atom, location, parameter, children⟩ := form
  simp [Form.tokens, Form.opened]

theorem Form.opened_addChild (form child : Form) :
    (form.addChild child).opened = form.opened ++ child.tokens := by
  simp [Form.opened, Form.addChild, Form.tokensOfAll_append, Form.tokensOfAll]

/-- The tokens that growing forms (innermost first) have come from. -/
def growing : List Form → List Token
  | [] => []
  | innermost :: outer => growing outer ++ innermost.opened

/-- **Items that are read have come from their tokens**: at every point, the tokens that are left complete those of the
forms that are still growing. -/
theorem sameTokens_of_readItems {opens : List Form} {tokens : List Token} {items : List Item}
    (h : readItems opens tokens = .ok items) :
    SameTokens (growing opens ++ tokens) (flatten items) := by
  fun_induction readItems opens tokens generalizing items with
  | case1 =>
    cases h
    rfl
  | case2 | case4 | case6 | case7 | case8 | case10 => cases h
  | case3 text location rest ih =>
    obtain ⟨found, hfound, rfl⟩ := except_map_eq_ok.1 h
    have hrest : SameTokens rest (flatten found) := ih hfound
    exact hrest.append_left [.prose text location]
  | case5 opens text location rest ih =>
    have hgrown := ih h
    simpa [growing, Form.opened, parameterTokens, Form.tokensOfAll] using hgrown
  | case9 text location rest innermost outer hchildren hparameter ih =>
    have hgrown := ih h
    -- the form has neither a parameter nor sub-forms, so its tokens end with its atom
    obtain ⟨atom, place, parameter, children⟩ := innermost
    obtain rfl : parameter = none := by simpa using hparameter
    obtain rfl : children = [] := by simpa using hchildren
    simpa [growing, Form.opened, parameterTokens, Form.tokensOfAll] using hgrown
  | case11 location rest outermost ih =>
    obtain ⟨found, hfound, rfl⟩ := except_map_eq_ok.1 h
    have hrest : SameTokens rest (flatten found) := ih hfound
    have hclosed := (hrest.close location outermost.location).append_left outermost.opened
    simpa [growing, flatten, Item.tokens, Form.tokens_eq] using hclosed
  | case12 location rest innermost parent outer ih =>
    have hgrown := ih h
    rw [growing, Form.opened_addChild, Form.tokens_eq] at hgrown
    have hclosed := ((SameTokens.refl rest).close location innermost.location).append_left
      (growing outer ++ (parent.opened ++ innermost.opened))
    refine SameTokens.trans ?_ hgrown
    simpa [growing] using hclosed

/-- Tokens are read as some items exactly if they are the tokens of these items. -/
theorem ofTokens_iff_sameTokens {tokens : List Token} {items : List Item} :
    Item.ofTokens tokens = .ok items ↔ SameTokens tokens (flatten items) := by
  constructor
  · intro h
    exact sameTokens_of_readItems h
  · intro h
    exact readItems_of_sameTokens (readItems_flatten items) h.symm

/-- **Reading tokens is the inverse of flattening items.** Tokens are read as some items exactly if they are the tokens
of these items, wherever their closing parentheses stand; so the tokens that can be read are those of lists of items, and
no tokens belong to two lists. -/
theorem ofTokens_inverts_flatten (tokens : List Token) :
    (∀ items, Item.ofTokens tokens = .ok items ↔ SameTokens tokens (flatten items)) ∧
      ((∃ items, Item.ofTokens tokens = .ok items) ↔ ∃ items, SameTokens tokens (flatten items)) ∧
      ∀ items others, SameTokens tokens (flatten items) → SameTokens tokens (flatten others) →
        items = others := by
  refine ⟨fun items => ofTokens_iff_sameTokens, exists_congr fun items => ofTokens_iff_sameTokens, ?_⟩
  intro items others hitems hothers
  have hfirst := ofTokens_iff_sameTokens.2 hitems
  have hsecond := ofTokens_iff_sameTokens.2 hothers
  exact Except.ok.inj (hfirst.symm.trans hsecond)

end Bindery
