import Bindery.Grammar
import Bindery.Proofs.Displacement.Token

/-!
# `Proofs.Displacement.Form` — forms of displaced tokens

Tokens at other locations spell the same items, moved, and the grammar accepts these if it accepted the others. At the end
stands what all this is for: the items of a document at any depth and index are those of the same document at any other.

## Contents
- `Form.displace`, `Item.displace`, `ofTokens_displace`.
- `Grammar.check_displace`.
- `documentItems`: the items of a document given as text; `documentItems_displace`,
  `document_of_mem_documentTokens`, `displace_of_mem_documentItems`.
-/

namespace Bindery

open Source

/-- A parameter at its moved location. -/
def Parameter.displace (d : Displacement) (parameter : Parameter) : Parameter :=
  ⟨parameter.text, d.move parameter.location⟩

mutual

/-- A form at its moved location, with all its sub-forms. -/
def Form.displace (d : Displacement) : Form → Form
  | ⟨atom, location, parameter, children⟩ =>
    ⟨atom, d.move location, parameter.map (Parameter.displace d), Form.displaceAll d children⟩

/-- Forms at their moved locations. -/
def Form.displaceAll (d : Displacement) : List Form → List Form
  | [] => []
  | form :: rest => form.displace d :: Form.displaceAll d rest

end

namespace Form

/-- The sub-forms are moved one by one. -/
theorem displaceAll_eq_map (d : Displacement) (forms : List Form) :
    displaceAll d forms = forms.map (displace d) := by
  induction forms with
  | nil => rfl
  | cons form rest ih => rw [displaceAll, ih]; rfl

@[simp] theorem atom_displace (d : Displacement) (form : Form) :
    (form.displace d).atom = form.atom := by
  cases form; rfl

@[simp] theorem location_displace (d : Displacement) (form : Form) :
    (form.displace d).location = d.move form.location := by
  cases form; rfl

@[simp] theorem parameter_displace (d : Displacement) (form : Form) :
    (form.displace d).parameter = form.parameter.map (Parameter.displace d) := by
  cases form; rfl

@[simp] theorem children_displace (d : Displacement) (form : Form) :
    (form.displace d).children = form.children.map (displace d) := by
  cases form
  exact displaceAll_eq_map d _

@[simp] theorem parameterText_displace (d : Displacement) (form : Form) :
    (form.displace d).parameterText = form.parameterText := by
  simp only [parameterText, parameterText?, parameter_displace, Option.map_map]
  rfl

/-- A sub-form is looked up by its atom, and found where it was moved to. -/
theorem child?_displace (d : Displacement) (form : Form) (atom : String) :
    (form.displace d).child? atom = (form.child? atom).map (displace d) := by
  simp only [child?, children_displace, List.find?_map, Function.comp_def, atom_displace]

/-- A form grows by a sub-form before both are moved, or after. -/
theorem addChild_displace (d : Displacement) (form child : Form) :
    (form.displace d).addChild (child.displace d) = (form.addChild child).displace d := by
  obtain ⟨atom, location, parameter, children⟩ := form
  simp [addChild, displace, displaceAll_eq_map]

end Form

/-- An item at its moved location. -/
def Item.displace (d : Displacement) : Item → Item
  | .prose text location => .prose text (d.move location)
  | .form root => .form (root.displace d)

/-- The open forms are moved along with the tokens that are still to be read. -/
theorem readItems_displace (d : Displacement) (opens : List Form) (tokens : List Token) :
    readItems (opens.map (Form.displace d)) (tokens.map (Token.displace d)) =
      displaceResult d (List.map (Item.displace d)) (readItems opens tokens) := by
  fun_induction readItems opens tokens with
  | case1 => rfl
  | case2 innermost outer => simp [readItems, Fault.displace]
  | case3 text location rest ih =>
    show Except.map _ (readItems ([].map (Form.displace d)) (rest.map (Token.displace d))) = _
    rw [ih]
    refine displaceResult_map (fun items => ?_) _
    rfl
  | case4 text location rest innermost outer => simp [readItems, Token.displace, Fault.displace]
  | case5 opens text location rest ih => exact ih
  | case6 text location rest => rfl
  | case7 text location rest innermost outer hlate =>
    simp_all [readItems, Token.displace, Fault.displace]
  | case8 text location rest innermost outer hlate htwice =>
    simp_all [readItems, Token.displace, Fault.displace]
  | case9 text location rest innermost outer hlate htwice ih =>
    have hgrown : { innermost.displace d with parameter := some ⟨text, d.move location⟩ } =
        Form.displace d { innermost with parameter := some ⟨text, location⟩ } := by
      cases innermost; rfl
    have hlate' : ¬(!(innermost.displace d).children.isEmpty) = true := by
      rwa [Form.children_displace, List.isEmpty_map]
    have htwice' : ¬(innermost.displace d).parameter.isSome = true := by
      rwa [Form.parameter_displace, Option.isSome_map]
    rw [List.map_cons, List.map_cons, Token.displace, readItems, if_neg hlate', if_neg htwice',
      hgrown]
    exact ih
  | case10 location rest => rfl
  | case11 location rest outermost ih =>
    show Except.map _ (readItems ([].map (Form.displace d)) (rest.map (Token.displace d))) = _
    rw [ih]
    refine displaceResult_map (fun items => ?_) _
    rfl
  | case12 location rest innermost parent outer ih =>
    show readItems ((parent.displace d).addChild (innermost.displace d) :: _) _ = _
    rw [Form.addChild_displace]
    exact ih

/-- **The items of moved tokens are the items of the tokens, moved.** -/
theorem ofTokens_displace (d : Displacement) (tokens : List Token) :
    Item.ofTokens (tokens.map (Token.displace d)) =
      displaceResult d (List.map (Item.displace d)) (Item.ofTokens tokens) :=
  readItems_displace d [] tokens

/-- The forms among moved items are the moved forms. -/
theorem Item.forms_displace (d : Displacement) (items : List Item) :
    Item.forms (items.map (Item.displace d)) = (Item.forms items).map (Form.displace d) := by
  induction items with
  | nil => rfl
  | cons item rest ih =>
    cases item with
    | prose text location => exact ih
    | form first => exact congrArg (first.displace d :: ·) ih

/-! ## The grammar -/

/-- Whether there is a parameter does not depend on its location. -/
theorem ParameterUse.check_displace (d : Displacement) (use : ParameterUse) (atom : String)
    (location : Location) (parameter : Option Parameter) :
    use.check atom (d.move location) (parameter.map (Parameter.displace d)) =
      displaceResult d id (use.check atom location parameter) := by
  cases parameter with
  | none =>
    show (if use = .required then _ else _) = displaceResult d id (if use = .required then _ else _)
    split <;> rfl
  | some parameter =>
    show (if use = .never then _ else _) = displaceResult d id (if use = .never then _ else _)
    split <;> rfl

theorem checkUsed_displace (d : Displacement) (parent : String) (location : Location)
    (rules : List (Rule × Occurrence)) (used : List Nat) :
    checkUsed parent (d.move location) rules used =
      displaceResult d id (checkUsed parent location rules used) := by
  unfold checkUsed
  split <;> rfl

/-- A form is checked for its parameter first, then for its sub-forms. -/
theorem Rule.check_mk (rule : Rule) (atom : String) (location : Location)
    (parameter : Option Parameter) (children : List Form) :
    rule.check ⟨atom, location, parameter, children⟩ =
      (rule.parameter.check atom location parameter).bind fun _ =>
        match rule.children, children with
        | [], [] => .ok ()
        | [], child :: _ => .error ⟨.childrenRefused atom, child.location⟩
        | rules, children => checkForms atom location rules [] children := by
  rw [Rule.check.eq_def]
  rfl

mutual

/-- A rule is kept by a moved form exactly if it is kept by the form, and the fault is moved otherwise. -/
theorem Rule.check_displace (d : Displacement) (rule : Rule) :
    (form : Form) → rule.check (form.displace d) = displaceResult d id (rule.check form)
  | ⟨atom, location, parameter, children⟩ => by
    have hforms := checkForms_displace d atom location rule.children [] children
    rw [Form.displace, Rule.check_mk, Rule.check_mk, ParameterUse.check_displace]
    refine displaceResult_bind (fun _ => ?_) _
    cases hrules : rule.children with
    | nil =>
      cases children with
      | nil => rfl
      | cons child rest =>
        show Except.error (Fault.mk (.childrenRefused atom) (child.displace d).location) = _
        rw [Form.location_displace]
        rfl
    | cons first rules =>
      rw [hrules] at hforms
      exact hforms

theorem checkForms_displace (d : Displacement) (parent : String) (location : Location)
    (rules : List (Rule × Occurrence)) (used : List Nat) :
    (forms : List Form) → checkForms parent (d.move location) rules used (Form.displaceAll d forms) =
      displaceResult d id (checkForms parent location rules used forms)
  | [] => checkUsed_displace d parent location rules used
  | form :: others => by
    rw [Form.displaceAll, checkForms, checkForms, Form.atom_displace, Form.location_displace]
    cases governing? rules form.atom with
    | none => rfl
    | some governor =>
      obtain ⟨⟨rule, occurrence⟩, number⟩ := governor
      dsimp only
      split
      · rfl
      · rw [Rule.check_displace d rule form]
        refine displaceResult_bind (fun _ => ?_) _
        exact checkForms_displace d parent location rules (number :: used) others

end

theorem Grammar.checkProse_displace (d : Displacement) (name : String) (items : List Item) :
    Grammar.checkProse name (items.map (Item.displace d)) =
      displaceResult d id (Grammar.checkProse name items) := by
  induction items with
  | nil => rfl
  | cons item rest ih =>
    cases item with
    | form first => exact ih
    | prose text location =>
      rw [List.map_cons, Item.displace, Grammar.checkProse, Grammar.checkProse]
      split
      · exact ih
      · rfl

/-- Items are checked for prose first, then for their forms. -/
theorem Grammar.check_eq (grammar : Grammar) (start : Location) (items : List Item) :
    grammar.check start items =
      (if grammar.allowsProse then .ok () else Grammar.checkProse grammar.name items).bind
        fun _ => checkForms grammar.name start grammar.root [] (Item.forms items) := by
  unfold Grammar.check
  split <;> rfl

/-- **The grammar accepts moved items exactly if it accepts the items**, and blames the moved location otherwise. -/
theorem Grammar.check_displace (d : Displacement) (grammar : Grammar) (start : Location)
    (items : List Item) :
    grammar.check (d.move start) (items.map (Item.displace d)) =
      displaceResult d id (grammar.check start items) := by
  have hprose : (if grammar.allowsProse = true then .ok ()
      else Grammar.checkProse grammar.name (items.map (Item.displace d))) =
      displaceResult d id (if grammar.allowsProse = true then .ok ()
        else Grammar.checkProse grammar.name items) := by
    split
    · rfl
    · exact Grammar.checkProse_displace d grammar.name items
  rw [Grammar.check_eq, Grammar.check_eq, hprose, Item.forms_displace,
    ← Form.displaceAll_eq_map, checkForms_displace]
  refine displaceResult_bind (fun _ => ?_) _
  rfl

/-! ## Whole documents -/

/-- The tokens of a document given as text. -/
def documentTokens (document : Coordinate) (text : String) : Except Fault (List Token) :=
  (splitText document (Text.unifyNewlines text.toList)).bind tokenize

/-- The items of a document given as text. -/
def documentItems (document : Coordinate) (text : String) : Except Fault (List Item) :=
  (documentTokens document text).bind Item.ofTokens

/-- The tokens of a document depend on its depth and index only by the locations they carry. -/
theorem documentTokens_displace (document other : Coordinate) (hpath : other.path = document.path)
    (text : String) :
    documentTokens other text =
      displaceResult (.into other) (List.map (Token.displace (.into other)))
        (documentTokens document text) := by
  unfold documentTokens
  rw [splitText_displace hpath]
  exact displaceResult_bind (tokenize_displace (Displacement.keepsStep_into other)) _

/-- **The items of a document depend on its depth and index only by the locations they carry.** -/
theorem documentItems_displace (document other : Coordinate) (hpath : other.path = document.path)
    (text : String) :
    documentItems other text =
      displaceResult (.into other) (List.map (Item.displace (.into other)))
        (documentItems document text) := by
  unfold documentItems
  rw [documentTokens_displace document other hpath]
  exact displaceResult_bind (ofTokens_displace _) _

/-- A list that an element-wise map leaves alone holds only elements that the map leaves alone. -/
theorem eq_self_of_mem_of_map_eq_self {f : α → α} {xs : List α} (h : xs.map f = xs) {x : α}
    (hx : x ∈ xs) : f x = x :=
  List.map_inj_left.1 (h.trans xs.map_id.symm) x hx

-- Moving a document to where it is changes nothing, so whatever is read from it lies in it.
/-- The tokens of a document lie in it. -/
theorem document_of_mem_documentTokens {document : Coordinate} {text : String}
    {tokens : List Token} (h : documentTokens document text = .ok tokens) {token : Token}
    (htoken : token ∈ tokens) : token.location.document = document := by
  have hself := documentTokens_displace document document rfl text
  rw [h, displaceResult_ok] at hself
  have hfixed := eq_self_of_mem_of_map_eq_self (Except.ok.inj hself).symm htoken
  rw [← hfixed, Token.location_displace, Displacement.document_into]

/-- The items of a document lie in it. -/
theorem displace_of_mem_documentItems {document : Coordinate} {text : String} {items : List Item}
    (h : documentItems document text = .ok items) {item : Item} (hitem : item ∈ items) :
    item.displace (.into document) = item := by
  have hself := documentItems_displace document document rfl text
  rw [h, displaceResult_ok] at hself
  exact eq_self_of_mem_of_map_eq_self (Except.ok.inj hself).symm hitem

end Bindery
