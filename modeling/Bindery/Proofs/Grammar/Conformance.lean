import Bindery.Proofs.Displacement.Form
import Bindery.Proofs.Grammar.Acceptance

/-!
# `Proofs.Grammar.Conformance` — what a grammar accepts

A grammar is a tree of rules, and what it accepts can be said along that tree without checking anything in order. Among
the forms of one parent, each is governed by the first rule that matches its atom, and has to be as this rule asks: with
a parameter or without, and with sub-forms that are as the rules below it ask. Each rule governs as many forms as its
occurrence permits. Rules may match the same atoms; the earlier one counts.

## Contents
- `Governs`: the first rule that matches; `governing?_eq_some_iff`.
- `Rule.Admits`, `Arranged`: what rules ask of one form, and of the forms of one parent.
- `checkForms_eq_ok_iff_arranged`, `Rule.check_eq_ok_iff`: one level, then all levels.
- `Grammar.Accepts`, `Grammar.check_eq_ok_iff_accepts`.
-/

namespace Bindery

open Text

/-! ## The rule that governs an atom -/

section Governs

variable {rules : List (Rule × Occurrence)} {atom : String} {number : Nat}

/-- Whether the rule with the given number matches an atom. -/
def matchesAt (rules : List (Rule × Occurrence)) (atom : String) (number : Nat) : Bool :=
  rules[number]?.any fun entry => entry.1.matcher.accepts atom

/-- The rule with the given number is the first that matches an atom. -/
def Governs (rules : List (Rule × Occurrence)) (number : Nat) (atom : String) : Prop :=
  matchesAt rules atom number = true ∧ ∀ earlier < number, matchesAt rules atom earlier = false

instance (rules : List (Rule × Occurrence)) (number : Nat) (atom : String) :
    Decidable (Governs rules number atom) :=
  inferInstanceAs (Decidable (_ ∧ _))

theorem matchesAt_of_lt (hnumber : number < rules.length) (atom : String) :
    matchesAt rules atom number = rules[number].1.matcher.accepts atom := by
  rw [matchesAt, List.getElem?_eq_getElem hnumber]
  rfl

theorem Governs.exists_entry (h : Governs rules number atom) :
    ∃ entry, rules[number]? = some entry := by
  obtain ⟨entry, hentry, -⟩ := (Option.any_eq_true _ _).1 h.1
  exact ⟨entry, hentry⟩

theorem governing?_eq_some_iff {entry : Rule × Occurrence} :
    governing? rules atom = some (entry, number) ↔
      rules[number]? = some entry ∧ Governs rules number atom := by
  rw [governing?, List.find?_eq_some_iff_getElem]
  constructor
  · rintro ⟨haccepts, place, hplace, hentry, hfirst⟩
    rw [List.length_zipIdx] at hplace
    simp only [List.getElem_zipIdx, Nat.zero_add, Prod.mk.injEq] at hentry
    obtain ⟨rfl, rfl⟩ := hentry
    refine ⟨List.getElem?_eq_getElem hplace, ?_, ?_⟩
    · rw [matchesAt_of_lt hplace]
      exact haccepts
    · intro earlier hearlier
      rw [matchesAt_of_lt (by omega)]
      simpa using hfirst earlier hearlier
  · rintro ⟨hentry, hmatches, hfirst⟩
    obtain ⟨hplace, rfl⟩ := List.getElem?_eq_some_iff.1 hentry
    rw [matchesAt_of_lt hplace] at hmatches
    refine ⟨hmatches, number, by simpa using hplace, by simp, ?_⟩
    intro earlier hearlier
    have hno := hfirst earlier hearlier
    rw [matchesAt_of_lt (by omega)] at hno
    simpa using hno

theorem governedBy_eq (rules : List (Rule × Occurrence)) (number : Nat) (atom : String) :
    governedBy rules number atom = decide (Governs rules number atom) := by
  rw [Bool.eq_iff_iff, decide_eq_true_iff, governedBy]
  constructor
  · intro h
    split at h
    next entry other hgoverning =>
      obtain rfl := eq_of_beq h
      exact (governing?_eq_some_iff.1 hgoverning).2
    next => cases h
  · intro h
    obtain ⟨entry, hentry⟩ := h.exists_entry
    rw [governing?_eq_some_iff.2 ⟨hentry, h⟩]
    exact beq_self_eq_true number

end Governs

/-! ## What rules ask -/

mutual

/-- What a rule asks of a form that it governs. -/
inductive Rule.Admits : Rule → Form → Prop where
  | intro {rule : Rule} {form : Form}
      (required : rule.parameter = .required → form.parameter ≠ none)
      (never : rule.parameter = .never → form.parameter = none)
      (leaf : rule.children = [] → form.children = [])
      (inside : Arranged rule.children form.children) : rule.Admits form

/-- What the rules of a parent ask of its forms: each is matched by some rule and as the first such rule asks, and each
rule governs as many of them as it may. -/
inductive Arranged : List (Rule × Occurrence) → List Form → Prop where
  | intro {rules : List (Rule × Occurrence)} {forms : List Form}
      (matched : ∀ form ∈ forms, ∃ number, Governs rules number form.atom)
      (admitted : ∀ form ∈ forms, ∀ (number : Nat) (entry : Rule × Occurrence),
        rules[number]? = some entry → Governs rules number form.atom → entry.1.Admits form)
      (permitted : ∀ (number : Nat) (entry : Rule × Occurrence), rules[number]? = some entry →
        entry.2.Permits (forms.countP fun form => Governs rules number form.atom)) :
      Arranged rules forms

end

theorem ParameterUse.check_eq_ok_iff {use : ParameterUse} {atom : String} {location : Location}
    {parameter : Option Parameter} :
    use.check atom location parameter = .ok () ↔
      (use = .required → parameter ≠ none) ∧ (use = .never → parameter = none) := by
  cases parameter with
  | none => cases use <;> simp [ParameterUse.check]
  | some parameter => cases use <;> simp [ParameterUse.check]

/-- Where a rule has no rules below it, the check that there are no sub-forms takes the place of the check of these. -/
theorem Rule.check_eq_ok_iff_checkForms {rule : Rule} {form : Form} :
    rule.check form = .ok () ↔
      rule.parameter.check form.atom form.location form.parameter = .ok () ∧
      (rule.children = [] → form.children = []) ∧
      checkForms form.atom form.location rule.children [] form.children = .ok () := by
  obtain ⟨atom, location, parameter, children⟩ := form
  rw [Rule.check_mk, except_bind_const_eq_ok]
  refine and_congr_right fun _ => ?_
  cases hrules : rule.children with
  | nil =>
    cases children with
    | nil => simp [checkForms, checkUsed, unused?]
    | cons child rest => simp
  | cons first rules => simp

/-- **One level**: if the check of each form is right, so is the check of the forms of one parent. -/
theorem checkForms_eq_ok_iff_arranged {parent : String} {location : Location}
    {rules : List (Rule × Occurrence)} {forms : List Form}
    (hcheck : ∀ form ∈ forms, ∀ rule : Rule, rule.check form = .ok () ↔ rule.Admits form) :
    checkForms parent location rules [] forms = .ok () ↔ Arranged rules forms := by
  have hcount (number : Nat) : usedBy rules number (forms.map Form.atom) =
      forms.countP fun form => Governs rules number form.atom := by
    rw [usedBy, List.countP_map]
    exact List.countP_congr fun form _ => by simp [governedBy_eq]
  rw [checkForms_eq_ok_iff]
  simp only [hcount, List.mk_mem_zipIdx_iff_getElem?]
  constructor
  · rintro ⟨hgoverned, hpermitted⟩
    refine .intro ?_ ?_ fun number entry => hpermitted entry number
    · intro form hform
      obtain ⟨rule, occurrence, number, hgoverning, -⟩ := hgoverned form hform
      exact ⟨number, (governing?_eq_some_iff.1 hgoverning).2⟩
    · intro form hform number entry hentry hgoverns
      obtain ⟨rule, occurrence, other, hgoverning, hpasses⟩ := hgoverned form hform
      -- no two rules are the first that matches
      cases hgoverning.symm.trans (governing?_eq_some_iff.2 ⟨hentry, hgoverns⟩)
      exact (hcheck form hform rule).1 hpasses
  · rintro ⟨hmatched, hadmitted, hpermitted⟩
    refine ⟨?_, fun entry number => hpermitted number entry⟩
    intro form hform
    obtain ⟨number, hgoverns⟩ := hmatched form hform
    obtain ⟨⟨rule, occurrence⟩, hentry⟩ := hgoverns.exists_entry
    refine ⟨rule, occurrence, number, governing?_eq_some_iff.2 ⟨hentry, hgoverns⟩, ?_⟩
    exact (hcheck form hform rule).2 (hadmitted form hform number _ hentry hgoverns)

/-- **All levels**: a form passes the check of a rule exactly if it is as the rule asks. -/
theorem Rule.check_eq_ok_iff (rule : Rule) (form : Form) :
    rule.check form = .ok () ↔ rule.Admits form := by
  have hchildren : ∀ child ∈ form.children, ∀ rule : Rule,
      rule.check child = .ok () ↔ rule.Admits child :=
    fun child hchild rule => Rule.check_eq_ok_iff rule child
  rw [Rule.check_eq_ok_iff_checkForms, checkForms_eq_ok_iff_arranged hchildren,
    ParameterUse.check_eq_ok_iff]
  constructor
  · rintro ⟨⟨hrequired, hnever⟩, hleaf, hinside⟩
    exact .intro hrequired hnever hleaf hinside
  · rintro ⟨hrequired, hnever, hleaf, hinside⟩
    exact ⟨⟨hrequired, hnever⟩, hleaf, hinside⟩
termination_by form
decreasing_by
  obtain ⟨atom, location, parameter, children⟩ := form
  have hless := List.sizeOf_lt_of_mem hchild
  simp only [Form.mk.sizeOf_spec] at hless ⊢
  omega

theorem checkForms_eq_ok_iff_arranged_all {parent : String} {location : Location}
    {rules : List (Rule × Occurrence)} {forms : List Form} :
    checkForms parent location rules [] forms = .ok () ↔ Arranged rules forms :=
  checkForms_eq_ok_iff_arranged fun form _ rule => rule.check_eq_ok_iff form

/-! ## Whole documents -/

/-- What a grammar asks of the items of a document. -/
structure Grammar.Accepts (grammar : Grammar) (items : List Item) : Prop where
  prose : grammar.allowsProse = false → ∀ text location, Item.prose text location ∈ items →
    isBlankText text = true
  forms : Arranged grammar.root (Item.forms items)

theorem Grammar.checkProse_eq_ok_iff {name : String} {items : List Item} :
    Grammar.checkProse name items = .ok () ↔
      ∀ text location, Item.prose text location ∈ items → isBlankText text = true := by
  induction items with
  | nil => simp [Grammar.checkProse]
  | cons item rest ih =>
    cases item with
    | form first => simp [Grammar.checkProse, ih]
    | prose text location =>
      rw [Grammar.checkProse]
      by_cases hblank : isBlankText text = true
      · rw [if_pos hblank, ih]
        constructor
        · intro h other place hmem
          rcases List.mem_cons.1 hmem with heq | hmem
          · cases heq
            exact hblank
          · exact h other place hmem
        · intro h other place hmem
          exact h other place (List.mem_cons_of_mem _ hmem)
      · rw [if_neg hblank]
        constructor
        · intro h
          cases h
        · intro h
          exact absurd (h text location List.mem_cons_self) hblank

/-- **A grammar accepts exactly what it declares**, wherever a document is said to start. -/
theorem Grammar.check_eq_ok_iff_accepts (grammar : Grammar) (start : Location) (items : List Item) :
    grammar.check start items = .ok () ↔ grammar.Accepts items := by
  have hprose : (if grammar.allowsProse then .ok () else Grammar.checkProse grammar.name items) =
      (.ok () : Except Fault Unit) ↔ (grammar.allowsProse = false → ∀ text location,
        Item.prose text location ∈ items → isBlankText text = true) := by
    cases grammar.allowsProse with
    | true => simp
    | false => simp [Grammar.checkProse_eq_ok_iff]
  rw [Grammar.check_eq, except_bind_const_eq_ok, hprose, checkForms_eq_ok_iff_arranged_all]
  constructor
  · rintro ⟨hblank, hforms⟩
    exact ⟨hblank, hforms⟩
  · rintro ⟨hblank, hforms⟩
    exact ⟨hblank, hforms⟩

end Bindery
