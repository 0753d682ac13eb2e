import Bindery.Grammar
import Bindery.Proofs.Success

/-!
# `Proofs.Grammar.Acceptance` — which forms a grammar lets pass

Forms are checked one after the other, and the numbers of the rules that have been used are kept on the way. What this
comes to can be said without the way: every form is governed by a rule and follows it, and each rule is used as often as
its occurrence permits.

## Contents
- `Occurrence.Permits`, `usedBy`: how often a rule may be used, and how often it is.
- `FitsAfter`, `checkForms_eq_ok_iff_fitsAfter`: forms that pass after others.
- `checkForms_eq_ok_iff`: the forms that pass.
-/

namespace Bindery

/-- How often a form may appear. -/
def Occurrence.Permits : Occurrence → Nat → Prop
  | .once, count => count = 1
  | .atMostOnce, count => count ≤ 1
  | .many, _ => True
  | .atLeastOnce, count => 1 ≤ count

instance : (occurrence : Occurrence) → (count : Nat) → Decidable (occurrence.Permits count)
  | .once, count => inferInstanceAs (Decidable (count = 1))
  | .atMostOnce, count => inferInstanceAs (Decidable (count ≤ 1))
  | .many, _ => inferInstanceAs (Decidable True)
  | .atLeastOnce, count => inferInstanceAs (Decidable (1 ≤ count))

theorem Occurrence.permits_iff {occurrence : Occurrence} {count : Nat} :
    occurrence.Permits count ↔
      (occurrence.isMandatory = true → 0 < count) ∧ (occurrence.isSingle = true → count ≤ 1) := by
  cases occurrence <;> simp [Permits, isMandatory, isSingle] <;> omega

/-- Whether an atom is governed by the rule with the given number. -/
def governedBy (rules : List (Rule × Occurrence)) (number : Nat) (atom : String) : Bool :=
  match governing? rules atom with
  | some (_, other) => other == number
  | none => false

/-- How often the rule with the given number is used by forms with some atoms. -/
def usedBy (rules : List (Rule × Occurrence)) (number : Nat) (atoms : List String) : Nat :=
  atoms.countP (governedBy rules number)

theorem usedBy_perm (rules : List (Rule × Occurrence)) (number : Nat) {atoms others : List String}
    (h : atoms.Perm others) : usedBy rules number atoms = usedBy rules number others :=
  h.countP_eq _

theorem usedBy_cons_self {rules : List (Rule × Occurrence)} {form : Form}
    {entry : Rule × Occurrence} {number : Nat}
    (hgoverned : governing? rules form.atom = some (entry, number)) (others : List Form) :
    usedBy rules number ((form :: others).map Form.atom) =
      usedBy rules number (others.map Form.atom) + 1 := by
  rw [List.map_cons, usedBy, List.countP_cons_of_pos (by simp [governedBy, hgoverned])]
  rfl

theorem usedBy_cons_of_ne {rules : List (Rule × Occurrence)} {form : Form}
    {entry : Rule × Occurrence} {number other : Nat}
    (hgoverned : governing? rules form.atom = some (entry, number)) (hne : other ≠ number)
    (others : List Form) :
    usedBy rules other ((form :: others).map Form.atom) = usedBy rules other (others.map Form.atom) := by
  rw [List.map_cons, usedBy,
    List.countP_cons_of_neg (by simpa [governedBy, hgoverned] using hne.symm)]
  rfl

/-- The forms with one atom all use the rule that governs it. -/
theorem countP_atom_le_usedBy {rules : List (Rule × Occurrence)} {atom : String}
    {entry : Rule × Occurrence} {number : Nat}
    (hgoverned : governing? rules atom = some (entry, number)) (forms : List Form) :
    forms.countP (·.atom == atom) ≤ usedBy rules number (forms.map Form.atom) := by
  rw [usedBy, List.countP_map]
  refine List.countP_mono_left fun form _ hatom => ?_
  simp [governedBy, eq_of_beq hatom, hgoverned]

/-- The rule that governs an atom is one of the rules. -/
theorem mem_of_governing? {rules : List (Rule × Occurrence)} {atom : String}
    {entry : (Rule × Occurrence) × Nat} (h : governing? rules atom = some entry) :
    entry ∈ rules.zipIdx :=
  List.mem_of_find?_eq_some h

/-- A number stands for one rule. -/
theorem eq_of_mem_zipIdx {rules : List α} {first second : α} {number : Nat}
    (h : (first, number) ∈ rules.zipIdx) (h' : (second, number) ∈ rules.zipIdx) : first = second := by
  rw [List.mk_mem_zipIdx_iff_getElem?] at h h'
  exact Option.some.inj (h.symm.trans h')

theorem checkUsed_eq_ok_iff {parent : String} {location : Location}
    {rules : List (Rule × Occurrence)} {used : List Nat} :
    checkUsed parent location rules used = .ok () ↔
      ∀ entry number, (entry, number) ∈ rules.zipIdx → entry.2.isMandatory = true →
        number ∈ used := by
  have hnone : checkUsed parent location rules used = .ok () ↔ unused? rules used = none := by
    unfold checkUsed
    cases unused? rules used <;> simp
  rw [hnone, unused?, Option.map_eq_none_iff, List.find?_eq_none]
  constructor
  · intro h entry number hmem hmandatory
    simpa [hmandatory] using h _ hmem
  · rintro h ⟨entry, number⟩ hmem
    simpa using h entry number hmem

/-- What is asked of forms, if the rules with some numbers have been used before. -/
structure FitsAfter (rules : List (Rule × Occurrence)) (used : List Nat) (forms : List Form) :
    Prop where
  governed : ∀ form ∈ forms, ∃ rule occurrence number,
    governing? rules form.atom = some ((rule, occurrence), number) ∧ rule.check form = .ok ()
  mandatory : ∀ entry number, (entry, number) ∈ rules.zipIdx → entry.2.isMandatory = true →
    number ∈ used ∨ 0 < usedBy rules number (forms.map Form.atom)
  single : ∀ entry number, (entry, number) ∈ rules.zipIdx → entry.2.isSingle = true →
    usedBy rules number (forms.map Form.atom) ≤ 1 ∧
      (number ∈ used → usedBy rules number (forms.map Form.atom) = 0)

section First

variable {rules : List (Rule × Occurrence)} {used : List Nat} {form : Form} {others : List Form}
  {rule : Rule} {occurrence : Occurrence} {number : Nat}

/-- Of forms that fit, the first follows its rule, and the others fit after one more use of it. -/
theorem FitsAfter.of_cons (h : FitsAfter rules used (form :: others))
    (hgoverned : governing? rules form.atom = some ((rule, occurrence), number)) :
    ¬(occurrence.isSingle = true ∧ number ∈ used) ∧ rule.check form = .ok () ∧
      FitsAfter rules (number :: used) others := by
  have hself := usedBy_cons_self hgoverned others
  refine ⟨?_, ?_, ?_, ?_, ?_⟩
  · rintro ⟨hsingle, hused⟩
    have hzero := (h.single _ _ (mem_of_governing? hgoverned) hsingle).2 hused
    omega
  · obtain ⟨_, _, _, hsame, hcheck⟩ := h.governed form List.mem_cons_self
    cases hgoverned.symm.trans hsame
    exact hcheck
  · intro other hother
    exact h.governed other (List.mem_cons_of_mem _ hother)
  · intro entry other hentry hmandatory
    by_cases hnumber : other = number
    · exact .inl (hnumber ▸ List.mem_cons_self)
    · rw [← usedBy_cons_of_ne hgoverned hnumber others]
      exact (h.mandatory entry other hentry hmandatory).imp_left (List.mem_cons_of_mem _)
  · intro entry other hentry hsingle
    obtain ⟨hone, hnone⟩ := h.single entry other hentry hsingle
    by_cases hnumber : other = number
    · subst hnumber
      omega
    · rw [usedBy_cons_of_ne hgoverned hnumber others] at hone hnone
      refine ⟨hone, fun hused => hnone ?_⟩
      exact (List.mem_cons.1 hused).resolve_left hnumber

/-- A form that follows a rule which may still be used fits in front of forms that fit after that use. -/
theorem FitsAfter.cons (h : FitsAfter rules (number :: used) others)
    (hgoverned : governing? rules form.atom = some ((rule, occurrence), number))
    (hfresh : ¬(occurrence.isSingle = true ∧ number ∈ used)) (hcheck : rule.check form = .ok ()) :
    FitsAfter rules used (form :: others) := by
  have hself := usedBy_cons_self hgoverned others
  refine ⟨?_, ?_, ?_⟩
  · intro other hother
    rcases List.mem_cons.1 hother with rfl | hother
    · exact ⟨rule, occurrence, number, hgoverned, hcheck⟩
    · exact h.governed other hother
  · intro entry other hentry hmandatory
    by_cases hnumber : other = number
    · subst hnumber
      exact .inr (by omega)
    · rw [usedBy_cons_of_ne hgoverned hnumber others]
      refine (h.mandatory entry other hentry hmandatory).imp_left fun hused => ?_
      exact (List.mem_cons.1 hused).resolve_left hnumber
  · intro entry other hentry hsingle
    obtain ⟨hone, hnone⟩ := h.single entry other hentry hsingle
    by_cases hnumber : other = number
    · subst hnumber
      -- the number stands for the rule that governs the form
      cases eq_of_mem_zipIdx hentry (mem_of_governing? hgoverned)
      have hzero := hnone List.mem_cons_self
      exact ⟨by omega, fun hused => absurd ⟨hsingle, hused⟩ hfresh⟩
    · rw [usedBy_cons_of_ne hgoverned hnumber others]
      exact ⟨hone, fun hused => hnone (List.mem_cons_of_mem _ hused)⟩

end First

/-- **Forms pass exactly if they fit after what was there before.** -/
theorem checkForms_eq_ok_iff_fitsAfter {parent : String} {location : Location}
    {rules : List (Rule × Occurrence)} {used : List Nat} {forms : List Form} :
    checkForms parent location rules used forms = .ok () ↔ FitsAfter rules used forms := by
  induction forms generalizing used with
  | nil =>
    rw [checkForms, checkUsed_eq_ok_iff]
    constructor
    · intro h
      refine ⟨List.forall_mem_nil _, fun entry number hentry hmandatory => ?_,
        fun _ _ _ _ => ⟨Nat.zero_le 1, fun _ => rfl⟩⟩
      exact .inl (h entry number hentry hmandatory)
    · intro h entry number hentry hmandatory
      exact (h.mandatory entry number hentry hmandatory).resolve_right (Nat.lt_irrefl 0)
  | cons form others ih =>
    rw [checkForms]
    cases hgoverned : governing? rules form.atom with
    | none =>
      constructor
      · intro h
        cases h
      · intro h
        obtain ⟨_, _, _, hsome, -⟩ := h.governed form List.mem_cons_self
        cases hgoverned.symm.trans hsome
    | some entry =>
      obtain ⟨⟨rule, occurrence⟩, number⟩ := entry
      dsimp only
      split
      next hused =>
        constructor
        · intro h
          cases h
        · intro h
          exact absurd (by simpa using hused) (h.of_cons hgoverned).1
      next hused =>
        have hfresh : ¬(occurrence.isSingle = true ∧ number ∈ used) := by simpa using hused
        constructor
        · intro h
          obtain ⟨_, hcheck, hothers⟩ := except_bind_eq_ok.1 h
          exact (ih.1 hothers).cons hgoverned hfresh hcheck
        · intro h
          obtain ⟨-, hcheck, hothers⟩ := h.of_cons hgoverned
          exact except_bind_eq_ok.2 ⟨(), hcheck, ih.2 hothers⟩

/-- **Which forms pass**: each follows the rule that governs it, and each rule is used as often as it may be. -/
theorem checkForms_eq_ok_iff {parent : String} {location : Location}
    {rules : List (Rule × Occurrence)} {forms : List Form} :
    checkForms parent location rules [] forms = .ok () ↔
      (∀ form ∈ forms, ∃ rule occurrence number,
        governing? rules form.atom = some ((rule, occurrence), number) ∧ rule.check form = .ok ()) ∧
      ∀ entry number, (entry, number) ∈ rules.zipIdx →
        entry.2.Permits (usedBy rules number (forms.map Form.atom)) := by
  rw [checkForms_eq_ok_iff_fitsAfter]
  simp only [Occurrence.permits_iff]
  constructor
  · intro h
    refine ⟨h.governed, fun entry number hentry => ⟨fun hmandatory => ?_, fun hsingle => ?_⟩⟩
    · exact (h.mandatory entry number hentry hmandatory).resolve_left List.not_mem_nil
    · exact (h.single entry number hentry hsingle).1
  · rintro ⟨hgoverned, hpermits⟩
    refine ⟨hgoverned, fun entry number hentry hmandatory => ?_, fun entry number hentry hsingle => ?_⟩
    · exact .inr ((hpermits entry number hentry).1 hmandatory)
    · exact ⟨(hpermits entry number hentry).2 hsingle, nofun⟩

end Bindery
