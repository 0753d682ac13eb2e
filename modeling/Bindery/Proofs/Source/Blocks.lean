import Bindery.Proofs.Source.Balanced
import Bindery.Proofs.Success

/-!
# `Proofs.Source.Blocks` — which texts are directive blocks

The scanner of blocks keeps the parentheses that are open and stops at the closing one that is left over. What it reads
can be said without them: the inside of a block is balanced text in which its comment does not end, and a closing
parenthesis follows. No text can be taken for a block in two ways, since balanced text reaches up to one closing
parenthesis only.

## Contents
- `Layers`: text that closes open parentheses; `layers_of_readBlock`.
- `readBlock_eq_ok_iff`: the blocks that are read.
- `Balanced.eq_of_append_close`: the closing parenthesis that is left over.
-/

namespace Bindery
namespace Source

open Text

/-! ## Open parentheses -/

/-- With `opens` parentheses open before it, a text closes one after the other. It is balanced up to each of them, and
what follows the last one is as `Outside` says. -/
def Layers (Outside : List Char → Prop) : Nat → List Char → Prop
  | 0, cs => Outside cs
  | opens + 1, cs =>
    ∃ inner rest, cs = inner ++ ')' :: rest ∧ Balanced inner ∧ Layers Outside opens rest

namespace Layers

variable {Outside : List Char → Prop} {opens : Nat} {cs rest : List Char}

theorem inside_append (hcs : Balanced cs) (h : Layers Outside (opens + 1) rest) :
    Layers Outside (opens + 1) (cs ++ rest) := by
  obtain ⟨inner, more, rfl, hinner, hmore⟩ := h
  exact ⟨cs ++ inner, more, by simp, hcs.append hinner, hmore⟩

theorem closing (h : Layers Outside opens rest) : Layers Outside (opens + 1) (')' :: rest) :=
  ⟨[], rest, rfl, .nil, h⟩

/-- A parenthesis that opens no block makes a group with the first one that is closed behind it. -/
theorem opening
    (hgroup : ∀ {inner rest : List Char}, opensAt ('(' :: (inner ++ [')'])) = false →
      Balanced inner → Outside rest → Outside ('(' :: (inner ++ ')' :: rest)))
    (later : List Char) (hblock : opensAt ('(' :: (rest ++ later)) = false)
    (h : Layers Outside (opens + 1) rest) : Layers Outside opens ('(' :: rest) := by
  obtain ⟨inner, more, rfl, hinner, hmore⟩ := h
  rw [List.append_assoc, List.cons_append, opensAt_group] at hblock
  cases opens with
  | zero => exact hgroup hblock hinner hmore
  | succ opens =>
    have hword : Balanced ('(' :: (inner ++ [')'])) := .group hblock hinner .nil
    simpa using hmore.inside_append hword

theorem balanced_append (hcs : Balanced cs) (h : Layers Balanced opens rest) :
    Layers Balanced opens (cs ++ rest) := by
  cases opens with
  | zero => exact hcs.append h
  | succ opens => exact h.inside_append hcs

end Layers

/-! ## Blocks that are read -/

theorem endsUnescaped_cons {c : Char} (hc : c ≠ '\\') {rest later : List Char}
    (hmark : ¬ commentEnd <+: c :: rest ++ later) (h : endsUnescaped rest = false) :
    endsUnescaped (c :: rest) = false := by
  rw [endsUnescaped_plain hc, h, Bool.or_false, Bool.eq_false_iff, ne_eq,
    List.isPrefixOf_iff_prefix]
  intro hstart
  exact hmark (hstart.trans (List.prefix_append _ _))

/-- What the scanner reads closes the open parentheses, and the comment does not end in it. -/
theorem layers_of_readBlock {opener : Location} {opens : List Location} {gs body after : List Glyph}
    (h : readBlock opener opens gs = .ok (body, after)) :
    ∃ close, gs = body ++ close :: after ∧ close.char = ')' ∧
      Layers Balanced opens.length (charsOf body) ∧ endsUnescaped (charsOf body) = false := by
  fun_induction readBlock opener opens gs generalizing body after with
  | case1 | case2 | case3 | case5 => cases h
  | case4 opens g hescape taken rest hmark ih =>
    obtain ⟨⟨body, after⟩, hread, heq⟩ := except_map_eq_ok.1 h
    cases heq
    obtain ⟨close, rfl, hclose, hlayers, hend⟩ := ih hread
    refine ⟨close, rfl, hclose, ?_, ?_⟩
    · have hpair : Balanced [g.char, taken.char] := hescape ▸ .escape taken.char .nil
      exact hlayers.balanced_append hpair
    · show endsUnescaped (g.char :: taken.char :: charsOf body) = false
      rw [hescape]
      exact hend
  | case6 opens g rest hmark hescape hopen hblock ih =>
    obtain ⟨⟨body, after⟩, hread, heq⟩ := except_map_eq_ok.1 h
    cases heq
    obtain ⟨close, rfl, hclose, hlayers, hend⟩ := ih hread
    rw [startsWith_eq, List.isPrefixOf_iff_prefix, charsOf_cons, charsOf_append] at hmark
    rw [opensBlock_eq_opensAt, charsOf_cons, hopen, charsOf_append, Bool.not_eq_true] at hblock
    refine ⟨close, rfl, hclose, ?_, endsUnescaped_cons hescape hmark hend⟩
    show Layers Balanced opens.length (g.char :: charsOf body)
    rw [hopen]
    exact hlayers.opening .group _ hblock
  | case7 g rest hmark hescape hopen hclose =>
    cases h
    exact ⟨g, rfl, hclose, .nil, rfl⟩
  | case8 g rest hmark hescape hopen hparen innermost outer ih =>
    obtain ⟨⟨body, after⟩, hread, heq⟩ := except_map_eq_ok.1 h
    cases heq
    obtain ⟨close, rfl, hclose, hlayers, hend⟩ := ih hread
    rw [startsWith_eq, List.isPrefixOf_iff_prefix, charsOf_cons, charsOf_append] at hmark
    refine ⟨close, rfl, hclose, ?_, endsUnescaped_cons hescape hmark hend⟩
    show Layers Balanced (outer.length + 1) (g.char :: charsOf body)
    rw [hparen]
    exact hlayers.closing
  | case9 opens g rest hmark hescape hopen hparen ih =>
    obtain ⟨⟨body, after⟩, hread, heq⟩ := except_map_eq_ok.1 h
    cases heq
    obtain ⟨close, rfl, hclose, hlayers, hend⟩ := ih hread
    rw [startsWith_eq, List.isPrefixOf_iff_prefix, charsOf_cons, charsOf_append] at hmark
    refine ⟨close, rfl, hclose, ?_, endsUnescaped_cons hescape hmark hend⟩
    have hplain : Balanced [g.char] := .plain hopen hparen hescape .nil
    exact hlayers.balanced_append hplain

/-- **The blocks that are read**: balanced text in which the comment does not end, and a closing parenthesis. -/
theorem readBlock_eq_ok_iff {opener : Location} {gs body after : List Glyph} :
    readBlock opener [] gs = .ok (body, after) ↔
      ∃ close, gs = body ++ close :: after ∧ close.char = ')' ∧
        Balanced (charsOf body) ∧ endsUnescaped (charsOf body) = false := by
  constructor
  · intro h
    exact layers_of_readBlock h
  · rintro ⟨close, rfl, hclose, hbalanced, hend⟩
    exact readBlock_whole hbalanced hend hclose opener after

/-! ## One closing parenthesis is left over -/

/-- Balanced text reaches up to one closing parenthesis only. -/
theorem Balanced.eq_of_append_close {inner other : List Char} (h : Balanced inner)
    (hother : Balanced other) {rest more : List Char}
    (heq : inner ++ ')' :: rest = other ++ ')' :: more) : inner = other ∧ rest = more := by
  induction h generalizing other rest more with
  | nil =>
    cases hother with
    | nil => exact ⟨rfl, (List.cons.inj heq).2⟩
    | plain _ hclose _ _ => exact absurd (List.cons.inj heq).1.symm hclose
    | escape => exact absurd (List.cons.inj heq).1 (by decide)
    | group => exact absurd (List.cons.inj heq).1 (by decide)
  | plain hopen hclose hescape _ ih =>
    cases hother with
    | nil => exact absurd (List.cons.inj heq).1 hclose
    | plain _ _ _ hmore =>
      obtain ⟨rfl, htail⟩ := List.cons.inj heq
      obtain ⟨rfl, hrest⟩ := ih hmore htail
      exact ⟨rfl, hrest⟩
    | escape => exact absurd (List.cons.inj heq).1 hescape
    | group => exact absurd (List.cons.inj heq).1 hopen
  | escape taken _ ih =>
    cases hother with
    | nil => exact absurd (List.cons.inj heq).1 (by decide)
    | plain _ _ hescape _ => exact absurd (List.cons.inj heq).1.symm hescape
    | escape taken' hmore =>
      obtain ⟨rfl, htail⟩ := List.cons.inj (List.cons.inj heq).2
      obtain ⟨rfl, hrest⟩ := ih hmore htail
      exact ⟨rfl, hrest⟩
    | group => exact absurd (List.cons.inj heq).1 (by decide)
  | @group inner later _ _ _ ihInner ihLater =>
    cases hother with
    | nil => exact absurd (List.cons.inj heq).1 (by decide)
    | plain hopen _ _ _ => exact absurd (List.cons.inj heq).1.symm hopen
    | escape => exact absurd (List.cons.inj heq).1 (by decide)
    | @group inner' later' _ hinner hlater =>
      -- the inner groups end together, and what follows them is compared next
      have htail : inner ++ ')' :: (later ++ ')' :: rest) = inner' ++ ')' :: (later' ++ ')' :: more) := by
        simpa using heq
      obtain ⟨rfl, hafter⟩ := ihInner hinner htail
      obtain ⟨rfl, hrest⟩ := ihLater hlater hafter
      exact ⟨rfl, hrest⟩

end Source
end Bindery
