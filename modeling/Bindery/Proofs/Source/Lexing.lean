import Bindery.Proofs.Form.Written

/-!
# `Proofs.Source.Lexing` — the words of a block, as a grammar

The scanner of tokens keeps an opening parenthesis in mind until its atom has come. Here its successful runs are told
without that: a block is a sequence of gaps, atoms with their opening parentheses, closing parentheses and parameters.
A gap is made of blanks and remarks, and a remark of text whose parentheses pair up.

## Contents
- `Pairs`: parentheses that pair up, with some open before.
- `Gap`: blanks and remarks; `exists_remark_of_skipRemark`.
- `Lexes`: a block and its tokens; `lexes_of_blockTokens`.
-/

namespace Bindery
namespace Source

open Text

/-! ## Parentheses that pair up -/

/-- With `opens` parentheses open before it, a text closes all of these and pairs up its own until it comes to `tail`. A
backslash takes the next character for itself. -/
inductive Pairs (tail : List Char) : Nat → List Char → Prop where
  | done : Pairs tail 0 tail
  | plain {opens : Nat} {c : Char} {rest : List Char} (hopen : c ≠ '(') (hclose : c ≠ ')')
      (hescape : c ≠ '\\') (hrest : Pairs tail opens rest) : Pairs tail opens (c :: rest)
  | escape {opens : Nat} {rest : List Char} (taken : Char) (hrest : Pairs tail opens rest) :
      Pairs tail opens ('\\' :: taken :: rest)
  | opening {opens : Nat} {rest : List Char} (hrest : Pairs tail (opens + 1) rest) :
      Pairs tail opens ('(' :: rest)
  | closing {opens : Nat} {rest : List Char} (hrest : Pairs tail opens rest) :
      Pairs tail (opens + 1) (')' :: rest)

/-- Balanced text pairs up, so it may stand in front of any text. -/
theorem Balanced.pairs_append {cs : List Char} (h : Balanced cs) {tail : List Char} {opens : Nat}
    {rest : List Char} (hrest : Pairs tail opens rest) : Pairs tail opens (cs ++ rest) := by
  induction h generalizing opens rest with
  | nil => exact hrest
  | plain hopen hclose hescape _ ih => exact .plain hopen hclose hescape (ih hrest)
  | escape taken _ ih => exact .escape taken (ih hrest)
  | group _ _ _ ihInner ihLater =>
    rw [List.cons_append, List.append_assoc]
    exact .opening (ihInner (.closing (ihLater hrest)))

theorem Balanced.pairs {cs : List Char} (h : Balanced cs) : Pairs [] 0 cs := by
  have hpairs := h.pairs_append (@Pairs.done [])
  rwa [List.append_nil] at hpairs

/-! ## Gaps -/

/-- Blanks and remarks. -/
inductive Gap : List Char → Prop where
  | nil : Gap []
  | blank {c : Char} {rest : List Char} (hblank : isBlank c = true) (hrest : Gap rest) :
      Gap (c :: rest)
  | remark {inner rest : List Char} (hinner : Pairs [] 0 inner) (hrest : Gap rest) :
      Gap ('(' :: '*' :: (inner ++ ')' :: rest))

/-- What is skipped of a remark closes the parentheses that are open inside of it, and ends with its own. -/
theorem exists_remark_of_skipRemark {opener : Location} {depth : Nat} {gs after : List Glyph}
    (h : skipRemark opener depth gs = .ok after) :
    ∃ inner close, gs = inner ++ close :: after ∧ close.char = ')' ∧
      Pairs [] depth (charsOf inner) := by
  fun_induction skipRemark opener depth gs with
  | case1 | case2 => cases h
  | case3 depth g hescape taken rest ih =>
    obtain ⟨inner, close, rfl, hclose, hpairs⟩ := ih h
    refine ⟨g :: taken :: inner, close, rfl, hclose, ?_⟩
    rw [charsOf_cons, charsOf_cons, hescape]
    exact .escape taken.char hpairs
  | case4 depth g rest hescape hopen ih =>
    obtain ⟨inner, close, rfl, hclose, hpairs⟩ := ih h
    refine ⟨g :: inner, close, rfl, hclose, ?_⟩
    rw [charsOf_cons, hopen]
    exact .opening hpairs
  | case5 g rest hescape hopen hclose =>
    cases h
    exact ⟨[], g, rfl, hclose, .done⟩
  | case6 g rest hescape hopen hparen depth ih =>
    obtain ⟨inner, close, rfl, hclose, hpairs⟩ := ih h
    refine ⟨g :: inner, close, rfl, hclose, ?_⟩
    rw [charsOf_cons, hparen]
    exact .closing hpairs
  | case7 depth g rest hescape hopen hparen ih =>
    obtain ⟨inner, close, rfl, hclose, hpairs⟩ := ih h
    exact ⟨g :: inner, close, rfl, hclose, .plain hopen hparen hescape hpairs⟩

/-- A remark that begins here and what follows it. -/
theorem exists_remark {g : Glyph} {rest after : List Glyph}
    (hstar : startsWith ['(', '*'] (g :: rest) = true)
    (hskip : skipRemark g.location 0 (rest.drop 1) = .ok after) :
    ∃ star inner close, g :: rest = g :: star :: (inner ++ close :: after) ∧
      charsOf (g :: star :: (inner ++ [close])) = '(' :: '*' :: (charsOf inner ++ [')']) ∧
      Pairs [] 0 (charsOf inner) := by
  cases rest with
  | nil => simp [startsWith] at hstar
  | cons star rest =>
    obtain ⟨hopen, hmark⟩ : g.char = '(' ∧ star.char = '*' := by simpa [startsWith] using hstar
    obtain ⟨inner, close, rfl, hclose, hpairs⟩ := exists_remark_of_skipRemark hskip
    refine ⟨star, inner, close, rfl, ?_, hpairs⟩
    simp [hopen, hmark, hclose, charsOf]

/-! ## Blocks -/

/-- The characters of an atom, and what ends it. -/
structure IsName (name rest : List Glyph) : Prop where
  nonempty : name ≠ []
  chars : ∀ g ∈ name, isAtomChar g.char = true
  ends : EndsAtom (charsOf rest)

/-- A block and its tokens. -/
inductive Lexes : List Glyph → List Token → Prop where
  | nil : Lexes [] []
  | gap {gap rest : List Glyph} {tokens : List Token} (hgap : Gap (charsOf gap))
      (hrest : Lexes rest tokens) : Lexes (gap ++ rest) tokens
  | atom {g : Glyph} {gap name rest : List Glyph} {tokens : List Token} (hopen : g.char = '(')
      (hgap : Gap (charsOf gap)) (hname : IsName name rest) (hrest : Lexes rest tokens) :
      Lexes (g :: (gap ++ (name ++ rest))) (.atom (textOf name) g.location :: tokens)
  | close {g : Glyph} {rest : List Glyph} {tokens : List Token} (hclose : g.char = ')')
      (hrest : Lexes rest tokens) : Lexes (g :: rest) (.close g.location :: tokens)
  | parameter {g : Glyph} {rest : List Glyph} {tokens : List Token}
      (hblank : isBlank g.char = false) (hopen : g.char ≠ '(') (hclose : g.char ≠ ')')
      (hrest : Lexes (readParameter (g :: rest)).2 tokens) :
      Lexes (g :: rest)
        (.parameter (String.ofList (trimEnd (readParameter (g :: rest)).1)) g.location :: tokens)

/-- What is read while the opening parenthesis `pending`, if there is one, waits for its atom. -/
def LexesWith (pending : Option Location) (gs : List Glyph) (tokens : List Token) : Prop :=
  match pending with
  | none => Lexes gs tokens
  | some opener => ∃ gap name rest more, gs = gap ++ (name ++ rest) ∧ Gap (charsOf gap) ∧
      IsName name rest ∧ Lexes rest more ∧ tokens = .atom (textOf name) opener :: more

/-- Blanks and remarks are passed over, whether or not an opening parenthesis waits. -/
theorem LexesWith.gap_append {pending : Option Location} {gap rest : List Glyph}
    {tokens : List Token} (h : LexesWith pending rest tokens)
    (hgap : ∀ more, Gap more → Gap (charsOf gap ++ more)) :
    LexesWith pending (gap ++ rest) tokens := by
  cases pending with
  | none =>
    have hnil := hgap [] .nil
    rw [List.append_nil] at hnil
    exact .gap hnil h
  | some opener =>
    obtain ⟨before, name, after, more, rfl, hbefore, hname, hafter, rfl⟩ := h
    refine ⟨gap ++ before, name, after, more, (List.append_assoc ..).symm, ?_, hname, hafter, rfl⟩
    rw [charsOf_append]
    exact hgap _ hbefore

/-- An atom reaches up to the first character that cannot be part of it. -/
theorem isName_takeWhile {g : Glyph} (hblank : isBlank g.char = false) (hopen : g.char ≠ '(')
    (hclose : g.char ≠ ')') (rest : List Glyph) :
    IsName (g :: rest.takeWhile (isAtomChar ·.char)) (rest.dropWhile (isAtomChar ·.char)) where
  nonempty := List.cons_ne_nil _ _
  chars k hk := by
    rcases List.mem_cons.1 hk with rfl | hk
    · simp [isAtomChar, hblank, hopen, hclose]
    · exact List.all_eq_true.1 List.all_takeWhile k hk
  ends c hc := by
    have hfirst := List.head?_dropWhile_not (isAtomChar ·.char) rest
    rw [charsOf, List.head?_map] at hc
    obtain ⟨k, hk, rfl⟩ := Option.map_eq_some_iff.1 hc
    simpa [hk] using hfirst

/-- **What is read from a block is told by its grammar.** -/
theorem lexesWith_of_blockTokens {pending : Option Location} {gs : List Glyph}
    {tokens : List Token} (h : blockTokens pending gs = .ok tokens) :
    LexesWith pending gs tokens := by
  fun_induction blockTokens pending gs generalizing tokens with
  | case1 opener => cases h
  | case2 =>
    cases h
    exact .nil
  | case3 pending g rest hblank ih =>
    have hgap : LexesWith pending ([g] ++ rest) tokens :=
      (ih h).gap_append fun _ hmore => .blank hblank hmore
    exact hgap
  | case4 pending g rest hblank hstar fault hskip => cases h
  | case5 pending g rest hblank hstar after hskip ih =>
    obtain ⟨star, inner, close, heq, hchars, hpairs⟩ := exists_remark hstar hskip
    have hgap : LexesWith pending ((g :: star :: (inner ++ [close])) ++ after) tokens := by
      refine (ih h).gap_append fun more hmore => ?_
      rw [hchars]
      simpa using Gap.remark hpairs hmore
    rw [heq]
    simpa using hgap
  | case6 g rest hblank hstar hopen opener => cases h
  | case7 g rest hblank hstar hopen ih =>
    obtain ⟨gap, name, after, more, rfl, hgap, hname, hafter, rfl⟩ := ih h
    exact .atom hopen hgap hname hafter
  | case8 g rest hblank hstar hopen hclose opener => cases h
  | case9 g rest hblank hstar hopen hclose ih =>
    obtain ⟨more, hmore, rfl⟩ := except_map_eq_ok.1 h
    exact .close hclose (ih hmore)
  | case10 g rest hblank hstar hopen hclose opener ih =>
    obtain ⟨more, hmore, rfl⟩ := except_map_eq_ok.1 h
    have hname := isName_takeWhile (by simpa using hblank) hopen hclose rest
    refine ⟨[], _, _, more, ?_, .nil, hname, ih hmore, rfl⟩
    rw [List.nil_append, List.cons_append, List.takeWhile_append_dropWhile]
  | case11 g rest hblank hstar hopen hclose ih =>
    obtain ⟨more, hmore, rfl⟩ := except_map_eq_ok.1 h
    exact .parameter (by simpa using hblank) hopen hclose (ih hmore)

theorem lexes_of_blockTokens {gs : List Glyph} {tokens : List Token}
    (h : blockTokens none gs = .ok tokens) : Lexes gs tokens :=
  lexesWith_of_blockTokens h

end Source
end Bindery
