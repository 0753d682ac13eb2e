import Bindery.Form
import Bindery.Proofs.Source.Directives
import Bindery.Proofs.Source.Positions

/-!
# `Proofs.Source.Agreement` — what the two scanners make of parentheses

The scanner of blocks and the scanner of tokens both look at parentheses, and each knows on its own which of them a
backslash takes away. In remarks and parameters they agree. An atom, however, ends at any parenthesis: where its last
backslash escapes that parenthesis, the atom is *severed*, and from there on the two scanners count differently. So a
remark of a block that was read is always closed, and the forms of its tokens pair up if no atom is severed.

## Contents
- `PairsUp`: parentheses that pair up to the end of a text, and what reading takes off such a text.
- `OnTrack`, `cause_of_blockTokens`: remarks are closed.
- `closesForms`, `cause_of_readItems`: tokens whose forms pair up.
- `Token.SeveredAt`, `Unsevered`, `Lexes.closesForms`: forms pair up where no atom is severed.
- `scanners_agree`, `severed_atom_unbalances`.
-/

namespace Bindery

/-- Whether forms that do not pair up are the cause. -/
def Cause.isImbalance : Cause → Bool
  | .closeUnmatched | .formOpen _ | .proseInForm _ => true
  | _ => false

namespace Source

open Text

/-! ## Parentheses up to the end -/

/-- With `opens` parentheses open before it, a text closes all of these and pairs up its own. A file of directives may end
in a backslash that has nothing to take. -/
def PairsUp (opens : Nat) (cs : List Char) : Prop :=
  ∃ tail, (tail = [] ∨ tail = ['\\']) ∧ Pairs tail opens cs

theorem Pairs.pairsUp {opens : Nat} {cs : List Char} (h : Pairs [] opens cs) : PairsUp opens cs :=
  ⟨[], .inl rfl, h⟩

namespace PairsUp

variable {opens : Nat} {rest : List Char}

theorem of_opening (h : PairsUp opens ('(' :: rest)) : PairsUp (opens + 1) rest := by
  obtain ⟨tail, htail, h⟩ := h
  cases h with
  | done => simp at htail
  | plain hopen => exact absurd rfl hopen
  | opening hrest => exact ⟨tail, htail, hrest⟩

theorem of_closing (h : PairsUp opens (')' :: rest)) : ∃ less, opens = less + 1 ∧ PairsUp less rest := by
  obtain ⟨tail, htail, h⟩ := h
  cases h with
  | done => simp at htail
  | plain _ hclose => exact absurd rfl hclose
  | closing hrest => exact ⟨_, rfl, tail, htail, hrest⟩

theorem of_plain {c : Char} (hopen : c ≠ '(') (hclose : c ≠ ')') (hescape : c ≠ '\\')
    (h : PairsUp opens (c :: rest)) : PairsUp opens rest := by
  obtain ⟨tail, htail, h⟩ := h
  cases h with
  | done => simp [hescape] at htail
  | plain _ _ _ hrest => exact ⟨tail, htail, hrest⟩
  | escape => exact absurd rfl hescape
  | opening => exact absurd rfl hopen
  | closing => exact absurd rfl hclose

theorem of_escape {taken : Char} (h : PairsUp opens ('\\' :: taken :: rest)) :
    PairsUp opens rest := by
  obtain ⟨tail, htail, h⟩ := h
  cases h with
  | done => simp at htail
  | plain _ _ hescape => exact absurd rfl hescape
  | escape _ hrest => exact ⟨tail, htail, hrest⟩

theorem of_nil (h : PairsUp opens []) : opens = 0 := by
  obtain ⟨tail, -, h⟩ := h
  cases h
  rfl

theorem of_last_escape (h : PairsUp opens ['\\']) : opens = 0 := by
  obtain ⟨tail, -, h⟩ := h
  cases h with
  | done => rfl
  | plain _ _ hescape => exact absurd rfl hescape

theorem of_isBlank {c : Char} (hblank : isBlank c = true) (h : PairsUp opens (c :: rest)) :
    PairsUp opens rest := by
  obtain ⟨hopen, hclose, hescape⟩ := plain_of_isBlank hblank
  exact h.of_plain hopen hclose hescape

/-- Text that closes `inner` parentheses takes them off the count. -/
theorem of_append {inner : Nat} {cs : List Char} (hcs : Pairs [] inner cs)
    (h : PairsUp (opens + inner) (cs ++ rest)) : PairsUp opens rest := by
  induction hcs with
  | done => exact h
  | plain hopen hclose hescape _ ih => exact ih (h.of_plain hopen hclose hescape)
  | escape taken _ ih => exact ih h.of_escape
  | opening _ ih => exact ih h.of_opening
  | closing _ ih =>
    obtain ⟨less, hless, hrest⟩ := h.of_closing
    obtain rfl := Nat.succ.inj hless
    exact ih hrest

theorem of_gap {gap : List Char} (hgap : Gap gap) (h : PairsUp opens (gap ++ rest)) :
    PairsUp opens rest := by
  induction hgap with
  | nil => exact h
  | blank hblank _ ih => exact ih (h.of_isBlank hblank)
  | @remark inner more hinner _ ih =>
    have hinside : PairsUp (opens + 1) ('*' :: (inner ++ (')' :: (more ++ rest)))) := by
      simpa using h.of_opening
    have hclosing := (hinside.of_plain (by decide) (by decide) (by decide)).of_append hinner
    obtain ⟨less, hless, hmore⟩ := hclosing.of_closing
    obtain rfl := Nat.succ.inj hless
    exact ih hmore

/-- A parameter is read past every parenthesis that is escaped, and no further. -/
theorem of_readParameter {gs : List Glyph} (h : PairsUp opens (charsOf gs)) :
    PairsUp opens (charsOf (readParameter gs).2) := by
  fun_induction readParameter gs with
  | case1 => exact h
  | case2 => exact h
  | case3 g hparen hescape =>
    rw [charsOf_cons, hescape] at h
    obtain rfl := h.of_last_escape
    exact Pairs.done.pairsUp
  | case4 g hparen hescape taken rest ih =>
    rw [charsOf_cons, charsOf_cons, hescape] at h
    exact ih h.of_escape
  | case5 g rest hparen hescape ih =>
    obtain ⟨hopen, hclose⟩ := not_or.1 hparen
    exact ih (h.of_plain hopen hclose hescape)

/-- A remark ends where its parentheses are closed, however many are open around it. -/
theorem exists_skipRemark (opener : Location) (depth : Nat) {gs : List Glyph}
    (h : PairsUp (opens + depth + 1) (charsOf gs)) :
    ∃ after, skipRemark opener depth gs = .ok after ∧ PairsUp opens (charsOf after) := by
  fun_induction skipRemark opener depth gs with
  | case1 => exact absurd h.of_nil (Nat.succ_ne_zero _)
  | case2 depth g hescape =>
    rw [charsOf_cons, hescape] at h
    exact absurd h.of_last_escape (Nat.succ_ne_zero _)
  | case3 depth g hescape taken rest ih =>
    rw [charsOf_cons, charsOf_cons, hescape] at h
    exact ih h.of_escape
  | case4 depth g rest hescape hopen ih =>
    rw [charsOf_cons, hopen] at h
    exact ih h.of_opening
  | case5 g rest hescape hopen hclose =>
    rw [charsOf_cons, hclose] at h
    obtain ⟨less, hless, hrest⟩ := h.of_closing
    obtain rfl := Nat.succ.inj hless
    exact ⟨rest, rfl, hrest⟩
  | case6 g rest hescape hopen hclose depth ih =>
    rw [charsOf_cons, hclose] at h
    obtain ⟨less, hless, hrest⟩ := h.of_closing
    obtain rfl := Nat.succ.inj hless
    exact ih hrest
  | case7 depth g rest hescape hopen hclose ih => exact ih (h.of_plain hopen hclose hescape)

end PairsUp

theorem TopLevel.pairsUp {loose : List (List Char)} {cs : List Char} (h : TopLevel loose cs) :
    PairsUp 0 cs := by
  induction h with
  | nil => exact Pairs.done.pairsUp
  | blank hblank _ ih =>
    obtain ⟨tail, htail, hpairs⟩ := ih
    obtain ⟨hopen, hclose, hescape⟩ := plain_of_isBlank hblank
    exact ⟨tail, htail, .plain hopen hclose hescape hpairs⟩
  | group _ hinner _ ih =>
    obtain ⟨tail, htail, hpairs⟩ := ih
    exact ⟨tail, htail, .opening (hinner.pairs_append (.closing hpairs))⟩
  | escape taken _ ih =>
    obtain ⟨tail, htail, hpairs⟩ := ih
    exact ⟨tail, htail, .escape taken hpairs⟩
  | last => exact ⟨['\\'], .inr rfl, .done⟩

/-- A file of directives that passes its check pairs up. -/
theorem pairsUp_of_checkDirectives {path : String} {gs : List Glyph}
    (h : checkDirectives path [] gs = .ok ()) : PairsUp 0 (charsOf gs) := by
  obtain ⟨loose, hloose⟩ := checkDirectives_eq_ok_iff.1 h
  exact hloose.pairsUp

/-! ## Atoms -/

theorem IsName.isAtomChar {name rest : List Glyph} (h : IsName name rest) :
    ∀ c ∈ charsOf name, Source.isAtomChar c = true := by
  intro c hc
  obtain ⟨g, hg, rfl⟩ := List.mem_map.1 hc
  exact h.chars g hg

/-- Whether a text ends in a backslash that takes the next character for itself. -/
def endsInEscape : List Char → Bool
  | [] => false
  | [c] => c == '\\'
  | c :: taken :: rest => if c = '\\' then endsInEscape rest else endsInEscape (taken :: rest)

theorem plain_of_isAtomChar {c : Char} (h : isAtomChar c = true) : c ≠ '(' ∧ c ≠ ')' := by
  obtain ⟨-, hparens⟩ : isBlank c = false ∧ c ≠ '(' ∧ c ≠ ')' := by
    simpa [isAtomChar, and_assoc] using h
  exact hparens

/-- Behind an atom the count is as before it, unless the atom ends in a backslash that escapes the parenthesis behind. -/
theorem PairsUp.of_name {opens : Nat} {name rest : List Char}
    (hname : ∀ c ∈ name, isAtomChar c = true) (hends : EndsAtom rest)
    (h : PairsUp (opens + 1) (name ++ rest)) :
    PairsUp (opens + 1) rest ∨ endsInEscape name = true ∧
      ∃ paren more, rest = paren :: more ∧ (paren = '(' ∨ paren = ')') ∧
        PairsUp (opens + 1) more := by
  fun_induction endsInEscape name with
  | case1 => exact .inl h
  | case2 c =>
    obtain ⟨hopen, hclose⟩ := plain_of_isAtomChar (hname c List.mem_cons_self)
    by_cases hescape : c = '\\'
    · subst hescape
      cases rest with
      | nil => exact nomatch h.of_last_escape
      | cons paren more =>
        -- what ends an atom is blank or a parenthesis, and a blank counts for nothing
        have hmore := h.of_escape
        by_cases hparen : paren = '(' ∨ paren = ')'
        · exact .inr ⟨rfl, paren, more, rfl, hparen, hmore⟩
        · left
          obtain ⟨tail, htail, hpairs⟩ := hmore
          have hblank : isBlank paren = true := by
            have hatom := hends paren rfl
            simp only [not_or] at hparen
            simpa [isAtomChar, hparen] using hatom
          obtain ⟨hopen, hclose, hescape⟩ := plain_of_isBlank hblank
          exact ⟨tail, htail, .plain hopen hclose hescape hpairs⟩
    · exact .inl (h.of_plain hopen hclose hescape)
  | case3 taken rest' ih =>
    exact ih (fun c hc => hname c (by simp [hc])) h.of_escape
  | case4 c taken rest' hescape ih =>
    obtain ⟨hopen, hclose⟩ := plain_of_isAtomChar (hname c List.mem_cons_self)
    exact ih (fun d hd => hname d (List.mem_cons_of_mem _ hd)) (h.of_plain hopen hclose hescape)

/-! ## Remarks -/

/-- Where the scanner of tokens can be in a block whose parentheses pair up: at text that pairs up, with a form open if
an atom is due, or at a parenthesis too many, which severed an atom. -/
inductive OnTrack : Option Location → List Char → Prop where
  | paired {pending : Option Location} {opens : Nat} {cs : List Char}
      (hpending : pending.isSome = true → 0 < opens) (hcs : PairsUp opens cs) : OnTrack pending cs
  | severed {opens : Nat} {paren : Char} {rest : List Char} (hparen : paren = '(' ∨ paren = ')')
      (hrest : PairsUp (opens + 1) rest) : OnTrack none (paren :: rest)

/-- Where no atom is waited for, it is enough that the text pairs up. -/
theorem OnTrack.of_pairsUp {opens : Nat} {cs : List Char} (h : PairsUp opens cs) : OnTrack none cs :=
  .paired (by simp) h

theorem OnTrack.of_isBlank {pending : Option Location} {c : Char} {rest : List Char}
    (hblank : isBlank c = true) (h : OnTrack pending (c :: rest)) : OnTrack pending rest := by
  cases h with
  | paired hpending hcs => exact .paired hpending (hcs.of_isBlank hblank)
  | severed hparen =>
    obtain ⟨hopen, hclose, -⟩ := plain_of_isBlank hblank
    exact absurd hparen (by simp [hopen, hclose])

/-- A remark is closed, even where the scanner should not have seen it. -/
theorem OnTrack.exists_skipRemark {pending : Option Location} {g : Glyph} {rest : List Glyph}
    (hstar : startsWith ['(', '*'] (g :: rest) = true) (h : OnTrack pending (charsOf (g :: rest))) :
    ∃ after, skipRemark g.location 0 (rest.drop 1) = .ok after ∧
      OnTrack pending (charsOf after) := by
  cases rest with
  | nil => simp [startsWith] at hstar
  | cons star rest =>
    obtain ⟨hopen, hmark⟩ : g.char = '(' ∧ star.char = '*' := by simpa [startsWith] using hstar
    rw [charsOf_cons, charsOf_cons, hopen, hmark] at h
    cases h with
    | paired hpending hcs =>
      have hinside := hcs.of_opening.of_plain (by decide) (by decide) (by decide)
      obtain ⟨after, hskip, hafter⟩ := PairsUp.exists_skipRemark g.location 0 hinside
      exact ⟨after, hskip, .paired hpending hafter⟩
    | severed _ hrest =>
      have hinside := hrest.of_plain (by decide) (by decide) (by decide)
      obtain ⟨after, hskip, hafter⟩ := PairsUp.exists_skipRemark g.location 0 hinside
      exact ⟨after, hskip, .of_pairsUp hafter⟩

theorem OnTrack.of_opening {opener : Location} {rest : List Char} (h : OnTrack none ('(' :: rest)) :
    OnTrack (some opener) rest := by
  cases h with
  | paired _ hcs => exact .paired (fun _ => Nat.succ_pos _) hcs.of_opening
  | severed _ hrest => exact .paired (fun _ => Nat.succ_pos _) hrest

theorem OnTrack.of_closing {rest : List Char} (h : OnTrack none (')' :: rest)) :
    OnTrack none rest := by
  cases h with
  | paired _ hcs =>
    obtain ⟨less, -, hrest⟩ := hcs.of_closing
    exact .of_pairsUp hrest
  | severed _ hrest => exact .of_pairsUp hrest

/-- At a character that is no parenthesis, the text pairs up. -/
theorem OnTrack.exists_pairsUp {pending : Option Location} {c : Char} {rest : List Char}
    (hopen : c ≠ '(') (hclose : c ≠ ')') (h : OnTrack pending (c :: rest)) :
    ∃ opens, (pending.isSome = true → 0 < opens) ∧ PairsUp opens (c :: rest) := by
  cases h with
  | paired hpending hcs => exact ⟨_, hpending, hcs⟩
  | severed hparen => exact absurd hparen (by simp [hopen, hclose])

theorem OnTrack.of_name {opens : Nat} {name rest : List Glyph} (hname : IsName name rest)
    (hpositive : 0 < opens) (h : PairsUp opens (charsOf name ++ charsOf rest)) :
    OnTrack none (charsOf rest) := by
  obtain ⟨less, rfl⟩ := Nat.exists_eq_add_one.2 hpositive
  rcases h.of_name hname.isAtomChar hname.ends with hrest | ⟨-, paren, more, hrest, hparen, hmore⟩
  · exact .of_pairsUp hrest
  · rw [hrest]
    exact .severed hparen hmore

/-- **Remarks are closed**: where the scanner of tokens is on track, it fails for another cause if it fails. -/
theorem cause_of_blockTokens {pending : Option Location} {gs : List Glyph} {fault : Fault}
    (htrack : OnTrack pending (charsOf gs)) (h : blockTokens pending gs = .error fault) :
    fault.cause ≠ .remarkOpen := by
  fun_induction blockTokens pending gs with
  | case1 opener =>
    cases h
    intro hcause
    cases hcause
  | case2 => cases h
  | case3 pending g rest hblank ih => exact ih (htrack.of_isBlank hblank) h
  | case4 pending g rest hblank hstar fault' hskip =>
    obtain ⟨after, hclosed, -⟩ := htrack.exists_skipRemark hstar
    cases hskip.symm.trans hclosed
  | case5 pending g rest hblank hstar after hskip ih =>
    obtain ⟨after', hclosed, hafter⟩ := htrack.exists_skipRemark hstar
    obtain rfl := Except.ok.inj (hskip.symm.trans hclosed)
    exact ih hafter h
  | case6 g rest hblank hstar hopen opener =>
    cases h
    intro hcause
    cases hcause
  | case7 g rest hblank hstar hopen ih =>
    rw [charsOf_cons, hopen] at htrack
    exact ih htrack.of_opening h
  | case8 g rest hblank hstar hopen hclose opener =>
    cases h
    intro hcause
    cases hcause
  | case9 g rest hblank hstar hopen hclose ih =>
    rw [charsOf_cons, hclose] at htrack
    exact ih htrack.of_closing (except_map_eq_error.1 h)
  | case10 g rest hblank hstar hopen hclose opener ih =>
    have hname := isName_takeWhile (by simpa using hblank) hopen hclose rest
    obtain ⟨opens, hpositive, hcs⟩ := htrack.exists_pairsUp hopen hclose
    have hsplit : charsOf (g :: rest.takeWhile (isAtomChar ·.char)) ++
        charsOf (rest.dropWhile (isAtomChar ·.char)) = charsOf (g :: rest) := by
      rw [← charsOf_append, List.cons_append, List.takeWhile_append_dropWhile]
    exact ih (.of_name hname (hpositive rfl) (hsplit ▸ hcs)) (except_map_eq_error.1 h)
  | case11 g rest hblank hstar hopen hclose ih =>
    obtain ⟨opens, -, hcs⟩ := htrack.exists_pairsUp hopen hclose
    exact ih (.of_pairsUp hcs.of_readParameter) (except_map_eq_error.1 h)

/-! ## Forms -/

/-- Whether tokens close all forms that they open and the `opens` that are open before them, with prose outside of
forms only. -/
def closesForms : Nat → List Token → Bool
  | opens, [] => opens == 0
  | opens, .prose _ _ :: rest => opens == 0 && closesForms opens rest
  | opens, .atom _ _ :: rest => closesForms (opens + 1) rest
  | opens, .parameter _ _ :: rest => closesForms opens rest
  | 0, .close _ :: _ => false
  | opens + 1, .close _ :: rest => closesForms opens rest

theorem closesForms_append {opens : Nat} {first others : List Token}
    (hfirst : closesForms opens first = true) (hothers : closesForms 0 others = true) :
    closesForms opens (first ++ others) = true := by
  fun_induction closesForms opens first with
  | case1 opens =>
    obtain rfl : opens = 0 := by simpa using hfirst
    exact hothers
  | case2 opens text location rest ih =>
    obtain ⟨hopens, hrest⟩ := Bool.and_eq_true_iff.1 hfirst
    exact Bool.and_eq_true_iff.2 ⟨hopens, ih hrest⟩
  | case3 opens text location rest ih => exact ih hfirst
  | case4 opens text location rest ih => exact ih hfirst
  | case5 => cases hfirst
  | case6 opens location rest ih => exact ih hfirst

/-- Forms that pair up are not refused for their parentheses. -/
theorem cause_of_readItems {opens : List Form} {tokens : List Token} {fault : Fault}
    (hforms : closesForms opens.length tokens = true)
    (h : readItems opens tokens = .error fault) : fault.cause.isImbalance = false := by
  fun_induction readItems opens tokens with
  | case1 => cases h
  | case2 | case4 | case10 => simp [closesForms] at hforms
  | case3 text location rest ih =>
    exact ih (Bool.and_eq_true_iff.1 hforms).2 (except_map_eq_error.1 h)
  | case5 opens text location rest ih => exact ih hforms h
  | case6 | case7 | case8 =>
    cases h
    rfl
  | case9 text location rest innermost outer hlate htwice ih => exact ih hforms h
  | case11 location rest outermost ih => exact ih hforms (except_map_eq_error.1 h)
  | case12 location rest innermost parent outer ih => exact ih hforms h

/-! ## Severed atoms -/

/-- An atom stands there whose last backslash escapes the parenthesis that ends it. -/
def Token.SeveredAt : Token → List Char → Prop
  | .atom text _, cs => ∃ gap paren rest, cs = '(' :: (gap ++ (text.toList ++ paren :: rest)) ∧
      Gap gap ∧ endsInEscape text.toList = true ∧ (paren = '(' ∨ paren = ')')
  | _, _ => False

theorem Token.SeveredAt.append {token : Token} {cs : List Char} (h : token.SeveredAt cs)
    (more : List Char) : token.SeveredAt (cs ++ more) := by
  cases token with
  | atom text location =>
    obtain ⟨gap, paren, rest, rfl, hgap, hescape, hparen⟩ := h
    exact ⟨gap, paren, rest ++ more, by simp, hgap, hescape, hparen⟩
  | prose | parameter | close => exact h

/-- Of the tokens, none is an atom that is severed at its glyph. -/
def Unsevered (gs : List Glyph) (tokens : List Token) : Prop :=
  ∀ token ∈ tokens, ∀ g rest, (g :: rest) <:+ gs → token.location = g.location →
    ¬token.SeveredAt (charsOf (g :: rest))

namespace Unsevered

variable {gs : List Glyph} {tokens : List Token}

theorem of_suffix {rest : List Glyph} (h : Unsevered gs tokens) (hrest : rest <:+ gs) :
    Unsevered rest tokens :=
  fun token htoken g more hmore => h token htoken g more (hmore.trans hrest)

theorem of_append {after : List Glyph} (h : Unsevered (gs ++ after) tokens) :
    Unsevered gs tokens := by
  intro token htoken g rest hrest hplace hsevered
  obtain ⟨before, rfl⟩ := hrest
  refine h token htoken g (rest ++ after) ⟨before, by simp⟩ hplace ?_
  have hmore := hsevered.append (charsOf after)
  rwa [← charsOf_append] at hmore

theorem of_subset {fewer : List Token} (h : Unsevered gs tokens) (hfewer : fewer ⊆ tokens) :
    Unsevered gs fewer :=
  fun token htoken => h token (hfewer htoken)

end Unsevered

/-- **Forms pair up where no atom is severed.** -/
theorem Lexes.closesForms {gs : List Glyph} {tokens : List Token} (h : Lexes gs tokens)
    {opens : Nat} (hpairs : PairsUp opens (charsOf gs)) (hwhole : Unsevered gs tokens) :
    closesForms opens tokens = true := by
  induction h generalizing opens with
  | nil =>
    obtain rfl := hpairs.of_nil
    rfl
  | @gap gap rest tokens hgap _ ih =>
    rw [charsOf_append] at hpairs
    exact ih (hpairs.of_gap hgap) (hwhole.of_suffix (List.suffix_append gap rest))
  | @atom g gap name rest tokens hopen hgap hname _ ih =>
    have hinside : PairsUp (opens + 1) (charsOf gap ++ (charsOf name ++ charsOf rest)) := by
      rw [charsOf_cons, hopen, charsOf_append, charsOf_append] at hpairs
      exact hpairs.of_opening
    have hrest : rest <:+ g :: (gap ++ (name ++ rest)) := ⟨g :: (gap ++ name), by simp⟩
    rcases (hinside.of_gap hgap).of_name hname.isAtomChar hname.ends with
      hcs | ⟨hescape, paren, more, hmore, hparen, -⟩
    · exact ih hcs ((hwhole.of_suffix hrest).of_subset (List.subset_cons_self _ _))
    · refine absurd ?_ (hwhole _ List.mem_cons_self g _ (List.suffix_refl _) rfl)
      refine ⟨charsOf gap, paren, more, ?_, hgap, ?_, hparen⟩
      · simp [hopen, hmore, textOf]
      · rwa [textOf, String.toList_ofList]
  | @close g rest tokens hclose _ ih =>
    rw [charsOf_cons, hclose] at hpairs
    obtain ⟨less, rfl, hrest⟩ := hpairs.of_closing
    exact ih hrest ((hwhole.of_suffix (List.suffix_cons g rest)).of_subset
      (List.subset_cons_self _ _))
  | @parameter g rest tokens hblank hopen hclose _ ih =>
    obtain ⟨words, hwords⟩ := exists_words_of_readParameter (g :: rest)
    exact ih hpairs.of_readParameter ((hwhole.of_suffix ⟨words, hwords.symm⟩).of_subset
      (List.subset_cons_self _ _))

/-- The forms of pieces pair up where no atom is severed. -/
theorem Cuts.closesForms {gs : List Glyph} {found : List Piece} (h : Cuts gs found)
    {tokens : List Token} (htokens : tokenize (found.filterMap Piece.toPart?) = .ok tokens)
    (hwhole : Unsevered gs tokens) : closesForms 0 tokens = true := by
  induction h generalizing tokens with
  | nil =>
    cases htokens
    rfl
  | @skip gs found g _ ih => exact ih htokens (hwhole.of_suffix (List.suffix_cons g gs))
  | @prose gs found g more _ ih =>
    obtain ⟨others, hothers, rfl⟩ := except_map_eq_ok.1 htokens
    have hrest := ih hothers ((hwhole.of_suffix (List.suffix_cons g gs)).of_subset
      (List.subset_cons_self _ _))
    exact hrest
  | @block start body gs close found hbody hpairs hclose _ ih =>
    obtain ⟨first, hfirst, hrest⟩ := except_bind_eq_ok.1 htokens
    obtain ⟨others, hothers, heq⟩ := except_bind_eq_ok.1 hrest
    cases heq
    rw [textOf, String.toList_ofList, ← hbody] at hfirst
    have hafter : gs <:+ body ++ close :: gs := ⟨body ++ [close], by simp⟩
    refine closesForms_append ?_ ?_
    · exact (lexes_of_blockTokens hfirst).closesForms hpairs.pairsUp
        (hwhole.of_append.of_subset (List.subset_append_left _ _))
    · exact ih hothers ((hwhole.of_suffix hafter).of_subset (List.subset_append_right _ _))

/-- The remarks of pieces are closed. -/
theorem Cuts.cause_of_tokenize {gs : List Glyph} {found : List Piece} (h : Cuts gs found)
    {fault : Fault} (hfault : tokenize (found.filterMap Piece.toPart?) = .error fault) :
    fault.cause ≠ .remarkOpen := by
  induction h with
  | nil => cases hfault
  | skip _ _ ih => exact ih hfault
  | prose _ _ _ ih => exact ih (except_map_eq_error.1 hfault)
  | @block start body gs close found hbody hpairs hclose _ ih =>
    have hrun : (blockTokens none (glyphs start (textOf body).toList)).bind (fun first =>
        (tokenize (found.filterMap Piece.toPart?)).bind fun others => .ok (first ++ others)) =
          .error fault := hfault
    rw [textOf, String.toList_ofList, ← hbody] at hrun
    cases hfirst : blockTokens none body with
    | error other =>
      rw [hfirst] at hrun
      cases hrun
      have htrack : OnTrack none (charsOf body) := .of_pairsUp hpairs.pairsUp
      exact cause_of_blockTokens htrack hfirst
    | ok first =>
      rw [hfirst] at hrun
      cases hothers : tokenize (found.filterMap Piece.toPart?) with
      | error other =>
        rw [hothers] at hrun
        cases hrun
        exact ih hothers
      | ok others =>
        rw [hothers] at hrun
        cases hrun

/-! ## Documents -/

/-- A glyph of a text stands at an index of it. -/
theorem exists_index_of_suffix {document : Coordinate} {text : List Char} {g : Glyph}
    {rest : List Glyph} (h : (g :: rest) <:+ glyphs document.start text) :
    ∃ k, g.location = ⟨document, positionAt text k⟩ ∧ charsOf (g :: rest) = text.drop k := by
  obtain ⟨before, hbefore⟩ := h
  have hchars : charsOf before ++ charsOf (g :: rest) = text := by
    rw [← charsOf_append, hbefore, charsOf_glyphs]
  have hstand := standFrom_glyphs document.start text
  rw [← hbefore] at hstand
  refine ⟨(charsOf before).length, ?_, ?_⟩
  · rw [hstand.of_append.2.of_cons.1, Location.advanceOver_eq, positionAt, ← hchars, List.take_left]
    rfl
  · rw [← hchars, List.drop_left]

/-- Tokens that are not severed in a text are not severed at its glyphs. -/
theorem unsevered_of_text {document : Coordinate} {text : List Char} {tokens : List Token}
    (h : ∀ token ∈ tokens, ∀ k, token.location = ⟨document, positionAt text k⟩ →
      ¬token.SeveredAt (text.drop k)) : Unsevered (glyphs document.start text) tokens := by
  intro token htoken g rest hrest hplace
  obtain ⟨k, hg, hchars⟩ := exists_index_of_suffix hrest
  rw [hchars]
  exact h token htoken k (hplace.trans hg)

theorem cause_of_tokenize_splitText {document : Coordinate} {text : List Char} {parts : List Part}
    (hsplit : splitText document text = .ok parts) {fault : Fault}
    (hfault : tokenize parts = .error fault) : fault.cause ≠ .remarkOpen := by
  unfold splitText at hsplit
  split at hsplit
  next =>
    obtain ⟨found, hfound, rfl⟩ := except_map_eq_ok.1 hsplit
    exact (cuts_of_pieces hfound).merge.cause_of_tokenize hfault
  next =>
    obtain ⟨_, hcheck, rfl⟩ := except_map_eq_ok.1 hsplit
    split at hfault
    next => cases hfault
    next =>
      rw [tokenize_single, String.toList_ofList] at hfault
      have htrack : OnTrack none (charsOf (glyphs document.start text)) :=
        .of_pairsUp (pairsUp_of_checkDirectives hcheck)
      exact cause_of_blockTokens htrack hfault

theorem closesForms_of_splitText {document : Coordinate} {text : List Char} {parts : List Part}
    {tokens : List Token} (hsplit : splitText document text = .ok parts)
    (htokens : tokenize parts = .ok tokens)
    (hwhole : Unsevered (glyphs document.start text) tokens) : closesForms 0 tokens = true := by
  unfold splitText at hsplit
  split at hsplit
  next =>
    obtain ⟨found, hfound, rfl⟩ := except_map_eq_ok.1 hsplit
    exact (cuts_of_pieces hfound).merge.closesForms htokens hwhole
  next =>
    obtain ⟨_, hcheck, rfl⟩ := except_map_eq_ok.1 hsplit
    split at htokens
    next =>
      cases htokens
      rfl
    next =>
      rw [tokenize_single, String.toList_ofList] at htokens
      exact (lexes_of_blockTokens htokens).closesForms (pairsUp_of_checkDirectives hcheck) hwhole

/-- **The scanners agree on remarks, and on forms where no atom is severed**: a remark of a document that was split is
closed, and its tokens, if they can be read and none of them is severed where it stands, spell forms that pair up. -/
theorem scanners_agree {document : Coordinate} {text : String} {parts : List Part}
    (hsplit : split document text = .ok parts) :
    (∀ fault, tokenize parts = .error fault → fault.cause ≠ .remarkOpen) ∧
      ∀ tokens, tokenize parts = .ok tokens →
        (∀ token ∈ tokens, ∀ k,
          token.location = ⟨document, positionAt (unifyNewlines text.toList) k⟩ →
            ¬token.SeveredAt ((unifyNewlines text.toList).drop k)) →
        ∀ fault, Item.ofTokens tokens = .error fault → fault.cause.isImbalance = false := by
  unfold split at hsplit
  split at hsplit
  next => cases hsplit
  next =>
    rw [except_mapError_eq_ok] at hsplit
    refine ⟨fun fault => cause_of_tokenize_splitText hsplit, ?_⟩
    intro tokens htokens hwhole fault hfault
    have hforms : closesForms ([] : List Form).length tokens = true :=
      closesForms_of_splitText hsplit htokens (unsevered_of_text hwhole)
    exact cause_of_readItems hforms hfault

/-- Backslashes inside of an atom and before a parenthesis of a parameter change nothing: what is wrong with this text is
that a parameter comes too late. -/
theorem scanners_agree_escaped : ∃ parts tokens fault,
    split ⟨"/docs/a.dlisp", 1, 1⟩ "(a\\b (c \\() d)" = .ok parts ∧ tokenize parts = .ok tokens ∧
    Item.ofTokens tokens = .error fault ∧ fault.cause.isImbalance = false := by
  let document : Coordinate := ⟨"/docs/a.dlisp", 1, 1⟩
  have hsplit : split document "(a\\b (c \\() d)" =
      .ok [.block "(a\\b (c \\() d)" document.start] := ok_of_toOption (by decide +kernel)
  have htokens : tokenize [.block "(a\\b (c \\() d)" document.start] =
      .ok [.atom "a\\b" ⟨document, ⟨1, 1⟩⟩, .atom "c" ⟨document, ⟨1, 6⟩⟩,
        .parameter "(" ⟨document, ⟨1, 9⟩⟩, .close ⟨document, ⟨1, 11⟩⟩,
        .parameter "d" ⟨document, ⟨1, 13⟩⟩, .close ⟨document, ⟨1, 14⟩⟩] :=
    ok_of_toOption (by decide +kernel)
  refine ⟨_, _, ⟨.parameterLate "a\\b", ⟨document, ⟨1, 13⟩⟩⟩, hsplit, htokens, rfl, ?_⟩
  refine (scanners_agree hsplit).2 _ htokens (fun token htoken k _ hsevered => ?_) _ rfl
  simp only [List.mem_cons, List.not_mem_nil, or_false] at htoken
  rcases htoken with rfl | rfl | rfl | rfl | rfl | rfl
  · obtain ⟨_, _, _, -, -, hescape, -⟩ := hsevered
    exact absurd hescape (by decide)
  · obtain ⟨_, _, _, -, -, hescape, -⟩ := hsevered
    exact absurd hescape (by decide)
  all_goals exact hsevered

/-- An escaped parenthesis behind an atom opens a form of its own, and the outermost form is left without its closing
parenthesis although the parentheses of the text pair up. -/
theorem severed_atom_unbalances : ∃ parts tokens fault,
    split ⟨"/docs/a.dlisp", 1, 1⟩ "(section-meta (title T) (include (a\\( c.md)))" = .ok parts ∧
    tokenize parts = .ok tokens ∧ Item.ofTokens tokens = .error fault ∧
    fault = ⟨.formOpen "section-meta", ⟨⟨"/docs/a.dlisp", 1, 1⟩, ⟨1, 1⟩⟩⟩ := by
  let document : Coordinate := ⟨"/docs/a.dlisp", 1, 1⟩
  have hsplit : split document "(section-meta (title T) (include (a\\( c.md)))" =
      .ok [.block "(section-meta (title T) (include (a\\( c.md)))" document.start] :=
    ok_of_toOption (by decide +kernel)
  have htokens : tokenize [.block "(section-meta (title T) (include (a\\( c.md)))" document.start] =
      .ok [.atom "section-meta" ⟨document, ⟨1, 1⟩⟩, .atom "title" ⟨document, ⟨1, 15⟩⟩,
        .parameter "T" ⟨document, ⟨1, 22⟩⟩, .close ⟨document, ⟨1, 23⟩⟩,
        .atom "include" ⟨document, ⟨1, 25⟩⟩, .atom "a\\" ⟨document, ⟨1, 34⟩⟩,
        .atom "c.md" ⟨document, ⟨1, 37⟩⟩, .close ⟨document, ⟨1, 43⟩⟩,
        .close ⟨document, ⟨1, 44⟩⟩, .close ⟨document, ⟨1, 45⟩⟩] :=
    ok_of_toOption (by decide +kernel)
  exact ⟨_, _, _, hsplit, htokens, rfl, rfl⟩

end Source
end Bindery
