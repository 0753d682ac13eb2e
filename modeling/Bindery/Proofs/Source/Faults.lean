import Bindery.Proofs.Displacement.Form
import Bindery.Proofs.Source.Positions

/-!
# `Proofs.Source.Faults` — which places the scanners blame

A fault is found at one place and often blamed on another: on the opener of what was not closed, or on a parenthesis whose
atom did not come. All these are places that the scanner has come by. So whatever holds of the places of all glyphs holds
of the place that is blamed, and of the places of all tokens.

## Contents
- `Blames`: results that blame certain places only, and what their values are like.
- `readBlock_blames`, `readComment_blames`, `pieces_blames`, `checkDirectives_blames`: the extent of blocks.
- `blockTokens_blames`, `Cuts.tokenize_blames`: the words of blocks.
- `documentTokens_blames`: whole documents.
-/

namespace Bindery

/-! ## Blaming -/

/-- A fault is blamed on a place where `P` holds, and without a fault the value is as told. -/
inductive Blames (P : Location → Prop) (Q : α → Prop) : Except Fault α → Prop where
  | ok {a : α} (h : Q a) : Blames P Q (.ok a)
  | error {fault : Fault} (h : P fault.location) : Blames P Q (.error fault)

variable {P : Location → Prop}

theorem Blames.of_ok {Q : α → Prop} {a : α} (h : Blames P Q (.ok a)) : Q a := by
  cases h with
  | ok h => exact h

theorem Blames.of_error {Q : α → Prop} {fault : Fault} (h : Blames P Q (.error fault)) :
    P fault.location := by
  cases h with
  | error h => exact h

theorem Blames.map {Q : α → Prop} {R : β → Prop} {x : Except Fault α} {f : α → β}
    (h : Blames P Q x) (hf : ∀ a, Q a → R (f a)) : Blames P R (x.map f) := by
  cases h with
  | ok h => exact .ok (hf _ h)
  | error h => exact .error h

theorem Blames.bind {Q : α → Prop} {R : β → Prop} {x : Except Fault α} {f : α → Except Fault β}
    (h : Blames P Q x) (hf : ∀ a, Q a → Blames P R (f a)) : Blames P R (x.bind f) := by
  cases h with
  | ok h => exact hf _ h
  | error h => exact .error h

namespace Source

open Text

/-- What holds of all glyphs holds of those that are left. -/
theorem forall_location_of_suffix {gs later : List Glyph} (h : ∀ g ∈ gs, P g.location)
    (hlater : later <:+ gs) : ∀ g ∈ later, P g.location :=
  fun g hg => h g (hlater.subset hg)

/-! ## Blocks -/

/-- A block that the text ends in is blamed on an open parenthesis or on its opener. -/
theorem unfinished_location {opener : Location} {opens : List Location} (hopener : P opener)
    (hopens : ∀ place ∈ opens, P place) : P (unfinished opener opens).location := by
  cases opens with
  | nil => exact hopener
  | cons innermost outer => exact hopens innermost List.mem_cons_self

theorem readBlock_blames {opener : Location} {opens : List Location} {gs : List Glyph}
    (hopener : P opener) (hopens : ∀ place ∈ opens, P place) (hgs : ∀ g ∈ gs, P g.location) :
    Blames P (fun read => ∀ g ∈ read.2, P g.location) (readBlock opener opens gs) := by
  fun_induction readBlock opener opens gs with
  | case1 opens => exact .error (unfinished_location hopener hopens)
  | case2 opens g rest hmark => exact .error hopener
  | case3 opens g hescape hmark => exact .error (unfinished_location hopener hopens)
  | case4 opens g hescape taken rest hmark ih =>
    obtain ⟨-, hgs⟩ := List.forall_mem_cons.1 hgs
    obtain ⟨-, hrest⟩ := List.forall_mem_cons.1 hgs
    exact (ih hopens hrest).map fun _ hread => hread
  | case5 opens g rest hmark hescape hopen hnested => exact .error (hgs g List.mem_cons_self)
  | case6 opens g rest hmark hescape hopen hnested ih =>
    -- the parenthesis may be blamed from here on
    obtain ⟨hg, hrest⟩ := List.forall_mem_cons.1 hgs
    exact (ih (List.forall_mem_cons.2 ⟨hg, hopens⟩) hrest).map fun _ hread => hread
  | case7 g rest hmark hescape hopen hclose => exact .ok (List.forall_mem_cons.1 hgs).2
  | case8 g rest hmark hescape hopen hclose innermost outer ih =>
    obtain ⟨-, houter⟩ := List.forall_mem_cons.1 hopens
    obtain ⟨-, hrest⟩ := List.forall_mem_cons.1 hgs
    exact (ih houter hrest).map fun _ hread => hread
  | case9 opens g rest hmark hescape hopen hclose ih =>
    obtain ⟨-, hrest⟩ := List.forall_mem_cons.1 hgs
    exact (ih hopens hrest).map fun _ hread => hread

theorem allClosed_blames {opens : List Location} (hopens : ∀ place ∈ opens, P place) :
    Blames P (fun _ => True) (allClosed opens) := by
  cases opens with
  | nil => exact .ok trivial
  | cons innermost outer => exact .error (hopens innermost List.mem_cons_self)

theorem checkDirectives_blames (path : String) {opens : List Location} {gs : List Glyph}
    (hopens : ∀ place ∈ opens, P place) (hgs : ∀ g ∈ gs, P g.location) :
    Blames P (fun _ => True) (checkDirectives path opens gs) := by
  fun_induction checkDirectives path opens gs with
  | case1 opens => exact allClosed_blames hopens
  | case2 opens g hescape => exact allClosed_blames hopens
  | case3 opens g hescape taken rest ih =>
    obtain ⟨-, hgs⟩ := List.forall_mem_cons.1 hgs
    exact ih hopens (List.forall_mem_cons.1 hgs).2
  | case4 opens g rest hescape hopen hnested => exact .error (hgs g List.mem_cons_self)
  | case5 opens g rest hescape hopen hnested ih =>
    obtain ⟨hg, hrest⟩ := List.forall_mem_cons.1 hgs
    exact ih (List.forall_mem_cons.2 ⟨hg, hopens⟩) hrest
  | case6 g rest hescape hopen hclose => exact .error (hgs g List.mem_cons_self)
  | case7 g rest hescape hopen hclose innermost outer ih =>
    exact ih (List.forall_mem_cons.1 hopens).2 (List.forall_mem_cons.1 hgs).2
  | case8 opens g rest hescape hopen hclose houtside => exact .error (hgs g List.mem_cons_self)
  | case9 opens g rest hescape hopen hclose houtside ih =>
    exact ih hopens (List.forall_mem_cons.1 hgs).2

/-! ## Pieces -/

theorem readComment_blames {opener : Location} {gs : List Glyph} (hopener : P opener)
    (hgs : ∀ g ∈ gs, P g.location) :
    Blames P (fun read => ∀ g ∈ read.2, P g.location) (readComment opener gs) := by
  fun_induction readComment opener gs with
  | case1 => exact .error hopener
  | case2 g rest hmark =>
    have hdrop : rest.drop 2 <:+ g :: rest :=
      (List.drop_suffix 2 rest).trans (List.suffix_cons g rest)
    exact .ok (forall_location_of_suffix hgs hdrop)
  | case3 g rest hmark hopens fault hblock =>
    obtain ⟨hg, hrest⟩ := List.forall_mem_cons.1 hgs
    have hinside := forall_location_of_suffix hrest (List.drop_suffix 2 rest)
    have hread := readBlock_blames hg (List.forall_mem_nil P) hinside
    rw [hblock] at hread
    exact .error hread.of_error
  | case4 g rest hmark hopens body later hblock ih =>
    obtain ⟨hg, hrest⟩ := List.forall_mem_cons.1 hgs
    have hinside := forall_location_of_suffix hrest (List.drop_suffix 2 rest)
    have hread := readBlock_blames hg (List.forall_mem_nil P) hinside
    rw [hblock] at hread
    exact (ih hread.of_ok).map fun _ hafter => hafter
  | case5 g rest hmark hopens ih => exact ih (List.forall_mem_cons.1 hgs).2

theorem pieces_blames {gs : List Glyph} (hgs : ∀ g ∈ gs, P g.location) :
    Blames P (fun _ => True) (pieces gs) := by
  fun_induction pieces gs with
  | case1 => exact .ok trivial
  | case2 g rest hmark hfence => exact .error (hgs g List.mem_cons_self)
  | case3 g rest hmark body after hfence ih =>
    obtain ⟨-, hrest⟩ := List.forall_mem_cons.1 hgs
    have hafter : after <:+ rest.drop 2 := ⟨body, (append_of_closeFence hfence).symm⟩
    have hlater := forall_location_of_suffix hrest (hafter.trans (List.drop_suffix 2 rest))
    exact (ih hlater).map fun _ _ => trivial
  | case4 g rest hmark htick hspan => exact .error (hgs g List.mem_cons_self)
  | case5 g rest hmark htick body after hspan ih =>
    obtain ⟨-, hrest⟩ := List.forall_mem_cons.1 hgs
    have hafter : after <:+ rest := ⟨body, (append_of_closeSpan hspan).symm⟩
    exact (ih (forall_location_of_suffix hrest hafter)).map fun _ _ => trivial
  | case6 g rest hmark htick hstart fault hcomment =>
    obtain ⟨hg, hrest⟩ := List.forall_mem_cons.1 hgs
    have hread := readComment_blames hg (forall_location_of_suffix hrest (List.drop_suffix 3 rest))
    rw [hcomment] at hread
    exact .error hread.of_error
  | case7 g rest hmark htick hstart blocks after hcomment ih =>
    obtain ⟨hg, hrest⟩ := List.forall_mem_cons.1 hgs
    have hread := readComment_blames hg (forall_location_of_suffix hrest (List.drop_suffix 3 rest))
    rw [hcomment] at hread
    exact (ih hread.of_ok).map fun _ _ => trivial
  | case8 g rest hmark htick hstart ih =>
    exact (ih (List.forall_mem_cons.1 hgs).2).map fun _ _ => trivial

/-! ## Tokens -/

theorem skipRemark_blames {opener : Location} {gs : List Glyph} (hopener : P opener)
    (hgs : ∀ g ∈ gs, P g.location) (depth : Nat) :
    Blames P (fun later => ∀ g ∈ later, P g.location) (skipRemark opener depth gs) := by
  fun_induction skipRemark opener depth gs with
  | case1 | case2 => exact .error hopener
  | case3 depth g hescape taken rest ih =>
    obtain ⟨-, hgs⟩ := List.forall_mem_cons.1 hgs
    exact ih (List.forall_mem_cons.1 hgs).2
  | case5 g rest hescape hopen hclose => exact .ok (List.forall_mem_cons.1 hgs).2
  | case4 depth g rest hescape hopen ih | case6 g rest hescape hopen hclose depth ih
  | case7 depth g rest hescape hopen hclose ih => exact ih (List.forall_mem_cons.1 hgs).2

/-- The places of tokens, and those that a block is blamed on, are places of its glyphs or of the parenthesis before them. -/
theorem blockTokens_blames {pending : Option Location} {gs : List Glyph}
    (hpending : ∀ opener ∈ pending, P opener) (hgs : ∀ g ∈ gs, P g.location) :
    Blames P (fun tokens => ∀ token ∈ tokens, P token.location) (blockTokens pending gs) := by
  fun_induction blockTokens pending gs with
  | case1 opener => exact .error (hpending opener rfl)
  | case2 => exact .ok (List.forall_mem_nil _)
  | case3 pending g rest hblank ih => exact ih hpending (List.forall_mem_cons.1 hgs).2
  | case4 pending g rest hblank hremark fault hskip =>
    obtain ⟨hg, hrest⟩ := List.forall_mem_cons.1 hgs
    have hread := skipRemark_blames hg (forall_location_of_suffix hrest (List.drop_suffix 1 rest)) 0
    rw [hskip] at hread
    exact .error hread.of_error
  | case5 pending g rest hblank hremark after hskip ih =>
    obtain ⟨hg, hrest⟩ := List.forall_mem_cons.1 hgs
    have hread := skipRemark_blames hg (forall_location_of_suffix hrest (List.drop_suffix 1 rest)) 0
    rw [hskip] at hread
    exact ih hpending hread.of_ok
  | case6 g rest hblank hremark hopen opener => exact .error (hpending opener rfl)
  | case7 g rest hblank hremark hopen ih =>
    obtain ⟨hg, hrest⟩ := List.forall_mem_cons.1 hgs
    refine ih ?_ hrest
    intro opener hopener
    cases hopener
    exact hg
  | case8 g rest hblank hremark hopen hclose opener => exact .error (hpending opener rfl)
  | case9 g rest hblank hremark hopen hclose ih =>
    obtain ⟨hg, hrest⟩ := List.forall_mem_cons.1 hgs
    exact (ih (by simp) hrest).map fun _ htokens => List.forall_mem_cons.2 ⟨hg, htokens⟩
  | case10 g rest hblank hremark hopen hclose opener ih =>
    -- the atom stands where its parenthesis does
    obtain ⟨-, hrest⟩ := List.forall_mem_cons.1 hgs
    have hlater := forall_location_of_suffix hrest (List.dropWhile_suffix (isAtomChar ·.char))
    refine (ih (by simp) hlater).map fun _ htokens => ?_
    exact List.forall_mem_cons.2 ⟨hpending opener rfl, htokens⟩
  | case11 g rest hblank hremark hopen hclose ih =>
    obtain ⟨words, hwords⟩ := exists_words_of_readParameter (g :: rest)
    have hlater := forall_location_of_suffix hgs ⟨words, hwords.symm⟩
    refine (ih (by simp) hlater).map fun _ htokens => ?_
    exact List.forall_mem_cons.2 ⟨hgs g List.mem_cons_self, htokens⟩

/-- The inside of a block is read from its copy, whose glyphs are those of the text. -/
theorem Cuts.tokenize_blames {gs : List Glyph} {found : List Piece} (h : Cuts gs found)
    (hgs : ∀ g ∈ gs, P g.location) :
    Blames P (fun tokens => ∀ token ∈ tokens, P token.location)
      (tokenize (found.filterMap Piece.toPart?)) := by
  induction h with
  | nil => exact .ok (List.forall_mem_nil _)
  | skip g _ ih => exact ih (List.forall_mem_cons.1 hgs).2
  | prose g more _ ih =>
    obtain ⟨hg, hrest⟩ := List.forall_mem_cons.1 hgs
    exact (ih hrest).map fun _ htokens => List.forall_mem_cons.2 ⟨hg, htokens⟩
  | @block start body gs close found hbody _ _ _ ih =>
    obtain ⟨hinside, hbehind⟩ := List.forall_mem_append.1 hgs
    have hothers := ih (List.forall_mem_cons.1 hbehind).2
    have hfirst : Blames P (fun tokens => ∀ token ∈ tokens, P token.location)
        (blockTokens none (glyphs start (textOf body).toList)) := by
      rw [textOf, String.toList_ofList, ← hbody]
      exact blockTokens_blames (by simp) hinside
    refine hfirst.bind fun first hplaces => hothers.bind fun others hmore => ?_
    exact .ok (List.forall_mem_append.2 ⟨hplaces, hmore⟩)

end Source

open Source in
/-- **The scanners blame places of glyphs only**, and every token stands at such a place. -/
theorem documentTokens_blames {document : Coordinate} {text : String}
    (h : ∀ g ∈ glyphs document.start (Text.unifyNewlines text.toList), P g.location) :
    Blames P (fun tokens => ∀ token ∈ tokens, P token.location) (documentTokens document text) := by
  unfold documentTokens splitText
  split
  next =>
    -- what is found in a text is cut from its glyphs
    unfold splitMarkdown
    have hpieces := pieces_blames h
    cases hfound : pieces (glyphs document.start (Text.unifyNewlines text.toList)) with
    | error fault =>
      rw [hfound] at hpieces
      exact .error hpieces.of_error
    | ok found => exact (cuts_of_pieces hfound).merge.tokenize_blames h
  next =>
    have hchecked := checkDirectives_blames document.start.document.path (List.forall_mem_nil P) h
    refine (hchecked.map fun _ _ => rfl).bind ?_
    rintro _ rfl
    split
    next => exact .ok (List.forall_mem_nil _)
    next =>
      rw [tokenize_single, String.toList_ofList]
      exact blockTokens_blames (by simp) h

end Bindery
