import Bindery.Proofs.Section.Reprinting

/-!
# `Proofs.Page.Trimming` — what prose loses when it is trimmed

Prose between two directives loses the blank lines before it and, if it ends with a line end, the blanks behind it. Both
are told here by what the text is made of: whole blank lines, then what is kept, then all the blanks at the end or none
of them. There is one way to take a text apart like this, and what is kept cannot be taken apart any further.

## Contents
- `BlankLines`, `blankEnd`, `Trims`: the three parts of a text.
- `BlankLines.dropBlankLines`, `dropBlankEnd_eq`: how each end is found.
- `ofProse?_append`, `exists_trims`: any text that can be seen has its three parts, and they decide the node.
- `ofProse_trims`: trimming removes what it says and nothing else.
-/

namespace Bindery

open Text

/-! ## The parts of a text -/

/-- Whole blank lines, each with its line end; perhaps none. -/
inductive BlankLines : List Char → Prop where
  | none : BlankLines []
  | line {blanks rest : List Char} (hblanks : ∀ b ∈ blanks, isBlank b = true ∧ b ≠ '\n')
      (hrest : BlankLines rest) : BlankLines (blanks ++ '\n' :: rest)

/-- All the blanks that a text ends with. -/
def blankEnd (cs : List Char) : List Char := (cs.reverse.takeWhile isBlank).reverse

/-- A text consists of blank lines, of what is kept, which starts with a line that is not blank, and of what is dropped
at its end: all the blanks there if a line end is among them, and otherwise nothing. -/
structure Trims (text lead value trail : List Char) : Prop where
  text_eq : text = lead ++ (value ++ trail)
  lead_lines : BlankLines lead
  value_seen : StartsSeen value
  trail_eq : trail = if '\n' ∈ blankEnd text then blankEnd text else []

/-! ## The start of a text -/

/-- Where a line begins does not depend on what stands on the line before it. -/
theorem advanceOver_line {blanks : List Char} (hblanks : ∀ b ∈ blanks, b ≠ '\n') (location : Location)
    (rest : List Char) :
    location.advanceOver (blanks ++ '\n' :: rest) = location.nextLine.advanceOver rest := by
  induction blanks generalizing location with
  | nil => rfl
  | cons b more ih =>
    obtain ⟨hb, hmore⟩ := List.forall_mem_cons.1 hblanks
    have hcolumn : location.advance b = location.nextColumn := by
      rw [Location.advance, Position.advance, if_neg hb]
      rfl
    calc location.advanceOver (b :: more ++ '\n' :: rest)
        = (location.advance b).advanceOver (more ++ '\n' :: rest) := rfl
      _ = location.nextColumn.nextLine.advanceOver rest := by rw [hcolumn, ih hmore]
      _ = location.nextLine.advanceOver rest := rfl

/-- Blank lines are dropped one by one, and the place goes on behind them. -/
theorem BlankLines.dropBlankLines {lead : List Char} (h : BlankLines lead) {kept : List Char}
    (hkept : StartsSeen kept) (location : Location) :
    dropBlankLines location [] (lead ++ kept) = (location.advanceOver lead, kept) := by
  induction h generalizing location with
  | none => exact hkept.dropBlankLines_eq location
  | @line blanks rest hblanks hrest ih =>
    have hskip (line : List Char) : Bindery.dropBlankLines location line (blanks ++ '\n' :: (rest ++ kept)) =
        Bindery.dropBlankLines location.nextLine [] (rest ++ kept) := by
      induction blanks generalizing line with
      | nil => exact if_pos rfl
      | cons b more ihmore =>
        obtain ⟨⟨hb, hnewline⟩, hmore⟩ := List.forall_mem_cons.1 hblanks
        rw [List.cons_append, Bindery.dropBlankLines, if_neg hnewline, if_pos hb, ihmore hmore]
    rw [List.append_assoc, List.cons_append, hskip, ih,
      advanceOver_line (fun b hb => (hblanks b hb).2)]

/-- Any text that can be seen begins with its blank lines, and goes on with a line that is not blank. -/
theorem exists_blankLines {cs : List Char} (hsome : ¬ ∀ c ∈ cs, isBlank c = true) :
    ∃ lead kept, cs = lead ++ kept ∧ BlankLines lead ∧ StartsSeen kept := by
  induction cs with
  | nil => exact absurd (List.forall_mem_nil _) hsome
  | cons c rest ih =>
    by_cases hc : isBlank c = true
    · have hrest : ¬ ∀ d ∈ rest, isBlank d = true :=
        fun hall => hsome (List.forall_mem_cons.2 ⟨hc, hall⟩)
      obtain ⟨lead, kept, rfl, hlead, hkept⟩ := ih hrest
      by_cases hnewline : c = '\n'
      · subst hnewline
        exact ⟨'\n' :: lead, kept, rfl, .line (List.forall_mem_nil _) hlead, hkept⟩
      · -- a blank belongs to the line behind it, which is dropped or kept
        cases hlead with
        | none =>
          obtain ⟨blanks, d, more, rfl, hblanks, hd⟩ := hkept
          refine ⟨[], c :: (blanks ++ d :: more), rfl, .none, c :: blanks, d, more, rfl, ?_, hd⟩
          exact List.forall_mem_cons.2 ⟨⟨hc, hnewline⟩, hblanks⟩
        | @line blanks others hblanks hothers =>
          refine ⟨(c :: blanks) ++ '\n' :: others, kept, rfl, .line ?_ hothers, hkept⟩
          exact List.forall_mem_cons.2 ⟨⟨hc, hnewline⟩, hblanks⟩
    · exact ⟨[], c :: rest, rfl, .none, [], c, rest, rfl, List.forall_mem_nil _, by simpa using hc⟩

/-! ## The end of a text -/

theorem blankEnd_append {seen blanks : List Char} (hblanks : ∀ c ∈ blanks, isBlank c = true)
    (hseen : ∀ c ∈ seen.getLast?, isBlank c = false) : blankEnd (seen ++ blanks) = blanks := by
  have hnone : seen.reverse.takeWhile isBlank = [] := by
    rw [List.getLast?_eq_head?_reverse] at hseen
    cases hlast : seen.reverse with
    | nil => rfl
    | cons c rest =>
      have hc : isBlank c = false := hseen c (by rw [hlast]; rfl)
      rw [List.takeWhile_cons_of_neg (by simp [hc])]
  have hall : ∀ c ∈ blanks.reverse, isBlank c = true :=
    fun c hc => hblanks c (List.mem_reverse.1 hc)
  rw [blankEnd, List.reverse_append, List.takeWhile_append_of_pos hall, hnone, List.append_nil,
    List.reverse_reverse]

/-- A text is what trimming leaves of its end, and the blanks there. -/
theorem trimEnd_append_blankEnd (cs : List Char) : trimEnd cs ++ blankEnd cs = cs := by
  obtain ⟨blanks, hcs, hblanks⟩ := exists_trimEnd cs
  have hend : blankEnd cs = blanks := by
    rw [hcs]
    exact blankEnd_append hblanks (isBlank_last_trimEnd cs)
  rw [hend]
  exact hcs.symm

theorem blankEnd_trimEnd (cs : List Char) : blankEnd (trimEnd cs) = [] := by
  have hend := blankEnd_append (List.forall_mem_nil _) (isBlank_last_trimEnd cs)
  rwa [List.append_nil] at hend

/-- The end of a text is that of any part of it that can be seen. -/
theorem StartsSeen.blankEnd_append_left {cs : List Char} (h : StartsSeen cs) (before : List Char) :
    blankEnd (before ++ cs) = blankEnd cs := by
  have hlast : ∀ c ∈ (before ++ Text.trimEnd cs).getLast?, isBlank c = false := by
    have hend := isBlank_last_trimEnd cs
    rw [List.getLast?_eq_some_getLast h.trimEnd.ne_nil] at hend
    rw [List.getLast?_append, List.getLast?_eq_some_getLast h.trimEnd.ne_nil]
    exact hend
  have hblanks : ∀ c ∈ blankEnd cs, isBlank c = true := by
    intro c hc
    exact List.all_eq_true.1 List.all_takeWhile c (List.mem_reverse.1 hc)
  calc blankEnd (before ++ cs)
      = blankEnd ((before ++ Text.trimEnd cs) ++ blankEnd cs) := by
        rw [List.append_assoc, trimEnd_append_blankEnd]
    _ = blankEnd cs := blankEnd_append hblanks hlast

theorem dropBlankEnd_eq (cs : List Char) :
    dropBlankEnd cs = if '\n' ∈ blankEnd cs then trimEnd cs else cs := by
  have hdrop : (trimEnd cs ++ blankEnd cs).drop (trimEnd cs).length = blankEnd cs := List.drop_left
  rw [trimEnd_append_blankEnd] at hdrop
  rw [dropBlankEnd, hdrop]
  simp only [List.contains_iff_mem]

/-- What is kept at the end, and the part that is dropped. -/
theorem dropBlankEnd_append (cs : List Char) :
    dropBlankEnd cs ++ (if '\n' ∈ blankEnd cs then blankEnd cs else []) = cs := by
  rw [dropBlankEnd_eq]
  split
  · exact trimEnd_append_blankEnd cs
  · exact List.append_nil cs

/-- No more is dropped at the end of what was kept. -/
theorem not_mem_blankEnd_dropBlankEnd (cs : List Char) : '\n' ∉ blankEnd (dropBlankEnd cs) := by
  rw [dropBlankEnd_eq]
  split
  · rw [blankEnd_trimEnd]
    exact List.not_mem_nil
  · assumption

theorem StartsSeen.dropBlankEnd {cs : List Char} (h : StartsSeen cs) :
    StartsSeen (dropBlankEnd cs) := by
  rw [dropBlankEnd_eq]
  split
  · exact h.trimEnd
  · exact h

/-! ## The node of a text -/

theorem StartsSeen.not_blank {cs : List Char} (h : StartsSeen cs) : ¬ ∀ c ∈ cs, isBlank c = true := by
  obtain ⟨blanks, c, rest, rfl, -, hc⟩ := h
  intro hall
  rw [hall c (List.mem_append_right _ List.mem_cons_self)] at hc
  cases hc

/-- The node of prose that begins with blank lines. -/
theorem ofProse?_append {lead kept : List Char} (hlead : BlankLines lead) (hkept : StartsSeen kept)
    (location : Location) :
    Node.ofProse? (String.ofList (lead ++ kept)) location =
      some (.prose (String.ofList (dropBlankEnd kept)) (location.advanceOver lead)) := by
  have hsome : isBlankText (String.ofList (lead ++ kept)) ≠ true := by
    rw [isBlankText, String.toList_ofList]
    intro hall
    exact hkept.not_blank fun c hc =>
      List.all_eq_true.1 hall c (List.mem_append_right _ hc)
  rw [Node.ofProse?, if_neg hsome, String.toList_ofList, hlead.dropBlankLines hkept]

/-- Any text that can be seen has its three parts. -/
theorem exists_trims {text : List Char} (hsome : ¬ ∀ c ∈ text, isBlank c = true) :
    ∃ lead value trail, Trims text lead value trail := by
  obtain ⟨lead, kept, rfl, hlead, hkept⟩ := exists_blankLines hsome
  refine ⟨lead, dropBlankEnd kept, _, ?_, hlead, hkept.dropBlankEnd, rfl⟩
  rw [hkept.blankEnd_append_left, dropBlankEnd_append]

variable {text lead value trail : List Char}

theorem Trims.dropBlankEnd_eq (h : Trims text lead value trail) :
    dropBlankEnd (value ++ trail) = value := by
  have hkept : StartsSeen (value ++ trail) := h.value_seen.append trail
  have htrail := h.trail_eq
  rw [h.text_eq, hkept.blankEnd_append_left] at htrail
  have happend := dropBlankEnd_append (value ++ trail)
  rw [← htrail] at happend
  exact List.append_cancel_right happend

/-- The parts of a text decide its node. -/
theorem Trims.ofProse?_eq (h : Trims text lead value trail) (location : Location) :
    Node.ofProse? (String.ofList text) location =
      some (.prose (String.ofList value) (location.advanceOver lead)) := by
  rw [h.text_eq, ofProse?_append h.lead_lines (h.value_seen.append trail), h.dropBlankEnd_eq]

/-- What is kept is kept whole. -/
theorem Trims.again (h : Trims text lead value trail) : Trims value [] value [] := by
  have hend : '\n' ∉ blankEnd value := by
    rw [← h.dropBlankEnd_eq]
    exact not_mem_blankEnd_dropBlankEnd _
  exact ⟨(List.append_nil value).symm, .none, h.value_seen, (if_neg hend).symm⟩

/-- **Trimming removes what it says and nothing else.** Prose makes no node exactly if it is blank. Otherwise its text
consists of whole blank lines, of what is kept, which starts with a line that is not blank, and of all the blanks at the
end if they hold a line end; and the node has what is kept, at the place behind the blank lines. This is the only way
to take the text apart so. Trimming what was kept, at its place, changes nothing. -/
theorem ofProse_trims (text : String) (location : Location) :
    (Node.ofProse? text location = none ↔ ∀ c ∈ text.toList, isBlank c = true) ∧
      (∀ node, Node.ofProse? text location = some node ↔ ∃ lead value trail,
        Trims text.toList lead value trail ∧
          node = .prose (String.ofList value) (location.advanceOver lead)) ∧
      ∀ value place, Node.ofProse? text location = some (.prose value place) →
        Node.ofProse? value place = some (.prose value place) := by
  have hsome (node : Node) : Node.ofProse? text location = some node ↔ ∃ lead value trail,
      Trims text.toList lead value trail ∧
        node = .prose (String.ofList value) (location.advanceOver lead) := by
    constructor
    · intro h
      have hseen : ¬ ∀ c ∈ text.toList, isBlank c = true := by
        intro hall
        rw [Node.ofProse?, isBlankText, if_pos (List.all_eq_true.2 hall)] at h
        cases h
      obtain ⟨lead, value, trail, htrims⟩ := exists_trims hseen
      have hnode := htrims.ofProse?_eq location
      rw [String.ofList_toList, h] at hnode
      exact ⟨lead, value, trail, htrims, Option.some.inj hnode⟩
    · rintro ⟨lead, value, trail, htrims, rfl⟩
      have hnode := htrims.ofProse?_eq location
      rwa [String.ofList_toList] at hnode
  refine ⟨?_, hsome, ?_⟩
  · rw [Node.ofProse?, isBlankText]
    split
    next hall => exact iff_of_true rfl (List.all_eq_true.1 hall)
    next hseen => exact iff_of_false (Option.some_ne_none _) (mt List.all_eq_true.2 hseen)
  · intro value place h
    obtain ⟨lead, kept, trail, htrims, hnode⟩ := (hsome _).1 h
    cases hnode
    exact htrims.again.ofProse?_eq _

/-- Blank lines of other blanks than spaces, and an end with a line end among its blanks. -/
theorem ofProse_trims_indented :
    Node.ofProse? "\t\n\u3000\n  See\n\n the end. \n " ⟨⟨"/a.md", 1, 1⟩, ⟨4, 7⟩⟩ =
        some (.prose "  See\n\n the end." ⟨⟨"/a.md", 1, 1⟩, ⟨6, 1⟩⟩) ∧
      Node.ofProse? "  See\n\n the end." ⟨⟨"/a.md", 1, 1⟩, ⟨6, 1⟩⟩ =
        some (.prose "  See\n\n the end." ⟨⟨"/a.md", 1, 1⟩, ⟨6, 1⟩⟩) := by
  have hfirst : Node.ofProse? "\t\n\u3000\n  See\n\n the end. \n " ⟨⟨"/a.md", 1, 1⟩, ⟨4, 7⟩⟩ =
      some (.prose "  See\n\n the end." ⟨⟨"/a.md", 1, 1⟩, ⟨6, 1⟩⟩) := by
    decide +kernel
  exact ⟨hfirst, (ofProse_trims _ _).2.2 _ _ hfirst⟩

end Bindery
