import Bindery.Proofs.Page.Notes
import Bindery.Proofs.Project.Listing
import Mathlib

/-!
# `Proofs.Text.Anchors` — an anchor is its own anchor

The anchor of a heading is found in steps that could get in each other's way. Lower-casing depends on the neighbours of
a letter and may yield more letters than there were, and after it characters are dropped and others become neighbours.
But lower-casing yields only letters that it leaves alone wherever they stand: no small letter of the table is a capital
of it, and the one letter that depends on its neighbours is a capital. And no letter or number is blank. So whatever
the heading, a second pass finds nothing to do.

## Contents
- `stepBits`, `unionBits`, `not_testBit_of_apart`: sets of code points as the bits of a number.
- `smalls_apart_capitals`, `CaseRun.not_covers_map`: the small letters of the table and its capitals.
- `lowerChar_of_mem_lowerAfter`, `lowerAfter_eq_self`: lower-casing leaves alone what it yields.
- `not_isBlank_of_isAlphanumeric`: letters and numbers are not blank.
- `IsAnchorName`, `isAnchorName_anchorChars`, `anchorChars_eq_filter`: the characters of an anchor.
- `anchorLink_stable`: an anchor is its own anchor.
-/

namespace Bindery
namespace Text

/-! ## Sets of code points as bits -/

/-- The `count` numbers `start`, `start + step`, …, as the bits of one number. -/
def stepBits (start step : Nat) : Nat → Nat
  | 0 => 0
  | count + 1 => stepBits start step count ||| 1 <<< (start + step * count)

theorem testBit_stepBits {start step index count : Nat} (h : index < count) :
    (stepBits start step count).testBit (start + step * index) = true := by
  induction count with
  | zero => exact absurd h (Nat.not_lt_zero _)
  | succ count ih =>
    rw [stepBits, Nat.testBit_or, Bool.or_eq_true]
    rcases Nat.lt_succ_iff_lt_or_eq.1 h with hbefore | rfl
    · exact Or.inl (ih hbefore)
    · right
      rw [Nat.testBit_shiftLeft]
      simp

/-- The union of sets given as the bits of numbers. -/
def unionBits (sets : List Nat) : Nat := sets.foldr (· ||| ·) 0

theorem testBit_unionBits {sets : List Nat} {set n : Nat} (hmem : set ∈ sets)
    (h : set.testBit n = true) : (unionBits sets).testBit n = true := by
  induction sets with
  | nil => cases hmem
  | cons first rest ih =>
    rw [unionBits, List.foldr_cons, Nat.testBit_or, Bool.or_eq_true]
    rcases List.mem_cons.1 hmem with rfl | hrest
    · exact Or.inl h
    · exact Or.inr (ih hrest)

/-- What is in a set is in no other set, where unions that have the two among them are apart. -/
theorem not_testBit_of_apart {sets others : List Nat} (h : unionBits sets &&& unionBits others = 0)
    {set other n : Nat} (hset : set ∈ sets) (hother : other ∈ others) (hn : set.testBit n = true) :
    ¬ other.testBit n = true := by
  intro hn'
  have hboth : (unionBits sets &&& unionBits others).testBit n = true := by
    simp only [Nat.testBit_and, testBit_unionBits hset hn, testBit_unionBits hother hn', Bool.and_self]
  rw [h, Nat.zero_testBit] at hboth
  cases hboth

/-! ## The table of capitals -/

namespace CaseRun

variable {run : CaseRun} {n : Nat}

/-- How many capitals a run has. -/
def count (run : CaseRun) : Nat := (run.last - run.first) / run.step + 1

/-- The capitals of a run. -/
def capitals (run : CaseRun) : Nat := stepBits run.first run.step run.count

/-- What the capitals of a run become. -/
def smalls (run : CaseRun) : Nat := stepBits run.image run.step run.count

theorem exists_index (h : run.covers n = true) : ∃ index < run.count,
    n = run.first + run.step * index ∧ run.map n = run.image + run.step * index := by
  simp only [covers, Bool.and_eq_true, decide_eq_true_eq, beq_iff_eq] at h
  obtain ⟨⟨hfirst, hlast⟩, hstep⟩ := h
  have hindex : run.step * ((n - run.first) / run.step) = n - run.first :=
    Nat.mul_div_cancel' (Nat.dvd_of_mod_eq_zero hstep)
  refine ⟨(n - run.first) / run.step,
    Nat.lt_succ_of_le (Nat.div_le_div_right (Nat.sub_le_sub_right hlast _)), ?_, ?_⟩
  · omega
  · rw [map, hindex]

theorem testBit_capitals (h : run.covers n = true) : run.capitals.testBit n = true := by
  obtain ⟨index, hindex, hn, -⟩ := exists_index h
  rw [hn]
  exact testBit_stepBits hindex

theorem testBit_smalls (h : run.covers n = true) : run.smalls.testBit (run.map n) = true := by
  obtain ⟨index, hindex, -, hmap⟩ := exists_index h
  rw [hmap]
  exact testBit_stepBits hindex

end CaseRun

/-- The capital that becomes two characters, as a run. -/
def dottedCapital : CaseRun := ⟨0x130, 0x130, 1, 0x69⟩

-- as bits the two sets are compared at once, not run by run
theorem smalls_apart_capitals : unionBits (lowercaseRuns.map CaseRun.smalls) &&&
    unionBits ((dottedCapital :: lowercaseRuns).map CaseRun.capitals) = 0 := by
  decide +kernel

/-- No capital becomes a capital. -/
theorem CaseRun.not_covers_map {run other : CaseRun} (hrun : run ∈ lowercaseRuns)
    (hother : other ∈ dottedCapital :: lowercaseRuns) {n : Nat} (hn : run.covers n = true) :
    other.covers (run.map n) = false := by
  apply Bool.eq_false_iff.2
  intro hcovers
  exact not_testBit_of_apart smalls_apart_capitals (List.mem_map_of_mem hrun) (List.mem_map_of_mem hother)
    (testBit_smalls hn) (testBit_capitals hcovers)

/-- What a run yields are code points of characters. -/
theorem isValidChar_lowercaseRuns : lowercaseRuns.all (fun run =>
    Nat.blt (run.image + (run.last - run.first)) 0xD800 ||
      Nat.blt 0xDFFF run.image && Nat.blt (run.image + (run.last - run.first)) 0x110000) = true := by
  decide +kernel

/-! ## Lower case -/

theorem lowerChar_eq_self {c : Char} (hdotted : c ≠ '\u0130')
    (h : ∀ run ∈ lowercaseRuns, run.covers c.toNat = false) : lowerChar c = [c] := by
  have hnone : lowercaseRuns.find? (·.covers c.toNat) = none := by
    rw [List.find?_eq_none]
    intro run hrun
    simp [h run hrun]
  rw [lowerChar, if_neg hdotted, hnone]

/-- The image of a capital is a character that lower-casing leaves alone. -/
theorem lowerChar_image {run : CaseRun} (hrun : run ∈ lowercaseRuns) {n : Nat}
    (hn : run.covers n = true) :
    lowerChar (Char.ofNat (run.map n)) = [Char.ofNat (run.map n)] := by
  have hvalid : (run.map n).isValidChar := by
    have hchar := List.all_eq_true.1 isValidChar_lowercaseRuns run hrun
    simp only [Bool.or_eq_true, Bool.and_eq_true, Nat.blt_eq] at hchar
    simp only [CaseRun.covers, Bool.and_eq_true, decide_eq_true_eq] at hn
    simp only [Nat.isValidChar, CaseRun.map]
    omega
  have hcode : (Char.ofNat (run.map n)).toNat = run.map n := by
    rw [Char.toNat_ofNat, if_pos hvalid]
  apply lowerChar_eq_self
  · intro hdotted
    have hnot := CaseRun.not_covers_map hrun List.mem_cons_self hn
    rw [← hcode, hdotted] at hnot
    revert hnot
    decide
  · intro other hother
    rw [hcode]
    exact CaseRun.not_covers_map hrun (List.mem_cons_of_mem _ hother) hn

/-- Characters that come up by name: the parts of the dotted capital, the two small sigmas and the marks of anchors. -/
def leftAlone : List Char := ['i', '\u0307', 'σ', 'ς', '-', '#']

theorem lowerChar_of_mem_leftAlone {c : Char} (h : c ∈ leftAlone) : lowerChar c = [c] := by
  have hall : leftAlone.all (fun c => lowerChar c = [c]) = true := by decide
  exact of_decide_eq_true (List.all_eq_true.1 hall c h)

theorem lowerChar_sigma : lowerChar 'Σ' = ['σ'] := by decide

/-- **What a character becomes is left alone.** -/
theorem lowerChar_of_mem_lowerChar {c d : Char} (h : d ∈ lowerChar c) : lowerChar d = [d] := by
  by_cases hdotted : c = '\u0130'
  · rw [lowerChar, if_pos hdotted] at h
    rcases List.mem_pair.1 h with rfl | rfl <;> exact lowerChar_of_mem_leftAlone (by decide)
  · cases hfound : lowercaseRuns.find? (·.covers c.toNat) with
    | none =>
      rw [lowerChar, if_neg hdotted, hfound] at h
      rw [List.mem_singleton.1 h, lowerChar, if_neg hdotted, hfound]
    | some run =>
      rw [lowerChar, if_neg hdotted, hfound] at h
      rw [List.mem_singleton.1 h]
      exact lowerChar_image (List.mem_of_find?_eq_some hfound)
        (List.find?_some (p := fun run : CaseRun => run.covers c.toNat) hfound)

theorem lowerChar_of_mem_lowerAfter {before cs : List Char} {d : Char}
    (h : d ∈ lowerAfter before cs) : lowerChar d = [d] := by
  induction cs generalizing before with
  | nil => cases h
  | cons c rest ih =>
    rw [lowerAfter] at h
    rcases List.mem_append.1 h with hd | hd
    · split at hd
      · -- both small sigmas are left alone
        rw [List.mem_singleton.1 hd]
        split <;> exact lowerChar_of_mem_leftAlone (by decide)
      · exact lowerChar_of_mem_lowerChar hd
    · exact ih hd

theorem ne_sigma_of_lowerChar {c : Char} (h : lowerChar c = [c]) : c ≠ 'Σ' := by
  rintro rfl
  rw [lowerChar_sigma] at h
  revert h
  decide

/-- Where each character is left alone, so is the text. -/
theorem lowerAfter_eq_self {cs : List Char} (h : ∀ c ∈ cs, lowerChar c = [c]) (before : List Char) :
    lowerAfter before cs = cs := by
  induction cs generalizing before with
  | nil => rfl
  | cons c rest ih =>
    obtain ⟨hc, hrest⟩ := List.forall_mem_cons.1 h
    rw [lowerAfter, if_neg (ne_sigma_of_lowerChar hc), hc, ih hrest]
    rfl

/-- A text of one character is lower-cased as the character is that stands alone. -/
theorem lower_singleton (c : Char) : lower [c] = lowerChar c := by
  by_cases hc : c = 'Σ'
  · rw [hc, lowerChar_sigma]
    rfl
  · rw [lower, lowerAfter, if_neg hc]
    exact List.append_nil _

/-! ## Letters, numbers and blanks -/

/-- The code points of a range. -/
def rangeBits (range : Nat × Nat) : Nat := (1 <<< (range.2 + 1 - range.1) - 1) <<< range.1

theorem testBit_rangeBits {range : Nat × Nat} {n : Nat} (hlow : range.1 ≤ n) (hhigh : n ≤ range.2) :
    (rangeBits range).testBit n = true := by
  have hlt : n - range.1 < range.2 + 1 - range.1 := by omega
  rw [rangeBits, Nat.testBit_shiftLeft, Nat.one_shiftLeft, Nat.testBit_two_pow_sub_one]
  simp [hlow, hlt]

theorem alphanumeric_apart_blank :
    unionBits (alphanumeric.map rangeBits) &&& unionBits (blank.map rangeBits) = 0 := by
  decide +kernel

theorem not_isBlank_of_isAlphanumeric {c : Char} (h : isAlphanumeric c = true) : isBlank c = false := by
  apply Bool.eq_false_iff.2
  intro hblank
  obtain ⟨range, hrange, hlow, hhigh⟩ := Ranges.contains_iff.1 h
  obtain ⟨other, hother, hotherLow, hotherHigh⟩ := Ranges.contains_iff.1 hblank
  exact not_testBit_of_apart alphanumeric_apart_blank (List.mem_map_of_mem hrange)
    (List.mem_map_of_mem hother) (testBit_rangeBits hlow hhigh) (testBit_rangeBits hotherLow hotherHigh)

theorem not_isBlank_of_isAnchorChar {c : Char} (h : isAnchorChar c = true) : isBlank c = false := by
  simp only [isAnchorChar, Bool.or_eq_true, beq_iff_eq] at h
  rcases h with (hc | rfl) | rfl
  · exact not_isBlank_of_isAlphanumeric hc
  · decide
  · decide

/-! ## Anchors -/

/-- Letters, numbers, hyphens and underscores that lower-casing leaves alone. -/
def IsAnchorName (name : List Char) : Prop :=
  ∀ c ∈ name, (isAlphanumeric c = true ∨ c = '-' ∨ c = '_') ∧ lower [c] = [c]

theorem isAnchorChar_iff {c : Char} :
    isAnchorChar c = true ↔ isAlphanumeric c = true ∨ c = '-' ∨ c = '_' := by
  simp only [isAnchorChar, Bool.or_eq_true, beq_iff_eq, or_assoc]

/-- Whatever the heading, its anchor is made of such characters. -/
theorem isAnchorName_anchorChars (cs : List Char) : IsAnchorName (anchorChars cs) := by
  intro c hc
  obtain ⟨hmem, hkept⟩ := List.mem_filter.1 hc
  refine ⟨isAnchorChar_iff.1 hkept, ?_⟩
  rw [lower_singleton]
  obtain ⟨d, hd, rfl⟩ := List.mem_map.1 hmem
  split
  · exact lowerChar_of_mem_leftAlone (by decide)
  · exact lowerChar_of_mem_lowerAfter hd

/-- Where no character is blank and all are left alone, an anchor is found by dropping characters only. -/
theorem anchorChars_eq_filter {cs : List Char} (hblank : ∀ c ∈ cs, isBlank c = false)
    (hlower : ∀ c ∈ cs, lower [c] = [c]) : anchorChars cs = cs.filter isAnchorChar := by
  have htrim : trim cs = cs := by
    rw [trim, trimEnd_eq_self fun c hc => hblank c (List.mem_of_getLast? hc),
      trimStart_eq_self fun c hc => hblank c (List.mem_of_mem_head? hc)]
  have hsame : lower cs = cs :=
    lowerAfter_eq_self (fun c hc => (lower_singleton c).symm.trans (hlower c hc)) []
  have hmap : cs.map (fun c => if isBlank c then '-' else c) = cs := by
    rw [List.map_congr_left (g := id) fun c hc => by simp [hblank c hc], List.map_id]
  rw [anchorChars, htrim, hsame, hmap]

variable {name : List Char}

theorem IsAnchorName.not_isBlank (h : IsAnchorName name) : ∀ c ∈ name, isBlank c = false :=
  fun c hc => not_isBlank_of_isAnchorChar (isAnchorChar_iff.2 (h c hc).1)

theorem IsAnchorName.filter_eq (h : IsAnchorName name) : name.filter isAnchorChar = name :=
  List.filter_eq_self.2 fun c hc => isAnchorChar_iff.2 (h c hc).1

theorem IsAnchorName.anchorChars_eq (h : IsAnchorName name) : anchorChars name = name := by
  rw [anchorChars_eq_filter h.not_isBlank fun c hc => (h c hc).2, h.filter_eq]

/-- The mark in front of an anchor is dropped with all else that is no part of its name. -/
theorem IsAnchorName.anchorChars_mark (h : IsAnchorName name) : anchorChars ('#' :: name) = name := by
  have hblank : ∀ c ∈ '#' :: name, isBlank c = false :=
    List.forall_mem_cons.2 ⟨by decide, h.not_isBlank⟩
  have hlower : ∀ c ∈ '#' :: name, lower [c] = [c] :=
    List.forall_mem_cons.2 ⟨(lower_singleton '#').trans (lowerChar_of_mem_leftAlone (by decide)),
      fun c hc => (h c hc).2⟩
  have hmark : isAnchorChar '#' = false := by decide +kernel
  rw [anchorChars_eq_filter hblank hlower, List.filter_cons_of_neg (by simp [hmark]), h.filter_eq]

theorem anchorLink_eq (cs : List Char) :
    anchorLink (String.ofList cs) = String.ofList ('#' :: anchorChars cs) := by
  rw [anchorLink, anchor, String.toList_ofList, List.singleton_append.symm, String.ofList_append]

end Text

open Text

/-- A section with a link of its own has the anchor of this link. -/
theorem link_of_readMeta {form link : Form} {read : Node × List Entry} {table after : Table}
    (hlink : form.child? "ref-link" = some link)
    (hread : (readMeta form).exec table = (.ok read, after)) :
    read.1.title?.map Prod.snd = some (anchorLink link.parameterText) := by
  obtain ⟨notes, hmeta, -⟩ := readMeta_eq_ok_iff.1 hread
  unfold metaReading at hmeta
  cases htitle : form.child? "title" with
  | none =>
    rw [htitle] at hmeta
    cases hmeta
  | some titleForm =>
    rw [htitle] at hmeta
    obtain ⟨ids, -, hpair⟩ := except_map_eq_ok.1 hmeta
    cases hpair
    show some (sectionLink form titleForm.parameterText) = _
    rw [sectionLink, hlink]

/-- **An anchor is its own anchor.** The anchor of any text is a mark and a name of letters, numbers, hyphens and
underscores that lower-casing leaves alone, one by one and together; any such name is found again as it is; the anchor
of an anchor is the same anchor; and a section whose link is given as an anchor has this anchor. -/
theorem anchorLink_stable (title : String) :
    anchorLink (anchorLink title) = anchorLink title ∧
      (∃ name, IsAnchorName name ∧ anchorLink title = String.ofList ('#' :: name)) ∧
      lowered (anchorLink title) = anchorLink title ∧
      (∀ name, IsAnchorName name → anchorLink (String.ofList name) = String.ofList ('#' :: name)) ∧
      ∀ {form link : Form} {read : Node × List Entry} {table after : Table},
        form.child? "ref-link" = some link → link.parameterText = anchorLink title →
        (readMeta form).exec table = (.ok read, after) →
        read.1.title?.map Prod.snd = some (anchorLink title) := by
  have hname := isAnchorName_anchorChars title.toList
  have heq : anchorLink title = String.ofList ('#' :: anchorChars title.toList) := by
    have hlink := anchorLink_eq title.toList
    rwa [String.ofList_toList] at hlink
  have hagain : anchorLink (anchorLink title) = anchorLink title := by
    rw [heq, anchorLink_eq, hname.anchorChars_mark]
  refine ⟨hagain, ⟨_, hname, heq⟩, ?_, fun name h => ?_, fun hlink htext hread => ?_⟩
  · have hlower : ∀ c ∈ '#' :: anchorChars title.toList, lowerChar c = [c] := by
      refine List.forall_mem_cons.2 ⟨lowerChar_of_mem_leftAlone (by decide), fun c hc => ?_⟩
      rw [← lower_singleton]
      exact (hname c hc).2
    rw [heq, lowered, String.toList_ofList, lower, lowerAfter_eq_self hlower]
  · rw [anchorLink_eq, h.anchorChars_eq]
  · rw [link_of_readMeta hlink hread, htext, hagain]

/-- A section whose link is given as an anchor, with the sigma in it that ends a word. -/
def linkedForm : Form :=
  let start : Location := ⟨⟨"/a.md", 1, 1⟩, ⟨1, 1⟩⟩
  ⟨"section-meta", start, none,
    [⟨"title", start, some ⟨"Roads", start⟩, []⟩, ⟨"ref-link", start, some ⟨"#οδος-i-σ", start⟩, []⟩]⟩

/-- The two sigmas of a heading stay what they became, although what stood between them is gone. -/
theorem anchorLink_stable_sigma : anchorLink " ΟΔΟΣ \u0130! Σ " = "#οδος-i-σ" ∧
    anchorLink "#οδος-i-σ" = "#οδος-i-σ" ∧ ∃ read after,
      (readMeta linkedForm).exec .new = (.ok read, after) ∧
        read.1.title?.map Prod.snd = some "#οδος-i-σ" := by
  have hfirst : anchorLink " ΟΔΟΣ \u0130! Σ " = "#οδος-i-σ" := by decide +kernel
  obtain ⟨hagain, -, -, -, hlink⟩ := anchorLink_stable " ΟΔΟΣ \u0130! Σ "
  rw [hfirst] at hagain hlink
  obtain ⟨link, hchild, htext⟩ : ∃ link, linkedForm.child? "ref-link" = some link ∧
      link.parameterText = "#οδος-i-σ" := ⟨_, rfl, rfl⟩
  obtain ⟨read, after, hread⟩ : ∃ read after,
      (readMeta linkedForm).exec .new = (.ok read, after) := ⟨_, _, rfl⟩
  exact ⟨hfirst, hagain, read, after, hread, hlink hchild htext hread⟩

end Bindery
