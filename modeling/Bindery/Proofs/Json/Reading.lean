import Bindery.Proofs.Json.Grammar
import Mathlib.Data.List.Basic
import Mathlib.Data.List.TakeDrop

/-!
# `Proofs.Json.Reading` — the reader reads every text of a value

The reader takes the characters of a value from the start of a text and leaves the rest. So what it does with a value does
not depend on where the value stands, as long as nothing follows that a number could go on with. Each part of the grammar
is one case here: a character between quotes, a number, the items of an array, the members of an object. A value is read
in no more steps than it has characters, which is within the bound of the whole text, and with as many levels as its arrays
and objects are nested; with fewer levels it is not read at all.

## Contents
- `readString_written`, `readString_inQuotes`: characters between quotes.
- `Follows`, `readNumber_decimal`: natural numbers.
- `readValue_array`, `readItems_cons`, `readValue_object`, `readMember_label`, `readMembers_cons`: one step each.
- `readValue_spelling`: what the reader makes of a value.
- `usual`, `conforms_usual`: the printer and the reader of this library.
-/

namespace Bindery
namespace Json

-- every step below opens one of these
attribute [local simp] readString readFraction readExponent readNumber readValue readItems readMember
  readMembers

/-! ## Characters between quotes -/

theorem readString_short {mark c : Char} (hmark : shortEscape? mark = some c) (rest : List Char) :
    readString ('\\' :: mark :: rest) = (readString rest).map (consRead c) := by
  have hunit : mark ≠ 'u' := by
    rintro rfl
    cases hmark
  rw [readString.eq_5 mark rest (fun _ _ _ _ _ _ _ _ _ heq _ => hunit heq)
    (fun _ _ _ _ _ heq _ => hunit heq), hmark]
  exact Option.map_eq_bind.symm

theorem readString_plain {c : Char} (hquote : c ≠ '"') (hslash : c ≠ '\\') (hcode : 32 ≤ c.toNat)
    (rest : List Char) : readString (c :: rest) = (readString rest).map (consRead c) := by
  rw [readString.eq_6 c rest hquote (fun _ _ _ _ _ _ _ _ _ heq _ => hslash heq)
    (fun _ _ _ _ _ heq _ => hslash heq) (fun _ _ heq _ => hslash heq),
    if_neg (not_or.2 ⟨hslash, Nat.not_lt.2 hcode⟩)]

/-- A code unit that is no half of a pair is a character, whatever follows it. -/
theorem readString_unit {h i j k : Char} {unit : Nat} (hunit : hexUnit? h i j k = some unit)
    (hhigh : isHighHalf unit = false) (hlow : isLowHalf unit = false) (rest : List Char) :
    readString ('\\' :: 'u' :: h :: i :: j :: k :: rest) =
      (readString rest).map (consRead (Char.ofNat unit)) := by
  by_cases hpair : ∃ l m n o more, rest = '\\' :: 'u' :: l :: m :: n :: o :: more
  · obtain ⟨l, m, n, o, more, rfl⟩ := hpair
    rw [readString.eq_3, hunit]
    simp only [Option.bind_eq_bind, Option.bind_some, hhigh, hlow, Bool.false_eq_true, if_false]
    exact Option.map_eq_bind.symm
  · rw [readString.eq_4 _ _ _ _ rest fun l m n o more heq => hpair ⟨l, m, n, o, more, heq⟩, hunit]
    simp only [Option.bind_eq_bind, Option.bind_some, hhigh, hlow, Bool.or_self, Bool.false_eq_true,
      if_false]
    exact Option.map_eq_bind.symm

/-- Two halves of a pair are one character. -/
theorem readString_pair {h i j k l m n o : Char} {first second : Nat}
    (hfirst : hexUnit? h i j k = some first) (hsecond : hexUnit? l m n o = some second)
    (hhigh : isHighHalf first = true) (hlow : isLowHalf second = true) (rest : List Char) :
    readString ('\\' :: 'u' :: h :: i :: j :: k :: '\\' :: 'u' :: l :: m :: n :: o :: rest) =
      (readString rest).map
        (consRead (Char.ofNat (0x10000 + (first - 0xD800) * 0x400 + (second - 0xDC00)))) := by
  rw [readString.eq_3, hfirst]
  simp only [Option.bind_eq_bind, Option.bind_some, hhigh, hsecond, hlow, if_true]
  exact Option.map_eq_bind.symm

/-- A character is read back from every way to write it. -/
theorem readString_written {c : Char} {cs : List Char} (h : Written c cs) (rest : List Char) :
    readString (cs ++ rest) = (readString rest).map (consRead c) := by
  cases h with
  | plain hquote hslash hcode => exact readString_plain hquote hslash hcode rest
  | short hmark => exact readString_short hmark rest
  | unit hunit hhigh hlow hc =>
    subst hc
    exact readString_unit hunit hhigh hlow rest
  | pair hfirst hsecond hhigh hlow hc =>
    subst hc
    exact readString_pair hfirst hsecond hhigh hlow rest

/-- A text is read back up to the quote that closes it. -/
theorem readString_inQuotes {text cs : List Char} (h : cs ∈ inQuotes text) (rest : List Char) :
    readString (cs ++ '"' :: rest) = some (text, rest) := by
  induction text generalizing cs with
  | nil =>
    obtain rfl := mem_word.1 h
    exact readString.eq_2 rest
  | cons c more ih =>
    obtain ⟨first, hfirst, others, hothers, rfl⟩ := Language.mem_mul.1 h
    rw [List.append_assoc, readString_written hfirst, ih hothers]
    rfl

theorem exists_inQuotes {text : String} {cs : List Char} (h : cs ∈ quotations text) :
    ∃ inner ∈ inQuotes text.toList, ∀ rest, cs ++ rest = '"' :: (inner ++ '"' :: rest) := by
  obtain ⟨inner, hinner, rfl⟩ := mem_quotations.1 h
  refine ⟨inner, hinner, fun rest => ?_⟩
  simp

/-! ## Natural numbers -/

/-- The characters that can stand behind a value. -/
def closers : List Char := [' ', '\n', '\r', '\t', ',', ']', '\x7d']

/-- Nothing follows that a number could go on with. -/
def Follows (rest : List Char) : Prop := ∀ c ∈ rest.head?, c ∈ closers

/-- What stands behind a value is no part of a number. -/
theorem not_of_mem_closers {c : Char} (h : c ∈ closers) :
    Text.isDigit c = false ∧ c ≠ '.' ∧ c ≠ 'e' ∧ c ≠ 'E' := by
  have hall := List.all_eq_true.1
    (show closers.all (fun c => !Text.isDigit c && c != '.' && c != 'e' && c != 'E') = true by decide) c h
  simpa [and_assoc] using hall

theorem isDigit_of_mem_decimal {n : Nat} {c : Char} (h : c ∈ Text.decimal n) :
    Text.isDigit c = true := by
  fun_induction Text.decimal n with
  | case1 n hn => exact List.mem_singleton.1 h ▸ Text.isDigit_digit hn
  | case2 n hn ih =>
    rcases List.mem_append.1 h with h | h
    · exact ih h
    · exact List.mem_singleton.1 h ▸ Text.isDigit_digit (Nat.mod_lt n (by decide))

theorem decimal_ne_nil (n : Nat) : Text.decimal n ≠ [] := by
  rw [Text.decimal]
  split <;> simp

/-- A number does not begin with a zero, unless it is zero. -/
theorem head?_decimal {n : Nat} (h : 0 < n) : (Text.decimal n).head? ≠ some '0' := by
  fun_induction Text.decimal n with
  | case1 n hn =>
    have hall : ∀ m < 10, 0 < m → Text.digit m ≠ '0' := by decide
    intro hzero
    exact hall n hn h (Option.some.inj hzero)
  | case2 n hn ih =>
    rw [List.head?_append_of_ne_nil _ (decimal_ne_nil _)]
    exact ih (by omega)

/-- The digits of a number are all read, and nothing behind them. -/
theorem readDigits_decimal (n : Nat) {rest : List Char} (h : Follows rest) :
    readDigits (Text.decimal n ++ rest) = (Text.decimal n, rest) := by
  have hdigits : ∀ c ∈ Text.decimal n, Text.isDigit c = true := fun c => isDigit_of_mem_decimal
  have hrest : rest.takeWhile Text.isDigit = [] ∧ rest.dropWhile Text.isDigit = rest := by
    cases rest with
    | nil => exact ⟨rfl, rfl⟩
    | cons c more => simp [(not_of_mem_closers (h c rfl)).1]
  rw [readDigits, List.span_eq_takeWhile_dropWhile, List.takeWhile_append_of_pos hdigits,
    List.dropWhile_append_of_pos hdigits, hrest.1, hrest.2, List.append_nil]

theorem readFraction_of_follows {rest : List Char} (h : Follows rest) :
    readFraction rest = some ([], rest) := by
  apply readFraction.eq_2
  intro more heq
  rw [heq] at h
  exact (not_of_mem_closers (h '.' rfl)).2.1 rfl

theorem readExponent_of_follows {rest : List Char} (h : Follows rest) :
    readExponent rest = some ([], rest) := by
  cases rest with
  | nil => rfl
  | cons c more =>
    obtain ⟨-, -, hsmall, hcapital⟩ := not_of_mem_closers (h c rfl)
    rw [readExponent.eq_def]
    exact if_neg (not_or.2 ⟨hsmall, hcapital⟩)

/-- A number is read without a fraction and an exponent. -/
theorem readUnsigned_decimal (n : Nat) {rest : List Char} (h : Follows rest) :
    readUnsigned (Text.decimal n ++ rest) = some (Text.decimal n, [], rest) := by
  have hform : ((Text.decimal n).isEmpty ||
      ((Text.decimal n).head? == some '0' && (Text.decimal n).length != 1)) = false := by
    by_cases hzero : n = 0
    · subst hzero
      decide +kernel
    · have hhead := head?_decimal (Nat.pos_of_ne_zero hzero)
      simp [decimal_ne_nil, hhead]
  rw [readUnsigned, readDigits_decimal n h]
  simp only [hform, Bool.false_eq_true, if_false, readFraction_of_follows h, Option.bind_eq_bind,
    Option.bind_some, readExponent_of_follows h]
  rfl

theorem exists_decimal_eq_cons (n : Nat) :
    ∃ c more, Text.decimal n = c :: more ∧ Text.isDigit c = true := by
  obtain ⟨c, more, hdigits⟩ := List.exists_cons_of_ne_nil (decimal_ne_nil n)
  refine ⟨c, more, hdigits, @isDigit_of_mem_decimal n c ?_⟩
  rw [hdigits]
  exact List.mem_cons_self

theorem ne_of_isDigit {c d : Char} (hc : Text.isDigit c = true) (hd : Text.isDigit d = false) : c ≠ d := by
  rintro rfl
  rw [hc] at hd
  cases hd

theorem not_isSpace_of_isDigit {c : Char} (h : Text.isDigit c = true) : isSpace c = false := by
  have hblank : c ≠ ' ' := ne_of_isDigit h (by decide)
  have hline : c ≠ '\n' := ne_of_isDigit h (by decide)
  have hreturn : c ≠ '\r' := ne_of_isDigit h (by decide)
  have htab : c ≠ '\t' := ne_of_isDigit h (by decide)
  simp [isSpace, hblank, hline, hreturn, htab]

/-- A natural number is read back. -/
theorem readNumber_decimal (n : Nat) {rest : List Char} (h : Follows rest) :
    readNumber (Text.decimal n ++ rest) = some (.integer (.ofNat n), rest) := by
  have hsign : ∀ more, Text.decimal n ++ rest ≠ '-' :: more := by
    intro more heq
    obtain ⟨c, others, hdigits, hc⟩ := exists_decimal_eq_cons n
    rw [hdigits] at heq
    exact ne_of_isDigit hc (by decide) (List.cons.inj heq).1
  rw [readNumber.eq_2 _ hsign, readUnsigned_decimal n h]
  simp [Text.readDecimal_decimal]

/-! ## One step of the reader -/

theorem skipSpace_cons {c : Char} (h : isSpace c = false) (rest : List Char) :
    skipSpace (c :: rest) = c :: rest :=
  List.dropWhile_cons_of_neg (by simp [h])

/-- The reader skips the space between the parts of a text. -/
theorem skipSpace_gap {gap : List Char} (h : gap ∈ gaps) (cs : List Char) :
    skipSpace (gap ++ cs) = skipSpace cs :=
  List.dropWhile_append_of_pos h

variable {bound levels : Nat} {gap cs other more rest : List Char} {c : Char}

/-- Space in front of a value makes no difference. -/
theorem readValue_congr (h : skipSpace cs = skipSpace other) :
    readValue bound levels cs = readValue bound levels other := by
  cases bound with
  | zero => rw [readValue.eq_1, readValue.eq_1]
  | succ bound => rw [readValue.eq_2, readValue.eq_2, h]

theorem readMember_congr (h : skipSpace cs = skipSpace other) :
    readMember bound levels cs = readMember bound levels other := by
  cases bound with
  | zero => rw [readMember.eq_1, readMember.eq_1]
  | succ bound => rw [readMember.eq_2, readMember.eq_2, h]

theorem readItems_congr (h : skipSpace cs = skipSpace other) :
    readItems bound levels cs = readItems bound levels other := by
  cases bound with
  | zero => rw [readItems.eq_1, readItems.eq_1]
  | succ bound => rw [readItems.eq_2, readItems.eq_2, h]

theorem readMembers_congr (h : skipSpace cs = skipSpace other) :
    readMembers bound levels cs = readMembers bound levels other := by
  cases bound with
  | zero => rw [readMembers.eq_1, readMembers.eq_1]
  | succ bound => rw [readMembers.eq_2, readMembers.eq_2, h]

/-- A quoted text is read as a text. -/
theorem readValue_quotation {text : String} (h : cs ∈ quotations text) :
    readValue (bound + 1) levels (cs ++ rest) = some (.string text, rest) := by
  obtain ⟨inner, hinner, hcs⟩ := exists_inQuotes h
  rw [hcs, readValue.eq_2, skipSpace_cons (by decide)]
  simp only [readString_inQuotes hinner, Option.map_some, String.ofList_toList]

/-- What starts with a digit is read as a number. -/
theorem readValue_digit (hc : Text.isDigit c = true) :
    readValue (bound + 1) levels (c :: rest) = readNumber (c :: rest) := by
  rw [readValue.eq_2, skipSpace_cons (not_isSpace_of_isDigit hc)]
  split
  case h_7 => rfl
  all_goals
    next heq => exact absurd (List.cons.inj heq).1 (ne_of_isDigit hc (by decide))

/-- Without a level left, neither an array nor an object is read. -/
theorem readValue_zero (hc : c = '[' ∨ c = '\x7b') : readValue (bound + 1) 0 (c :: cs) = none := by
  rcases hc with rfl | rfl
  · rw [readValue.eq_2, skipSpace_cons (by decide)]
    rfl
  · rw [readValue.eq_2, skipSpace_cons (by decide)]
    rfl

/-- Read a first part and then the others. -/
def readBoth {α β γ : Type} (first : Option (α × List Char))
    (others : List Char → Option (β × List Char)) (combine : α → β → γ) : Option (γ × List Char) :=
  first.bind fun read => (others read.2).map fun more => (combine read.1 more.1, more.2)

/-- Both parts are read if neither is nested too deep. -/
theorem readBoth_eq {α β γ : Type} {first : Option (α × List Char)}
    {others : List Char → Option (β × List Char)} {a : α} {b : β} {m n : Nat}
    (hfirst : first = if m ≤ levels then some (a, more) else none)
    (hothers : others more = if n ≤ levels then some (b, rest) else none) (combine : α → β → γ) :
    readBoth first others combine = if max m n ≤ levels then some (combine a b, rest) else none := by
  unfold readBoth
  by_cases hm : m ≤ levels
  · rw [if_pos hm] at hfirst
    rw [hfirst, Option.bind_some, hothers]
    by_cases hn : n ≤ levels <;> simp [hm, hn]
  · rw [if_neg hm] at hfirst
    simp [hfirst, hm]

theorem readValue_array_nil (hinside : skipSpace cs = ']' :: rest) :
    readValue (bound + 1) (levels + 1) ('[' :: cs) = some (.array [], rest) := by
  rw [readValue.eq_2, skipSpace_cons (by decide)]
  simp only [hinside]

/-- An array with an item is read by its first item and the others. -/
theorem readValue_array (hinside : skipSpace cs = c :: more) (hc : c ≠ ']') :
    readValue (bound + 1) (levels + 1) ('[' :: cs) =
      readBoth (readValue bound levels (c :: more)) (readItems bound levels)
        fun first others => .array (first :: others) := by
  rw [readValue.eq_2, skipSpace_cons (by decide)]
  simp only [hinside, readBoth]
  split
  next heq => cases heq
  next heq =>
    cases heq
    exact absurd rfl hc
  next hlevels _ =>
    cases hlevels
    simp only [Option.bind_eq_bind, Option.map_eq_bind]
    rfl

theorem readItems_close (rest : List Char) :
    readItems (bound + 1) levels (']' :: rest) = some ([], rest) := by
  rw [readItems.eq_2, skipSpace_cons (by decide)]
  rfl

/-- Behind a comma there is one more item. -/
theorem readItems_cons (cs : List Char) :
    readItems (bound + 1) levels (',' :: cs) =
      readBoth (readValue bound levels cs) (readItems bound levels) List.cons := by
  rw [readItems.eq_2, skipSpace_cons (by decide)]
  simp only [readBoth, Option.bind_eq_bind, Option.map_eq_bind]
  rfl

theorem readValue_object_nil (hinside : skipSpace cs = '\x7d' :: rest) :
    readValue (bound + 1) (levels + 1) ('\x7b' :: cs) = some (.object [], rest) := by
  rw [readValue.eq_2, skipSpace_cons (by decide)]
  simp only [hinside]

/-- An object with a member is read by its first member and the others. -/
theorem readValue_object (hinside : skipSpace cs = c :: more) (hc : c ≠ '\x7d') :
    readValue (bound + 1) (levels + 1) ('\x7b' :: cs) =
      readBoth (readMember bound levels (c :: more)) (readMembers bound levels)
        fun first others => .object (first :: others) := by
  rw [readValue.eq_2, skipSpace_cons (by decide)]
  simp only [hinside, readBoth]
  split
  next heq => cases heq
  next heq =>
    cases heq
    exact absurd rfl hc
  next hlevels _ =>
    cases hlevels
    simp only [Option.bind_eq_bind, Option.map_eq_bind]
    rfl

theorem readMembers_close (rest : List Char) :
    readMembers (bound + 1) levels ('\x7d' :: rest) = some ([], rest) := by
  rw [readMembers.eq_2, skipSpace_cons (by decide)]
  rfl

/-- Behind a comma there is one more member. -/
theorem readMembers_cons (cs : List Char) :
    readMembers (bound + 1) levels (',' :: cs) =
      readBoth (readMember bound levels cs) (readMembers bound levels) List.cons := by
  rw [readMembers.eq_2, skipSpace_cons (by decide)]
  simp only [readBoth, Option.bind_eq_bind, Option.map_eq_bind]
  rfl

/-- Behind the name of a member its value is read. -/
theorem readMember_label {name : String} {label : List Char} (h : label ∈ labels name) (cs : List Char) :
    readMember (bound + 1) levels (label ++ cs) =
      (readValue bound levels cs).map fun read => ((name, read.1), read.2) := by
  obtain ⟨quotation, before, after, hquotation, hbefore, hafter, rfl⟩ := mem_labels.1 h
  obtain ⟨inner, hinner, hquoted⟩ := exists_inQuotes hquotation
  have hdivided : skipSpace (before ++ ':' :: (after ++ cs)) = ':' :: (after ++ cs) := by
    rw [skipSpace_gap hbefore]
    exact skipSpace_cons (by decide) _
  have hvalue : readValue bound levels (after ++ cs) = readValue bound levels cs :=
    readValue_congr (skipSpace_gap hafter cs)
  have hlabel : (quotation ++ (before ++ ':' :: after)) ++ cs =
      '"' :: (inner ++ '"' :: (before ++ ':' :: (after ++ cs))) := by
    rw [List.append_assoc, hquoted]
    simp
  rw [hlabel, readMember.eq_2, skipSpace_cons (by decide)]
  simp only [readString_inQuotes hinner, Option.bind_eq_bind, Option.bind_some, hdivided, hvalue,
    String.ofList_toList]
  cases readValue bound levels cs <;> rfl

theorem readMember_of_readValue {name : String} {label : List Char} {value : Json}
    (hlabel : label ∈ labels name)
    (hvalue : readValue bound levels cs =
      if value.nesting ≤ levels then some (value, rest) else none) :
    readMember (bound + 1) levels (label ++ cs) =
      if value.nesting ≤ levels then some ((name, value), rest) else none := by
  rw [readMember_label hlabel, hvalue]
  split <;> rfl

/-! ## Values -/

theorem follows_nil : Follows [] := by
  intro c hc
  cases hc

theorem follows_cons (hc : c ∈ closers) : Follows (c :: rest) := by
  intro d hd
  cases hd
  exact hc

theorem follows_gap (hgap : gap ∈ gaps) (h : Follows rest) : Follows (gap ++ rest) := by
  cases gap with
  | nil => exact h
  | cons c more =>
    have hc := hgap c List.mem_cons_self
    refine follows_cons ?_
    simp only [isSpace, Bool.or_eq_true, beq_iff_eq] at hc
    rcases hc with ((rfl | rfl) | rfl) | rfl <;> decide

/-- Behind an item of an array there is a comma or the end, perhaps with space in front. -/
theorem follows_itemSpellings {items : List Json} (h : cs ∈ itemSpellings items) : Follows (cs ++ rest) := by
  cases items with
  | nil =>
    obtain ⟨gap, hgap, rfl⟩ := mem_itemSpellings_nil.1 h
    rw [List.append_assoc]
    exact follows_gap hgap (follows_cons (by decide))
  | cons item others =>
    obtain ⟨gap, _, _, _, hgap, -, -, -, rfl⟩ := mem_itemSpellings_cons.1 h
    rw [List.append_assoc]
    exact follows_gap hgap (follows_cons (by decide))

/-- Behind a member of an object there is a comma or the end, perhaps with space in front. -/
theorem follows_memberSpellings {members : List (String × Json)} (h : cs ∈ memberSpellings members) :
    Follows (cs ++ rest) := by
  cases members with
  | nil =>
    obtain ⟨gap, hgap, rfl⟩ := mem_memberSpellings_nil.1 h
    rw [List.append_assoc]
    exact follows_gap hgap (follows_cons (by decide))
  | cons member others =>
    obtain ⟨gap, _, _, _, _, hgap, -, -, -, -, rfl⟩ := mem_memberSpellings_cons.1 h
    rw [List.append_assoc]
    exact follows_gap hgap (follows_cons (by decide))

theorem exists_bracket {items : List Json} (h : cs ∈ spellings (.array items)) :
    ∃ more, cs = '[' :: more := by
  cases items with
  | nil =>
    obtain ⟨gap, -, hcs⟩ := mem_spellings_array_nil.1 h
    exact ⟨_, hcs⟩
  | cons first others =>
    obtain ⟨gap, inner, more, -, -, -, hcs⟩ := mem_spellings_array.1 h
    exact ⟨_, hcs⟩

theorem exists_brace {members : List (String × Json)} (h : cs ∈ spellings (.object members)) :
    ∃ more, cs = '\x7b' :: more := by
  cases members with
  | nil =>
    obtain ⟨gap, -, hcs⟩ := mem_spellings_object_nil.1 h
    exact ⟨_, hcs⟩
  | cons first others =>
    obtain ⟨gap, label, inner, more, -, -, -, -, hcs⟩ := mem_spellings_object.1 h
    exact ⟨_, hcs⟩

/-- A value does not begin with space, nor like the end of an array. -/
theorem exists_spelling_eq_cons {value : Json} (h : cs ∈ spellings value) :
    ∃ c more, cs = c :: more ∧ isSpace c = false ∧ c ≠ ']' := by
  cases value with
  | null =>
    rw [spellings, mem_word] at h
    exact ⟨_, _, h, by decide, by decide⟩
  | boolean value =>
    cases value with
    | true =>
      rw [spellings, mem_word] at h
      exact ⟨_, _, h, by decide, by decide⟩
    | false =>
      rw [spellings, mem_word] at h
      exact ⟨_, _, h, by decide, by decide⟩
  | integer value =>
    rw [spellings] at h
    obtain ⟨n, -, -, rfl⟩ := h
    obtain ⟨c, more, hdigits, hc⟩ := exists_decimal_eq_cons n
    exact ⟨c, more, hdigits, not_isSpace_of_isDigit hc, ne_of_isDigit hc (by decide)⟩
  | fraction spelling =>
    rw [spellings] at h
    exact absurd h (Language.notMem_zero _)
  | string text =>
    rw [spellings] at h
    obtain ⟨inner, -, hcs⟩ := mem_quotations.1 h
    exact ⟨_, _, hcs, by decide, by decide⟩
  | array items =>
    obtain ⟨more, hcs⟩ := exists_bracket h
    exact ⟨_, _, hcs, by decide, by decide⟩
  | object members =>
    obtain ⟨more, hcs⟩ := exists_brace h
    exact ⟨_, _, hcs, by decide, by decide⟩

/-- The name of a member begins with a quote. -/
theorem exists_label_eq_cons {name : String} (h : cs ∈ labels name) : ∃ more, cs = '"' :: more := by
  obtain ⟨quotation, before, after, hquotation, -, -, rfl⟩ := mem_labels.1 h
  obtain ⟨inner, -, rfl⟩ := mem_quotations.1 hquotation
  exact ⟨_, rfl⟩

mutual

/-- **What the reader makes of a value**, whatever follows: with enough levels it reads the value, and with fewer it gives
up. -/
theorem readValue_spelling : (value : Json) → {cs : List Char} → cs ∈ spellings value →
    (bound levels : Nat) → (rest : List Char) → cs.length ≤ bound → Follows rest →
    readValue bound levels (cs ++ rest) = if value.nesting ≤ levels then some (value, rest) else none
  | value, cs, h, 0, levels, rest, hbound, _ => by
    -- no value is written with no characters
    obtain ⟨c, more, rfl, -⟩ := exists_spelling_eq_cons h
    simp at hbound
  | .null, cs, h, bound + 1, levels, rest, _, _ => by
    rw [spellings, mem_word] at h
    rw [h, readValue.eq_2, nesting, if_pos (Nat.zero_le levels)]
    rfl
  | .boolean true, cs, h, bound + 1, levels, rest, _, _ => by
    rw [spellings, mem_word] at h
    rw [h, readValue.eq_2, nesting, if_pos (Nat.zero_le levels)]
    rfl
  | .boolean false, cs, h, bound + 1, levels, rest, _, _ => by
    rw [spellings, mem_word] at h
    rw [h, readValue.eq_2, nesting, if_pos (Nat.zero_le levels)]
    rfl
  | .integer value, cs, h, bound + 1, levels, rest, _, hrest => by
    rw [spellings] at h
    obtain ⟨n, -, rfl, rfl⟩ := h
    obtain ⟨c, more, hdigits, hc⟩ := exists_decimal_eq_cons n
    rw [hdigits, List.cons_append, readValue_digit hc, ← List.cons_append, ← hdigits,
      readNumber_decimal n hrest, nesting, if_pos (Nat.zero_le levels)]
  | .fraction spelling, cs, h, bound + 1, levels, rest, _, _ => by
    rw [spellings] at h
    exact absurd h (Language.notMem_zero _)
  | .string text, cs, h, bound + 1, levels, rest, _, _ => by
    rw [spellings] at h
    rw [readValue_quotation h, nesting, if_pos (Nat.zero_le levels)]
  | .array items, cs, h, bound + 1, 0, rest, _, _ => by
    obtain ⟨more, rfl⟩ := exists_bracket h
    rw [nesting, if_neg (Nat.not_succ_le_zero _)]
    exact readValue_zero (.inl rfl)
  | .array [], cs, h, bound + 1, levels + 1, rest, _, _ => by
    obtain ⟨gap, hgap, rfl⟩ := mem_spellings_array_nil.1 h
    have hclose : skipSpace (gap ++ ']' :: rest) = ']' :: rest :=
      (skipSpace_gap hgap _).trans (skipSpace_cons (by decide) _)
    rw [List.cons_append, List.append_assoc, List.singleton_append, readValue_array_nil hclose,
      nesting, nestingItems, if_pos (Nat.le_add_left 1 levels)]
  | .array (first :: others), cs, h, bound + 1, levels + 1, rest, hbound, hrest => by
    obtain ⟨gap, inner, more, hgap, hinner, hmore, rfl⟩ := mem_spellings_array.1 h
    simp only [List.length_cons, List.length_append] at hbound
    have hfirst := readValue_spelling first hinner bound levels (more ++ rest) (by omega)
      (follows_itemSpellings hmore)
    have hothers := readItems_spelling others hmore bound levels rest (by omega)
    obtain ⟨c, chars, rfl, hspace, hc⟩ := exists_spelling_eq_cons hinner
    have hinside : skipSpace (gap ++ (c :: chars ++ (more ++ rest))) = c :: (chars ++ (more ++ rest)) :=
      (skipSpace_gap hgap _).trans (skipSpace_cons hspace _)
    simp only [nesting, nestingItems, Nat.add_le_add_iff_right, List.cons_append, List.append_assoc]
    rw [← readBoth_eq hfirst hothers fun first others => Json.array (first :: others)]
    exact readValue_array hinside hc
  | .object members, cs, h, bound + 1, 0, rest, _, _ => by
    obtain ⟨more, rfl⟩ := exists_brace h
    rw [nesting, if_neg (Nat.not_succ_le_zero _)]
    exact readValue_zero (.inr rfl)
  | .object [], cs, h, bound + 1, levels + 1, rest, _, _ => by
    obtain ⟨gap, hgap, rfl⟩ := mem_spellings_object_nil.1 h
    have hclose : skipSpace (gap ++ '\x7d' :: rest) = '\x7d' :: rest :=
      (skipSpace_gap hgap _).trans (skipSpace_cons (by decide) _)
    rw [List.cons_append, List.append_assoc, List.singleton_append, readValue_object_nil hclose,
      nesting, nestingMembers, if_pos (Nat.le_add_left 1 levels)]
  | .object ((name, first) :: others), cs, h, bound + 1, levels + 1, rest, hbound, hrest => by
    obtain ⟨gap, label, inner, more, hgap, hlabel, hinner, hmore, rfl⟩ := mem_spellings_object.1 h
    simp only [List.length_cons, List.length_append] at hbound
    obtain ⟨chars, rfl⟩ := exists_label_eq_cons hlabel
    simp only [List.length_cons] at hbound
    -- the name of the member takes a step of its own
    obtain ⟨fewer, rfl⟩ : ∃ fewer, bound = fewer + 1 := ⟨bound - 1, by omega⟩
    have hvalue := readValue_spelling first hinner fewer levels (more ++ rest) (by omega)
      (follows_memberSpellings hmore)
    have hfirst := readMember_of_readValue hlabel hvalue
    have hothers := readMembers_spelling others hmore (fewer + 1) levels rest (by omega)
    have hinside : skipSpace (gap ++ ('"' :: chars ++ (inner ++ (more ++ rest)))) =
        '"' :: (chars ++ (inner ++ (more ++ rest))) :=
      (skipSpace_gap hgap _).trans (skipSpace_cons (by decide) _)
    simp only [nesting, nestingMembers, Nat.add_le_add_iff_right, List.cons_append, List.append_assoc]
    rw [← readBoth_eq hfirst hothers fun first others => Json.object (first :: others)]
    exact readValue_object hinside (by decide)

/-- What the reader makes of the items of an array after the first. -/
theorem readItems_spelling : (items : List Json) → {cs : List Char} → cs ∈ itemSpellings items →
    (bound levels : Nat) → (rest : List Char) → cs.length ≤ bound →
    readItems bound levels (cs ++ rest) =
      if nestingItems items ≤ levels then some (items, rest) else none
  | [], cs, h, bound, levels, rest, hbound => by
    obtain ⟨gap, hgap, rfl⟩ := mem_itemSpellings_nil.1 h
    simp only [List.length_append, List.length_singleton] at hbound
    obtain ⟨fewer, rfl⟩ : ∃ fewer, bound = fewer + 1 := ⟨bound - 1, by omega⟩
    rw [List.append_assoc, readItems_congr (skipSpace_gap hgap _), nestingItems,
      if_pos (Nat.zero_le levels)]
    exact readItems_close rest
  | item :: others, cs, h, bound, levels, rest, hbound => by
    obtain ⟨before, after, inner, more, hbefore, hafter, hinner, hmore, rfl⟩ :=
      mem_itemSpellings_cons.1 h
    simp only [List.length_append, List.length_cons] at hbound
    obtain ⟨fewer, rfl⟩ : ∃ fewer, bound = fewer + 1 := ⟨bound - 1, by omega⟩
    have hitem := readValue_spelling item hinner fewer levels (more ++ rest) (by omega)
      (follows_itemSpellings hmore)
    have hothers := readItems_spelling others hmore fewer levels rest (by omega)
    rw [← readValue_congr (skipSpace_gap hafter _)] at hitem
    rw [List.append_assoc, readItems_congr (skipSpace_gap hbefore _), nestingItems,
      ← readBoth_eq hitem hothers List.cons]
    simp only [List.cons_append, List.append_assoc]
    exact readItems_cons _

/-- What the reader makes of the members of an object after the first. -/
theorem readMembers_spelling : (members : List (String × Json)) → {cs : List Char} →
    cs ∈ memberSpellings members → (bound levels : Nat) → (rest : List Char) → cs.length ≤ bound →
    readMembers bound levels (cs ++ rest) =
      if nestingMembers members ≤ levels then some (members, rest) else none
  | [], cs, h, bound, levels, rest, hbound => by
    obtain ⟨gap, hgap, rfl⟩ := mem_memberSpellings_nil.1 h
    simp only [List.length_append, List.length_singleton] at hbound
    obtain ⟨fewer, rfl⟩ : ∃ fewer, bound = fewer + 1 := ⟨bound - 1, by omega⟩
    rw [List.append_assoc, readMembers_congr (skipSpace_gap hgap _), nestingMembers,
      if_pos (Nat.zero_le levels)]
    exact readMembers_close rest
  | (name, value) :: others, cs, h, bound, levels, rest, hbound => by
    obtain ⟨before, after, label, inner, more, hbefore, hafter, hlabel, hinner, hmore, rfl⟩ :=
      mem_memberSpellings_cons.1 h
    simp only [List.length_append, List.length_cons] at hbound
    obtain ⟨chars, rfl⟩ := exists_label_eq_cons hlabel
    simp only [List.length_cons] at hbound
    obtain ⟨fewer, rfl⟩ : ∃ fewer, bound = fewer + 1 + 1 := ⟨bound - 2, by omega⟩
    have hvalue := readValue_spelling value hinner fewer levels (more ++ rest) (by omega)
      (follows_memberSpellings hmore)
    have hmember := readMember_of_readValue hlabel hvalue
    have hothers := readMembers_spelling others hmore (fewer + 1) levels rest (by omega)
    rw [← readMember_congr (skipSpace_gap hafter _)] at hmember
    rw [List.append_assoc, readMembers_congr (skipSpace_gap hbefore _), nestingMembers,
      ← readBoth_eq hmember hothers List.cons]
    simp only [List.cons_append, List.append_assoc]
    exact readMembers_cons _

end

/-! ## The printer and the reader of this library -/

/-- The printer and the reader of this library. -/
def usual : Codec := ⟨pretty, read?⟩

/-- **The printer writes JSON, and the reader reads JSON**, as can be relied on of a library. -/
theorem conforms_usual : usual.Conforms where
  write_mem _ hplain := pretty_mem_texts hplain
  read_eq value text _ htext := by
    obtain ⟨before, inner, after, hbefore, hinner, hafter, hcs⟩ := mem_texts.1 htext
    have hlength : inner.length ≤ 2 * text.length + 2 := by
      have hall := congrArg List.length hcs
      simp only [List.length_append, String.length_toList] at hall
      omega
    have hread := readValue_spelling value hinner (2 * text.length + 2) (nestingLimit - 1) after hlength
      (by rw [← List.append_nil after]; exact follows_gap hafter follows_nil)
    show read? text = _
    rw [read?, hcs, readValue_congr (skipSpace_gap hbefore _), hread]
    by_cases hdeep : value.nesting < nestingLimit
    · have hend : skipSpace after = [] := by
        rw [← List.append_nil after, skipSpace_gap hafter]
        rfl
      rw [if_pos (Nat.le_sub_one_of_lt hdeep), if_pos hdeep]
      simp [hend]
    · have hle : ¬ value.nesting ≤ nestingLimit - 1 := by
        unfold nestingLimit at hdeep ⊢
        omega
      rw [if_neg hle, if_neg hdeep]

end Json
end Bindery
