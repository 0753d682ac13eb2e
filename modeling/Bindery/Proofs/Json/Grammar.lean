import Bindery.Json.Printer
import Bindery.Json.Reader
import Mathlib.Computability.Language

/-!
# `Proofs.Json.Grammar` — the texts of JSON values

JSON leaves open how a value is written: where there is space, and which characters between quotes are escaped in which
way. The grammar here gives all texts of a value. With it one can say what to rely on of a library for JSON without
looking into it: what it writes is a text of the value, and every text of a value is read as that value, unless its arrays
and objects are nested too deep. That is limited to natural numbers of 64 bits and to objects that have no name twice, since
libraries differ about the rest.

## Contents
- `gaps`, `Written`, `quotations`, `spellings`, `texts`: the grammar.
- `nesting`, `Plain`: how deep the arrays and objects of a value are nested, and what libraries agree about.
- `Codec`, `Codec.Conforms`: what can be relied on of a library.
- `layout_mem_spellings`, `pretty_mem_texts`: a value that is laid out is a text of it.
-/

namespace Bindery
namespace Json

open Language (mem_mul)

/-! ## The grammar -/

/-- One word and no other. -/
def word (cs : List Char) : Language Char := {cs}

@[simp] theorem mem_word {cs other : List Char} : other ∈ word cs ↔ other = cs := Iff.rfl

/-- What may stand between the parts of a text. -/
def gaps : Language Char := {cs | ∀ c ∈ cs, isSpace c = true}

/-- A way to write a character between quotes: as it is, by a short escape, by its code unit, or by the two halves of a
pair of code units. -/
inductive Written (c : Char) : List Char → Prop where
  | plain (hquote : c ≠ '"') (hslash : c ≠ '\\') (hcode : 32 ≤ c.toNat) : Written c [c]
  | short {mark : Char} (hmark : shortEscape? mark = some c) : Written c ['\\', mark]
  | unit {h i j k : Char} {unit : Nat} (hunit : hexUnit? h i j k = some unit)
      (hhigh : isHighHalf unit = false) (hlow : isLowHalf unit = false) (hc : Char.ofNat unit = c) :
      Written c ['\\', 'u', h, i, j, k]
  | pair {h i j k l m n o : Char} {first second : Nat} (hfirst : hexUnit? h i j k = some first)
      (hsecond : hexUnit? l m n o = some second) (hhigh : isHighHalf first = true)
      (hlow : isLowHalf second = true)
      (hc : Char.ofNat (0x10000 + (first - 0xD800) * 0x400 + (second - 0xDC00)) = c) :
      Written c ['\\', 'u', h, i, j, k, '\\', 'u', l, m, n, o]

/-- The ways to write a character between quotes. -/
def writings (c : Char) : Language Char := {cs | Written c cs}

/-- The ways to write a text between quotes. -/
def inQuotes : List Char → Language Char
  | [] => word []
  | c :: rest => writings c * inQuotes rest

/-- The ways to quote a text. -/
def quotations (text : String) : Language Char := word ['"'] * (inQuotes text.toList * word ['"'])

/-- The ways to write the name of a member and what divides it from its value. -/
def labels (name : String) : Language Char := quotations name * (gaps * (word [':'] * gaps))

mutual

/-- The ways to write a value. -/
def spellings : Json → Language Char
  | .null => word ['n', 'u', 'l', 'l']
  | .boolean true => word ['t', 'r', 'u', 'e']
  | .boolean false => word ['f', 'a', 'l', 's', 'e']
  | .integer value => {cs | ∃ n < UInt64.size, value = .ofNat n ∧ cs = Text.decimal n}
  | .fraction _ => 0
  | .string text => quotations text
  | .array [] => word ['['] * (gaps * word [']'])
  | .array (first :: others) => word ['['] * (gaps * (spellings first * itemSpellings others))
  | .object [] => word ['\x7b'] * (gaps * word ['\x7d'])
  | .object ((name, first) :: others) =>
    word ['\x7b'] * (gaps * (labels name * (spellings first * memberSpellings others)))

/-- The ways to write the items of an array after the first, and its end. -/
def itemSpellings : List Json → Language Char
  | [] => gaps * word [']']
  | item :: others => gaps * (word [','] * (gaps * (spellings item * itemSpellings others)))

/-- The ways to write the members of an object after the first, and its end. -/
def memberSpellings : List (String × Json) → Language Char
  | [] => gaps * word ['\x7d']
  | (name, value) :: others =>
    gaps * (word [','] * (gaps * (labels name * (spellings value * memberSpellings others))))

end

/-- The texts of a value. -/
def texts (value : Json) : Language Char := gaps * (spellings value * gaps)

section

variable {cs : List Char} {name : String} {first : Json}

theorem mem_quotations {text : String} :
    cs ∈ quotations text ↔ ∃ inner ∈ inQuotes text.toList, cs = '"' :: (inner ++ ['"']) := by
  simp [quotations, mem_mul, eq_comm]

theorem mem_labels :
    cs ∈ labels name ↔ ∃ quotation before after, quotation ∈ quotations name ∧ before ∈ gaps ∧
      after ∈ gaps ∧ cs = quotation ++ (before ++ ':' :: after) := by
  simp [labels, mem_mul, eq_comm, and_assoc]

theorem mem_spellings_array_nil :
    cs ∈ spellings (.array []) ↔ ∃ gap ∈ gaps, cs = '[' :: (gap ++ [']']) := by
  simp [spellings, mem_mul, eq_comm]

/-- An array with items, taken apart. -/
theorem mem_spellings_array {others : List Json} :
    cs ∈ spellings (.array (first :: others)) ↔ ∃ gap inner more, gap ∈ gaps ∧
      inner ∈ spellings first ∧ more ∈ itemSpellings others ∧ cs = '[' :: (gap ++ (inner ++ more)) := by
  simp [spellings, mem_mul, eq_comm, and_assoc]

theorem mem_spellings_object_nil :
    cs ∈ spellings (.object []) ↔ ∃ gap ∈ gaps, cs = '\x7b' :: (gap ++ ['\x7d']) := by
  simp [spellings, mem_mul, eq_comm]

/-- An object with members, taken apart. -/
theorem mem_spellings_object {others : List (String × Json)} :
    cs ∈ spellings (.object ((name, first) :: others)) ↔ ∃ gap label inner more, gap ∈ gaps ∧
      label ∈ labels name ∧ inner ∈ spellings first ∧ more ∈ memberSpellings others ∧
      cs = '\x7b' :: (gap ++ (label ++ (inner ++ more))) := by
  simp [spellings, mem_mul, eq_comm, and_assoc]

theorem mem_itemSpellings_nil : cs ∈ itemSpellings [] ↔ ∃ gap ∈ gaps, cs = gap ++ [']'] := by
  simp [itemSpellings, mem_mul, eq_comm]

/-- One more item of an array, taken apart. -/
theorem mem_itemSpellings_cons {others : List Json} :
    cs ∈ itemSpellings (first :: others) ↔ ∃ before after inner more, before ∈ gaps ∧ after ∈ gaps ∧
      inner ∈ spellings first ∧ more ∈ itemSpellings others ∧
      cs = before ++ ',' :: (after ++ (inner ++ more)) := by
  simp [itemSpellings, mem_mul, eq_comm, and_assoc]

theorem mem_memberSpellings_nil : cs ∈ memberSpellings [] ↔ ∃ gap ∈ gaps, cs = gap ++ ['\x7d'] := by
  simp [memberSpellings, mem_mul, eq_comm]

/-- One more member of an object, taken apart. -/
theorem mem_memberSpellings_cons {others : List (String × Json)} :
    cs ∈ memberSpellings ((name, first) :: others) ↔ ∃ before after label inner more, before ∈ gaps ∧
      after ∈ gaps ∧ label ∈ labels name ∧ inner ∈ spellings first ∧ more ∈ memberSpellings others ∧
      cs = before ++ ',' :: (after ++ (label ++ (inner ++ more))) := by
  simp [memberSpellings, mem_mul, eq_comm, and_assoc]

theorem mem_texts {value : Json} :
    cs ∈ texts value ↔ ∃ before inner after, before ∈ gaps ∧ inner ∈ spellings value ∧ after ∈ gaps ∧
      cs = before ++ (inner ++ after) := by
  simp [texts, mem_mul, eq_comm, and_assoc]

end

/-! ## Libraries -/

mutual

/-- How deep the arrays and objects of a value are nested. -/
def nesting : Json → Nat
  | .null => 0
  | .boolean _ => 0
  | .integer _ => 0
  | .fraction _ => 0
  | .string _ => 0
  | .array items => nestingItems items + 1
  | .object members => nestingMembers members + 1

/-- How deep arrays and objects are nested in some items. -/
def nestingItems : List Json → Nat
  | [] => 0
  | item :: others => max item.nesting (nestingItems others)

/-- How deep arrays and objects are nested in some members. -/
def nestingMembers : List (String × Json) → Nat
  | [] => 0
  | (_, value) :: others => max value.nesting (nestingMembers others)

end

mutual

/-- Every number in the value is a natural one of 64 bits, and no object in it has a name twice. -/
def Plain : Json → Prop
  | .null => True
  | .boolean _ => True
  | .integer value => ∃ n < UInt64.size, value = .ofNat n
  | .fraction _ => False
  | .string _ => True
  | .array items => PlainItems items
  | .object members => PlainMembers members

/-- The items are plain. -/
def PlainItems : List Json → Prop
  | [] => True
  | item :: others => item.Plain ∧ PlainItems others

/-- The values of the members are plain, and no name is there twice. -/
def PlainMembers : List (String × Json) → Prop
  | [] => True
  | (name, value) :: others => name ∉ others.map Prod.fst ∧ value.Plain ∧ PlainMembers others

end

/-- A library that writes JSON values as texts and reads texts as JSON values. -/
structure Codec where
  write : Json → String
  read : String → Option Json

/-- What can be relied on of a library: what it writes is a text of the value, and every text of a value is read as that
value, unless it is nested too deep. -/
structure Codec.Conforms (codec : Codec) : Prop where
  write_mem : ∀ value : Json, value.Plain → (codec.write value).toList ∈ texts value
  read_eq : ∀ (value : Json) (text : String), value.Plain → text.toList ∈ texts value →
    codec.read text = if value.nesting < nestingLimit then some value else none

/-! ## Values that are laid out -/

theorem newLine_mem_gaps (depth : Nat) : newLine depth ∈ gaps := by
  intro c hc
  rcases List.mem_cons.1 hc with rfl | hc
  · decide
  · rw [List.eq_of_mem_replicate hc]
    decide

theorem nil_mem_gaps : [] ∈ gaps := by
  intro c hc
  cases hc

/-- Every code below 32 has two hexadecimal digits. -/
theorem hexUnit?_hexDigit {n : Nat} (h : n < 32) :
    hexUnit? '0' '0' (hexDigit (n / 16)) (hexDigit (n % 16)) = some n := by
  have hall : ∀ m < 32, hexUnit? '0' '0' (hexDigit (m / 16)) (hexDigit (m % 16)) = some m := by decide
  exact hall n h

/-- Every character is written in one of the ways that there are. -/
theorem written_escaped (c : Char) : Written c (escaped c) := by
  unfold escaped
  -- seven characters have a short escape
  iterate 7
    split
    next h =>
      subst h
      exact .short rfl
  split
  next h =>
    refine .unit (hexUnit?_hexDigit h) ?_ ?_ (Char.ofNat_toNat c)
    · have hlt : ¬ 0xD800 ≤ c.toNat := by omega
      simp [isHighHalf, hlt]
    · have hlt : ¬ 0xDC00 ≤ c.toNat := by omega
      simp [isLowHalf, hlt]
  next hquote hslash _ _ _ _ _ hcode => exact .plain hquote hslash (by omega)

/-- A quoted text is one way to quote it. -/
theorem quoted_mem_quotations (text : String) : quoted text ∈ quotations text := by
  have hinside : ∀ cs : List Char, cs.flatMap escaped ∈ inQuotes cs := by
    intro cs
    induction cs with
    | nil => exact mem_word.2 rfl
    | cons c rest ih => exact Language.append_mem_mul (written_escaped c) ih
  exact mem_quotations.2 ⟨_, hinside text.toList, rfl⟩

theorem label_mem_labels (name : String) : quoted name ++ [':', ' '] ∈ labels name := by
  have hblank : [' '] ∈ gaps := by
    intro c hc
    rw [List.mem_singleton.1 hc]
    decide
  exact mem_labels.2 ⟨_, [], [' '], quoted_mem_quotations name, nil_mem_gaps, hblank, rfl⟩

mutual

/-- A value that is laid out is one way to write it. -/
theorem layout_mem_spellings : (value : Json) → (depth : Nat) → value.Plain →
    layout depth value ∈ spellings value
  | .null, depth, _ => by
    rw [layout, spellings, mem_word]
  | .boolean true, depth, _ => by
    rw [layout, spellings, mem_word]
  | .boolean false, depth, _ => by
    rw [layout, spellings, mem_word]
  | .integer value, depth, hplain => by
    obtain ⟨n, hn, rfl⟩ := hplain
    rw [layout, spellings]
    exact ⟨n, hn, rfl, rfl⟩
  | .fraction spelling, depth, hplain => hplain.elim
  | .string text, depth, _ => by
    rw [layout, spellings]
    exact quoted_mem_quotations text
  | .array [], depth, _ => by
    rw [layout, mem_spellings_array_nil]
    exact ⟨[], nil_mem_gaps, rfl⟩
  | .array (first :: others), depth, hplain => by
    have hfirst := layout_mem_spellings first (depth + 1) hplain.1
    have hothers := layoutItems_mem_itemSpellings others (depth + 1) depth hplain.2
    rw [mem_spellings_array]
    refine ⟨_, _, _, newLine_mem_gaps (depth + 1), hfirst, hothers, ?_⟩
    simp [layout]
  | .object [], depth, _ => by
    rw [layout, mem_spellings_object_nil]
    exact ⟨[], nil_mem_gaps, rfl⟩
  | .object ((name, first) :: others), depth, hplain => by
    have hfirst := layout_mem_spellings first (depth + 1) hplain.2.1
    have hothers := layoutMembers_mem_memberSpellings others (depth + 1) depth hplain.2.2
    rw [mem_spellings_object]
    refine ⟨_, _, _, _, newLine_mem_gaps (depth + 1), label_mem_labels name, hfirst, hothers, ?_⟩
    simp [layout]

/-- The items of an array that is laid out, and its end. -/
theorem layoutItems_mem_itemSpellings : (items : List Json) → (depth outer : Nat) → PlainItems items →
    layoutItems depth items ++ (newLine outer ++ [']']) ∈ itemSpellings items
  | [], depth, outer, _ => by
    rw [layoutItems, mem_itemSpellings_nil]
    exact ⟨_, newLine_mem_gaps outer, rfl⟩
  | item :: others, depth, outer, hplain => by
    have hitem := layout_mem_spellings item depth hplain.1
    have hothers := layoutItems_mem_itemSpellings others depth outer hplain.2
    rw [mem_itemSpellings_cons]
    refine ⟨[], _, _, _, nil_mem_gaps, newLine_mem_gaps depth, hitem, hothers, ?_⟩
    simp [layoutItems]

/-- The members of an object that is laid out, and its end. -/
theorem layoutMembers_mem_memberSpellings : (members : List (String × Json)) → (depth outer : Nat) →
    PlainMembers members →
    layoutMembers depth members ++ (newLine outer ++ ['\x7d']) ∈ memberSpellings members
  | [], depth, outer, _ => by
    rw [layoutMembers, mem_memberSpellings_nil]
    exact ⟨_, newLine_mem_gaps outer, rfl⟩
  | (name, value) :: others, depth, outer, hplain => by
    have hvalue := layout_mem_spellings value depth hplain.2.1
    have hothers := layoutMembers_mem_memberSpellings others depth outer hplain.2.2
    rw [mem_memberSpellings_cons]
    refine ⟨[], _, _, _, _, nil_mem_gaps, newLine_mem_gaps depth, label_mem_labels name, hvalue, hothers, ?_⟩
    simp [layoutMembers]

end

/-- **A value that is laid out is a text of it.** -/
theorem pretty_mem_texts {value : Json} (h : value.Plain) : value.pretty.toList ∈ texts value := by
  rw [mem_texts]
  refine ⟨[], _, [], nil_mem_gaps, layout_mem_spellings value 0 h, nil_mem_gaps, ?_⟩
  simp [pretty]

end Json
end Bindery
