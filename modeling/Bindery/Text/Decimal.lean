/-!
# `Text.Decimal` — numbers in decimal notation

## Contents
- `decimal`: the digits of a number, none of them idle.
- `readDecimal`: the number a run of digits stands for.
-/

namespace Bindery
namespace Text

/-- The digit for a number below ten. -/
def digit (n : Nat) : Char := Char.ofNat (48 + n)

/-- The value of a digit. -/
def digitValue (c : Char) : Nat := c.toNat - 48

/-- Whether `c` is one of the ten digits. -/
def isDigit (c : Char) : Bool := '0' ≤ c && c ≤ '9'

/-- A number in decimal notation. -/
def decimal (n : Nat) : List Char :=
  if n < 10 then [digit n] else decimal (n / 10) ++ [digit (n % 10)]

/-- The number that a run of digits stands for. -/
def readDecimal (cs : List Char) : Nat := cs.foldl (fun n c => 10 * n + digitValue c) 0

theorem digitValue_digit {n : Nat} (h : n < 10) : digitValue (digit n) = n := by
  have : ∀ m < 10, digitValue (digit m) = m := by decide
  exact this n h

theorem isDigit_digit {n : Nat} (h : n < 10) : isDigit (digit n) = true := by
  have : ∀ m < 10, isDigit (digit m) = true := by decide
  exact this n h

/-- Reading undoes writing. -/
theorem readDecimal_decimal (n : Nat) : readDecimal (decimal n) = n := by
  fun_induction decimal n with
  | case1 n h => simp [readDecimal, digitValue_digit h]
  | case2 n h ih =>
    unfold readDecimal at ih ⊢
    rw [List.foldl_append, ih, List.foldl_cons, List.foldl_nil,
      digitValue_digit (Nat.mod_lt n (by decide)), Nat.div_add_mod]

end Text
end Bindery
