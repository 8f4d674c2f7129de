/-!
# Decimal numerals

Natural numbers and integers written in decimal digits. Only the ASCII digits count, leading zeros
are allowed when reading, and nothing else may stand beside the digits. Writing never produces a
leading zero, apart from padding to a fixed width.
-/

namespace QueryFilter.Numeral

/-- The number which a run of digits writes. -/
def value (digits : List Char) : Nat := Nat.ofDigitChars 10 digits 0

/-- The number written by a text of one or more digits. -/
def read? (cs : List Char) : Option Nat :=
  if cs ≠ [] ∧ cs.all Char.isDigit then some (value cs) else none

/-- The digits of a number. -/
def write (n : Nat) : List Char := Nat.toDigits 10 n

/-- The digits of a number with zeros in front, up to `width` of them. -/
def writePadded (width n : Nat) : List Char := List.leftpad width '0' (write n)

/-- The integer written by digits after at most one sign. -/
def readSigned? : List Char → Option Int
  | '-' :: cs => (read? cs).map fun n => -(n : Int)
  | '+' :: cs => (read? cs).map fun n => (n : Int)
  | cs => (read? cs).map fun n => (n : Int)

/-- The digits of an integer, after a minus sign if it is negative. -/
def writeSigned (n : Int) : List Char :=
  if n < 0 then '-' :: write n.natAbs else write n.natAbs

/-- The integers which fit into 64 bits with a sign: from `-2 ^ 63` up to `2 ^ 63 - 1`. -/
def Fits64 (n : Int) : Prop := -9223372036854775808 ≤ n ∧ n ≤ 9223372036854775807

instance (n : Int) : Decidable (Fits64 n) := inferInstanceAs (Decidable (_ ∧ _))

/-- The signed 64-bit integer written by a text; a number out of range is refused and never
wrapped. -/
def readInteger? (cs : List Char) : Option Int :=
  (readSigned? cs).filter fun n => decide (Fits64 n)

@[simp] theorem write_ne_nil (n : Nat) : write n ≠ [] := Nat.toDigits_ne_nil

@[simp] theorem all_isDigit_write (n : Nat) : (write n).all Char.isDigit = true := by
  rw [List.all_eq_true]
  exact fun c hc => Nat.isDigit_of_mem_toDigits (by decide) (by decide) hc

/-- A written number reads back. -/
@[simp] theorem read?_write (n : Nat) : read? (write n) = some n := by
  rw [read?, if_pos ⟨write_ne_nil n, all_isDigit_write n⟩]
  exact congrArg some Nat.ofDigitChars_ten_toDigits

end QueryFilter.Numeral
