/-!
# Doubles

The numbers of the IEEE 754 format binary64, as exact values. A finite double is a sign and a
magnitude `significand * 2 ^ exponent`, counted in units of `2 ^ -1074`, which is the smallest
positive double; so both parts of the magnitude are natural numbers and every question about
doubles is a question about natural numbers. `nearest` rounds a fraction to the nearest double, ties
to even.
-/

namespace QueryFilter

namespace Binary64

/-- The least significand of 53 bits, `2 ^ 52`. -/
abbrev leadingBit : Nat := 0x10000000000000

/-- The shape of a magnitude: at most 53 bits of significand, the full 53 of them unless the
exponent is the smallest one. Each magnitude has one such form. -/
def Canonical (significand exponent : Nat) : Prop :=
  significand < 2 * leadingBit ∧ exponent ≤ 2045 ∧ (exponent = 0 ∨ leadingBit ≤ significand)

instance (s e : Nat) : Decidable (Canonical s e) := inferInstanceAs (Decidable (_ ∧ _ ∧ _))

/-- A finite double, of magnitude `significand * 2 ^ exponent` in units of `2 ^ -1074`. -/
structure Finite where
  negative : Bool
  significand : Nat
  exponent : Nat
  canonical : Canonical significand exponent
deriving DecidableEq

end Binary64

/-- A double: finite, infinite, or no number at all. -/
inductive Binary64 where
  | finite (x : Binary64.Finite)
  | infinite (negative : Bool)
  | notANumber
deriving DecidableEq

namespace Binary64

/-- The zero of a sign. -/
def zero (negative : Bool) : Finite := ⟨negative, 0, 0, by decide⟩

/-- The double with the given 64 bits: one of sign, eleven of exponent, fifty-two of fraction. -/
def ofBits (bits : Nat) : Binary64 :=
  let negative := (bits >>> 63) % 2 == 1
  let field := (bits >>> 52) % 2048
  let fraction := bits % leadingBit
  have hf : fraction < leadingBit := Nat.mod_lt _ (by decide)
  have he : field < 2048 := Nat.mod_lt _ (by decide)
  if top : field = 2047 then
    if fraction = 0 then infinite negative else notANumber
  else if bottom : field = 0 then
    finite ⟨negative, fraction, 0, by unfold Canonical; omega⟩
  else
    finite ⟨negative, leadingBit + fraction, field - 1, by unfold Canonical; omega⟩

/-! ### Rounding -/

/-- The natural number nearest to `num / den`; of two equally near ones, the even one. -/
def roundDiv (num den : Nat) : Nat :=
  let q := num / den
  let r := num % den
  if 2 * r < den then q
  else if den < 2 * r then q + 1
  else q + q % 2

/-- The significand and exponent nearest to `num / den` units of the smallest positive double. The
exponent is that of the binade which holds the fraction; a significand which rounds up to 54 bits
goes on to the next binade. -/
def roundUnits (num den : Nat) : Nat × Nat :=
  let whole := num / den
  let exponent := if whole < 2 * leadingBit then 0 else Nat.log2 whole - 52
  let significand := roundDiv num (den <<< exponent)
  if significand = 2 * leadingBit then (leadingBit, exponent + 1) else (significand, exponent)

/-- The double nearest to `num / den` with a sign, ties to even; infinite when the magnitude is out
of range. -/
def nearest (negative : Bool) (num den : Nat) : Binary64 :=
  let (significand, exponent) := roundUnits (num <<< 1074) den
  if h : Canonical significand exponent then finite ⟨negative, significand, exponent, h⟩
  else infinite negative

namespace Finite

/-- The magnitude as a fraction: numerator and denominator. -/
def ratio (x : Finite) : Nat × Nat :=
  if 1074 ≤ x.exponent then (x.significand <<< (x.exponent - 1074), 1)
  else (x.significand, 1 <<< (1074 - x.exponent))

end Finite

end Binary64

end QueryFilter
