import QueryFilter.Binary64
import QueryFilter.Numeral

/-!
# Decimal texts of doubles

A `Decimal` is a sign, a coefficient and a power of ten. `Decimal.read?` reads the usual way of
writing one: digits with at most one point among them, then perhaps an exponent. `Decimal.nearest`
is the double nearest to it.
-/

namespace QueryFilter

/-- The number `coefficient * 10 ^ exponent`, with a sign. -/
structure Decimal where
  negative : Bool
  coefficient : Nat
  exponent : Int
deriving DecidableEq

namespace Decimal

/-- A text without its leading sign, and whether that sign is a minus. -/
def takeSign : List Char → Bool × List Char
  | '-' :: cs => (true, cs)
  | '+' :: cs => (false, cs)
  | cs => (false, cs)

/-- A text after its fraction: the digits behind a leading point, and what follows them. Without a
point there are none. -/
def takeFraction : List Char → List Char × List Char
  | '.' :: cs => (cs.takeWhile Char.isDigit, cs.dropWhile Char.isDigit)
  | cs => ([], cs)

/-- The exponent which ends a decimal: nothing, or `e` and an integer. -/
def readExponent? : List Char → Option Int
  | [] => some 0
  | c :: cs => if c = 'e' ∨ c = 'E' then Numeral.readSigned? cs else none

/-- The decimal written by a text. There is at least one digit, before or behind the point. -/
def read? (cs : List Char) : Option Decimal :=
  let (negative, body) := takeSign cs
  let whole := body.takeWhile Char.isDigit
  let (fraction, tail) := takeFraction (body.dropWhile Char.isDigit)
  if whole ++ fraction = [] then none
  else (readExponent? tail).map fun e =>
    ⟨negative, Numeral.value (whole ++ fraction), e - fraction.length⟩

/-- The double nearest to a decimal, ties to even. A decimal with a digit above the place `10 ^ 310`
is out of range, and one with no digit above `10 ^ -330` is nearer to zero than to any other
double; so no power of ten beyond these is ever computed. -/
def nearest (d : Decimal) : Binary64 :=
  let top := ((Numeral.write d.coefficient).length : Int) + d.exponent
  if d.coefficient = 0 ∨ top < -330 then .finite (Binary64.zero d.negative)
  else if 310 < top then .infinite d.negative
  else if 0 ≤ d.exponent then
    Binary64.nearest d.negative (d.coefficient * Nat.pow 10 d.exponent.toNat) 1
  else
    Binary64.nearest d.negative d.coefficient (Nat.pow 10 (-d.exponent).toNat)

end Decimal

/-- The finite double nearest to the decimal which a text writes; none if the text is no decimal or
the decimal is out of range. -/
def Binary64.readFinite? (cs : List Char) : Option Binary64.Finite :=
  match (Decimal.read? cs).map Decimal.nearest with
  | some (.finite x) => some x
  | _ => none

end QueryFilter
