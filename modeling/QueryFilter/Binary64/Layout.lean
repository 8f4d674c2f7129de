import QueryFilter.Binary64.Shortest

/-!
# Layouts of doubles

How the shortest decimal of a double is set as text. A `Layout` holds the decisions: which
magnitudes are written without an exponent, whether a whole number keeps a fraction, and how a tie
between two shortest decimals goes. Two layouts are in use, `Layout.plain` for reading by people and
`Layout.json` for JSON texts.
-/

namespace QueryFilter

/-- The decisions of a layout. A number `d.ddd * 10 ^ e` is written positionally if `e` lies in
`positional`, both ends included, or if there is no such range. -/
structure Layout where
  positional : Option (Int × Int)
  wholeFraction : Bool
  tie : Tie
deriving DecidableEq

namespace Layout

/-- Always positional; a whole number has no point; a tie goes up. -/
def plain : Layout := ⟨none, false, .up⟩

/-- Positional from `10 ^ -5` up to `10 ^ 16`, with a digit on each side of the point; a tie goes to
the even digit. -/
def json : Layout := ⟨some (-5, 15), true, .even⟩

/-- The digits of a coefficient with the point `places` digits from the right end. -/
def setPoint (digits : List Char) (places : Nat) : List Char :=
  if places < digits.length then
    digits.take (digits.length - places) ++ '.' :: digits.drop (digits.length - places)
  else
    '0' :: '.' :: List.replicate (places - digits.length) '0' ++ digits

/-- A magnitude written without an exponent. -/
def writePositional (layout : Layout) (coefficient : Nat) (exponent : Int) : List Char :=
  let digits := Numeral.write coefficient
  if 0 ≤ exponent then
    digits ++ List.replicate exponent.toNat '0' ++ (if layout.wholeFraction then ['.', '0'] else [])
  else setPoint digits (-exponent).toNat

/-- A magnitude written with one digit before the point and an exponent with its sign. -/
def writeScientific (coefficient : Nat) (exponent : Int) : List Char :=
  let digits := Numeral.write coefficient
  let power := exponent + (digits.length - 1 : Nat)
  let sign := if power < 0 then '-' else '+'
  let mantissa :=
    match digits with
    | d :: e :: rest => d :: '.' :: e :: rest
    | _ => digits
  mantissa ++ 'e' :: sign :: Numeral.write power.natAbs

/-- Whether a decimal is written without an exponent. -/
def isPositional (layout : Layout) (d : Decimal) : Bool :=
  match layout.positional with
  | none => true
  | some (low, high) =>
    let power := d.exponent + ((Numeral.write d.coefficient).length - 1 : Nat)
    decide (low ≤ power) && decide (power ≤ high)

/-- The text of a decimal. -/
def writeDecimal (layout : Layout) (d : Decimal) : List Char :=
  let magnitude :=
    if layout.isPositional d then layout.writePositional d.coefficient d.exponent
    else writeScientific d.coefficient d.exponent
  if d.negative then '-' :: magnitude else magnitude

/-- The text of a finite double: its shortest decimal, set in the layout. -/
def write (layout : Layout) (x : Binary64.Finite) : List Char :=
  layout.writeDecimal (x.shortest layout.tie)

end Layout

/-- The text of a double for people. -/
def Binary64.display : Binary64 → String
  | .finite x => String.ofList (Layout.plain.write x)
  | .infinite negative => if negative then "-inf" else "inf"
  | .notANumber => "NaN"

end QueryFilter
