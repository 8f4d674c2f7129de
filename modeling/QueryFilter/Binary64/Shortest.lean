import QueryFilter.Binary64.Decimal

/-!
# The shortest decimal of a double

Every finite double has a decimal with the fewest digits among those which read back as the same
double. For each count of digits, from one to seventeen, the grid of decimals with that many digits
has two neighbours of the double; the first count for which a neighbour reads back wins, and of two
such neighbours the nearer one. Only a tie between the neighbours is left open, and `Tie` says how
it goes.
-/

namespace QueryFilter

/-- Which of two equally near neighbours is taken: the larger one, or the one with the even last
digit. -/
inductive Tie where
  | up
  | even
deriving DecidableEq

namespace Binary64.Finite

/-- The number of digits before the point of the magnitude, negative if zeros follow the point. The
smallest double exceeds `10 ^ -340`, so counting digits at that place counts them all. -/
def decade (x : Finite) : Int :=
  let (num, den) := x.ratio
  ((Numeral.write (num * Nat.pow 10 340 / den)).length : Int) - 340

/-- Whether a decimal reads back as a double. -/
def reads (x : Finite) (d : Decimal) : Bool := decide (d.nearest = .finite x)

/-- The double's two neighbours among the decimals with `count` digits, the nearer one first. -/
def neighbours (tie : Tie) (x : Finite) (count : Nat) : List Decimal :=
  let place := x.decade - count
  let (num, den) := x.ratio
  let scaled := num * Nat.pow 10 (-place).toNat
  let unit := den * Nat.pow 10 place.toNat
  let k := scaled / unit
  let r := scaled % unit
  let below : Decimal := ⟨x.negative, k, place⟩
  let above : Decimal :=
    if k + 1 = Nat.pow 10 count then ⟨x.negative, 1, place + count⟩ else ⟨x.negative, k + 1, place⟩
  let preferAbove :=
    if 2 * r = unit then
      match tie with
      | .up => true
      | .even => k % 2 == 1
    else decide (unit < 2 * r)
  if preferAbove then [above, below] else [below, above]

/-- The nearest of the double's neighbours with `count` digits which read back, if one does. -/
def neighbour? (tie : Tie) (x : Finite) (count : Nat) : Option Decimal :=
  (x.neighbours tie count).find? x.reads

/-- The double's exact decimal. -/
def exact (x : Finite) : Decimal :=
  if 1074 ≤ x.exponent then ⟨x.negative, x.significand <<< (x.exponent - 1074), 0⟩
  else
    ⟨x.negative, x.significand * Nat.pow 5 (1074 - x.exponent), -((1074 - x.exponent : Nat) : Int)⟩

/-- The shortest decimal which reads back as the double, and the nearest of these. -/
def shortest (tie : Tie) (x : Finite) : Decimal :=
  if x.significand = 0 then ⟨x.negative, 0, 0⟩
  else ((List.range 17).findSome? fun i => x.neighbour? tie (i + 1)).getD x.exact

end Binary64.Finite

end QueryFilter
