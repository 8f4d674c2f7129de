import QueryFilter.Numeral

/-!
# Calendar dates

Days of the Gregorian calendar, extended to all years, and their texts `YYYY-MM-DD`. Reading accepts
the years from 0000 to 9999; writing pads the year to four digits and puts a minus sign before a
negative one.
-/

namespace QueryFilter

namespace Date

/-- Every fourth year is a leap year, but of the full centuries only every fourth. -/
def isLeapYear (year : Int) : Bool :=
  year % 4 == 0 && (year % 100 != 0 || year % 400 == 0)

/-- The number of days of a month. -/
def daysIn (year : Int) (month : Nat) : Nat :=
  match month with
  | 2 => if isLeapYear year then 29 else 28
  | 4 | 6 | 9 | 11 => 30
  | _ => 31

/-- Whether the calendar has such a day. -/
def IsDay (year : Int) (month day : Nat) : Prop :=
  1 ≤ month ∧ month ≤ 12 ∧ 1 ≤ day ∧ day ≤ daysIn year month

instance (y : Int) (m d : Nat) : Decidable (IsDay y m d) :=
  inferInstanceAs (Decidable (_ ∧ _ ∧ _ ∧ _))

end Date

/-- A day of the calendar. -/
structure Date where
  year : Int
  month : Nat
  day : Nat
  valid : Date.IsDay year month day
deriving DecidableEq

namespace Date

/-- The day with the given year, month and day of the month, if there is one. -/
def of? (year : Int) (month day : Nat) : Option Date :=
  if h : IsDay year month day then some ⟨year, month, day, h⟩ else none

/-- The day written by ten characters `YYYY-MM-DD`. -/
def read? : List Char → Option Date
  | [y₁, y₂, y₃, y₄, '-', m₁, m₂, '-', d₁, d₂] => do
    let year ← Numeral.read? [y₁, y₂, y₃, y₄]
    let month ← Numeral.read? [m₁, m₂]
    let day ← Numeral.read? [d₁, d₂]
    of? year month day
  | _ => none

/-- The text of a day. -/
def write (d : Date) : List Char :=
  (if d.year < 0 then ['-'] else []) ++ Numeral.writePadded 4 d.year.natAbs
    ++ '-' :: Numeral.writePadded 2 d.month ++ '-' :: Numeral.writePadded 2 d.day

/-- The text of a day as a string. -/
def display (d : Date) : String := String.ofList d.write

end Date

end QueryFilter
