import QueryFilter.Data
import QueryFilter.Date
import QueryFilter.Binary64.Decimal
import QueryFilter.Toml.Lexical

/-!
# Scalars

The values of TOML which have no parts: strings, integers, floats, truth values and date-times. A
date-time has no counterpart in structured data; it becomes a record with one field, which holds the
date-time's normal form as text.
-/

namespace QueryFilter.Toml

open Scanner

/-! ### Date-times -/

/-- The name of the field of a date-time. -/
def dateTimeField : String := "$__toml_private_datetime"

/-- A number of two digits which is at most `limit`. -/
def twoDigits (limit : Nat) : Scanner Nat := do
  let n := Numeral.value (← exactly 2 Char.isDigit)
  if n ≤ limit then return n else failure

/-- A day. -/
def date : Scanner Date := do
  let year := Numeral.value (← exactly 4 Char.isDigit)
  token ['-']
  let month ← twoDigits 12
  token ['-']
  let day ← twoDigits 31
  ofOption (Date.of? year month day)

/-- The fraction of a second in normal form: a point and at most nine digits without zeros at the
end, or nothing if there are no such digits. -/
def normalFraction (digits : List Char) : List Char :=
  match ((digits.take 9).reverse.dropWhile (· = '0')).reverse with
  | [] => []
  | ds => '.' :: ds

/-- A time of the day, in normal form. -/
def time : Scanner (List Char) := do
  let hour ← twoDigits 23
  token [':']
  let minute ← twoDigits 59
  token [':']
  let second ← twoDigits 60
  let fraction ← optional? (do token ['.']; run1 Char.isDigit)
  return Numeral.writePadded 2 hour ++ ':' :: Numeral.writePadded 2 minute
    ++ ':' :: Numeral.writePadded 2 second ++ normalFraction (fraction.getD [])

/-- An offset from universal time, in normal form; no offset is negative zero. -/
def offset : Scanner (List Char) :=
  (do let _ ← character (fun c => c = 'Z' || c = 'z'); return ['Z'])
    <|> (do
      let sign ← character (fun c => c = '+' || c = '-')
      let hour ← twoDigits 23
      token [':']
      let minute ← twoDigits 59
      let sign := if hour = 0 ∧ minute = 0 then '+' else sign
      return sign :: Numeral.writePadded 2 hour ++ ':' :: Numeral.writePadded 2 minute)

/-- A day with a time, a day alone, or a time alone, in normal form. -/
def dateTime : Scanner (List Char) :=
  (do
    let day ← date
    let rest ← optional? do
      let _ ← character (fun c => c = 'T' || c = 't' || c = ' ')
      let t ← time
      return 'T' :: t ++ (← optional? offset).getD []
    return day.write ++ rest.getD [])
    <|> time

/-! ### Numbers -/

/-- Digits of a class, with single underscores between them. -/
def digitGroups (isDigit : Char → Bool) : Scanner (List Char) := do
  let d ← character isDigit
  let more ← many (character isDigit <|> (do token ['_']; character isDigit))
  return d :: more

/-- A sign, if there is one. -/
def sign : Scanner (List Char) := do
  match ← optional? (character fun c => c = '+' || c = '-') with
  | some c => return [c]
  | none => return []

/-- The digits of a whole number: a zero alone, or digits which start with none. -/
def wholeDigits : Scanner (List Char) := do
  ahead (character Char.isDigit)
  match ← optional? (token ['0']) with
  | some _ => return ['0']
  | none => digitGroups Char.isDigit

/-- A number in base sixteen, eight or two. -/
def basedInteger : Scanner Int :=
  let based (letter : Char) (base : Nat) (isDigit : Char → Bool) : Scanner Int := do
    token ['0', letter]
    return (numberIn base (← digitGroups isDigit) : Nat)
  based 'x' 16 isHexDigit
    <|> based 'o' 8 (fun c => c.isDigit && decide (c ≤ '7'))
    <|> based 'b' 2 (fun c => c = '0' || c = '1')

/-- A number in base ten. -/
def decimalInteger : Scanner Int := do
  let s ← sign
  let digits ← wholeDigits
  ofOption (Numeral.readSigned? (s ++ digits))

/-- An integer of 64 bits. -/
def integer : Scanner Int :=
  filtered (basedInteger <|> decimalInteger) fun n => decide (Numeral.Fits64 n)

/-- The exponent of a float. -/
def exponent : Scanner (List Char) := do
  let e ← character (fun c => c = 'e' || c = 'E')
  let s ← sign
  return e :: s ++ (← digitGroups Char.isDigit)

/-- The fraction of a float. -/
def fraction : Scanner (List Char) := do
  token ['.']
  return '.' :: (← digitGroups Char.isDigit)

/-- A float in digits. It has a fraction or an exponent; a positive one has to be in range. -/
def float : Scanner Binary64 := do
  let s ← sign
  let digits ← wholeDigits
  let tail ← exponent <|> (do
    let f ← fraction
    return f ++ (← optional? exponent).getD [])
  let d ← ofOption (Decimal.read? (s ++ digits ++ tail))
  if d.nearest = .infinite false then failure else return d.nearest

/-- A float named by a word. -/
def floatWord : Scanner Binary64 := do
  let s ← sign
  (do token "inf".toList; return .infinite (s == ['-']))
    <|> (do token "nan".toList; return .notANumber)

/-! ### All scalars -/

/-- A truth value. -/
def boolean : Scanner Bool :=
  (do token "true".toList; return true) <|> (do token "false".toList; return false)

/-- A scalar. -/
def scalar : Scanner Data :=
  (do return .text (String.ofList (← string)))
    <|> (do return .record [(dateTimeField, .text (String.ofList (← dateTime)))])
    <|> (do return .decimal (← float))
    <|> (do return .integer (← integer))
    <|> (do return .decimal (← floatWord))
    <|> (do return .boolean (← boolean))

end QueryFilter.Toml
