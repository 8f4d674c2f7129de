import Mathlib.Algebra.Group.Nat.Defs
import Mathlib.Data.List.Basic
import QueryFilter.Date

/-!
# Numerals and dates read back

Reading undoes writing, for signed integers (`Numeral.readSigned?_writeSigned`), for padded numerals
(`Numeral.read?_writePadded`) and for the dates of the years from 0000 to 9999 (`Date.read?_write`).
In the other direction, what is read keeps its bounds: an integer fits into 64 bits and a date has a
year of four digits. All of this rests on one law of values, `Numeral.value_append`: digits put
behind others shift them to the left.
-/

namespace QueryFilter

namespace Numeral

/-! ### The value of digits -/

theorem value_append (as bs : List Char) :
    value (as ++ bs) = value as * 10 ^ bs.length + value bs := by
  rw [value, Nat.ofDigitChars_append, Nat.ofDigitChars_eq_ofDigitChars_zero, Nat.mul_comm]
  rfl

@[simp] theorem value_replicate_zero (k : Nat) : value (List.replicate k '0') = 0 := by
  rw [value, Nat.ofDigitChars_replicate_zero, Nat.mul_zero]

@[simp] theorem value_zeros_append (k : Nat) (cs : List Char) :
    value (List.replicate k '0' ++ cs) = value cs := by
  rw [value_append, value_replicate_zero, Nat.zero_mul, Nat.zero_add]

@[simp] theorem value_append_zeros (cs : List Char) (k : Nat) :
    value (cs ++ List.replicate k '0') = value cs * 10 ^ k := by
  rw [value_append, value_replicate_zero, List.length_replicate, Nat.add_zero]

@[simp] theorem value_write (n : Nat) : value (write n) = n := Nat.ofDigitChars_ten_toDigits

theorem value_singleton_lt {c : Char} (h : c.isDigit = true) : value [c] < 10 := by
  have hc : c.toNat ≤ 57 := (Char.isDigit_iff_toNat.mp h).2
  rw [value, Nat.ofDigitChars_cons, Nat.ofDigitChars_nil]
  show 10 * 0 + (c.toNat - 48) < 10
  omega

/-- A run of digits writes less than ten to its length. -/
theorem value_lt {cs : List Char} (h : cs.all Char.isDigit = true) :
    value cs < 10 ^ cs.length := by
  induction cs with
  | nil => exact Nat.one_pos
  | cons c cs ih =>
    rw [List.all_cons, Bool.and_eq_true] at h
    have hc := value_singleton_lt h.1
    have hcs := ih h.2
    rw [← List.singleton_append, value_append, List.length_append, List.length_singleton,
      Nat.add_comm 1, Nat.pow_succ]
    calc value [c] * 10 ^ cs.length + value cs
        < value [c] * 10 ^ cs.length + 1 * 10 ^ cs.length := by omega
      _ = (value [c] + 1) * 10 ^ cs.length := (Nat.add_mul ..).symm
      _ ≤ 10 * 10 ^ cs.length := Nat.mul_le_mul_right _ hc
      _ = 10 ^ cs.length * 10 := Nat.mul_comm ..

/-! ### Integers -/

theorem exists_cons_of_all_isDigit {cs : List Char} (hne : cs ≠ [])
    (hall : cs.all Char.isDigit = true) : ∃ c rest, cs = c :: rest ∧ c.isDigit = true := by
  obtain ⟨c, rest, rfl⟩ := List.exists_cons_of_ne_nil hne
  rw [List.all_cons, Bool.and_eq_true] at hall
  exact ⟨c, rest, rfl, hall.1⟩

theorem exists_write_eq_cons (n : Nat) : ∃ c cs, write n = c :: cs ∧ c.isDigit = true :=
  exists_cons_of_all_isDigit (write_ne_nil n) (all_isDigit_write n)

@[simp] theorem readSigned?_minus (cs : List Char) :
    readSigned? ('-' :: cs) = (read? cs).map fun n : Nat => -(n : Int) := by
  rw [readSigned?]
  cases read? cs <;> rfl

@[simp] theorem readSigned?_plus (cs : List Char) :
    readSigned? ('+' :: cs) = (read? cs).map fun n : Nat => (n : Int) := by
  rw [readSigned?]
  cases read? cs <;> rfl

theorem readSigned?_of_isDigit {c : Char} (h : c.isDigit = true) (cs : List Char) :
    readSigned? (c :: cs) = (read? (c :: cs)).map fun n : Nat => (n : Int) := by
  unfold readSigned?
  split
  · next heq => cases heq; exact absurd h (by decide)
  · next heq => cases heq; exact absurd h (by decide)
  · cases read? (c :: cs) <;> rfl

/-- A written integer reads back. -/
@[simp] theorem readSigned?_writeSigned (n : Int) : readSigned? (writeSigned n) = some n := by
  unfold writeSigned
  split
  · next h =>
    rw [readSigned?_minus, read?_write, Option.map_some]
    exact congrArg some (by omega)
  · next h =>
    obtain ⟨c, cs, hc, hdigit⟩ := exists_write_eq_cons n.natAbs
    rw [hc, readSigned?_of_isDigit hdigit, ← hc, read?_write, Option.map_some]
    exact congrArg some (by omega)

/-- An integer with a sign before it in any case reads back. -/
theorem readSigned?_sign (n : Int) :
    readSigned? ((if n < 0 then '-' else '+') :: write n.natAbs) = some n := by
  split
  · rw [readSigned?_minus, read?_write, Option.map_some]
    exact congrArg some (by omega)
  · rw [readSigned?_plus, read?_write, Option.map_some]
    exact congrArg some (by omega)

/-- A text starts as a number does: with a digit or with a minus sign. -/
def Begins (cs : List Char) : Prop := ∃ c rest, cs = c :: rest ∧ (c.isDigit = true ∨ c = '-')

@[simp] theorem begins_minus (cs : List Char) : Begins ('-' :: cs) := ⟨'-', cs, rfl, Or.inr rfl⟩

theorem begins_of_isDigit {c : Char} (h : c.isDigit = true) (cs : List Char) : Begins (c :: cs) :=
  ⟨c, cs, rfl, Or.inl h⟩

@[simp] theorem begins_writeSigned (n : Int) : Begins (writeSigned n) := by
  unfold writeSigned
  split
  · exact begins_minus _
  · obtain ⟨c, cs, hc, hdigit⟩ := exists_write_eq_cons n.natAbs
    rw [hc]
    exact begins_of_isDigit hdigit cs

theorem readInteger?_writeSigned {n : Int} (h : Fits64 n) :
    readInteger? (writeSigned n) = some n := by
  rw [readInteger?, readSigned?_writeSigned, Option.filter_some, if_pos (decide_eq_true h)]

theorem fits64_of_readInteger? {cs : List Char} {n : Int} (h : readInteger? cs = some n) :
    Fits64 n := by
  obtain ⟨-, hfits⟩ := Option.filter_eq_some_iff.mp h
  exact of_decide_eq_true hfits

/-! ### Padded numerals -/

theorem writePadded_eq (width n : Nat) :
    writePadded width n = List.replicate (width - (write n).length) '0' ++ write n := rfl

@[simp] theorem all_isDigit_writePadded (width n : Nat) :
    (writePadded width n).all Char.isDigit = true := by
  rw [writePadded_eq, List.all_append, all_isDigit_write, Bool.and_true, List.all_replicate]
  split <;> decide

@[simp] theorem writePadded_ne_nil (width n : Nat) : writePadded width n ≠ [] := by
  rw [writePadded_eq]
  exact List.append_ne_nil_of_right_ne_nil _ (write_ne_nil n)

@[simp] theorem read?_writePadded (width n : Nat) : read? (writePadded width n) = some n := by
  rw [read?, if_pos ⟨writePadded_ne_nil width n, all_isDigit_writePadded width n⟩, writePadded_eq,
    value_zeros_append, value_write]

theorem length_writePadded {width n : Nat} (hwidth : 0 < width) (h : n < 10 ^ width) :
    (writePadded width n).length = width := by
  have hle : (write n).length ≤ width := (Nat.length_toDigits_le_iff (by decide) hwidth).mpr h
  rw [writePadded_eq, List.length_append, List.length_replicate]
  omega

theorem lt_of_read? {cs : List Char} {n : Nat} (h : read? cs = some n) : n < 10 ^ cs.length := by
  unfold read? at h
  split at h
  · next hcs =>
    cases h
    exact value_lt hcs.2
  · cases h

end Numeral

/-! ### Dates -/

namespace Date

theorem read?_append {ys ms ds : List Char} (hy : ys.length = 4) (hm : ms.length = 2)
    (hd : ds.length = 2) :
    read? (ys ++ '-' :: ms ++ '-' :: ds) = (do
      let year ← Numeral.read? ys
      let month ← Numeral.read? ms
      let day ← Numeral.read? ds
      of? year month day) := by
  match ys, ms, ds, hy, hm, hd with
  | [_, _, _, _], [_, _], [_, _], _, _, _ => rfl

@[simp] theorem of?_eq_some (d : Date) : of? d.year d.month d.day = some d := dif_pos d.valid

/-- A written date of a year from 0000 to 9999 reads back. -/
theorem read?_write {d : Date} (h₀ : 0 ≤ d.year) (h₁ : d.year ≤ 9999) :
    read? d.write = some d := by
  have hmonth : d.month < 10 ^ 2 := Nat.lt_of_le_of_lt d.valid.2.1 (by decide)
  have hday : d.day < 10 ^ 2 := by
    have hle := d.valid.2.2.2
    have hdays : daysIn d.year d.month ≤ 31 := by
      unfold daysIn
      split
      · split <;> omega
      all_goals omega
    omega
  have hyear : ((d.year.natAbs : Nat) : Int) = d.year := by omega
  have hyear' : d.year.natAbs < 10 ^ 4 := by omega
  rw [write, if_neg (by omega), List.nil_append,
    read?_append (Numeral.length_writePadded (by decide) hyear')
      (Numeral.length_writePadded (by decide) hmonth)
      (Numeral.length_writePadded (by decide) hday),
    Numeral.read?_writePadded, Numeral.read?_writePadded, Numeral.read?_writePadded]
  show of? (d.year.natAbs : Int) d.month d.day = some d
  rw [hyear, of?_eq_some]

@[simp] theorem begins_write (d : Date) : Numeral.Begins d.write := by
  unfold write
  split
  · exact Numeral.begins_minus _
  · obtain ⟨c, cs, hc, hdigit⟩ := Numeral.exists_cons_of_all_isDigit
      (Numeral.writePadded_ne_nil 4 d.year.natAbs) (Numeral.all_isDigit_writePadded 4 d.year.natAbs)
    rw [hc]
    exact Numeral.begins_of_isDigit hdigit _

/-- A date which is read has a year from 0000 to 9999. -/
theorem year_of_read? {cs : List Char} {d : Date} (h : read? cs = some d) :
    0 ≤ d.year ∧ d.year ≤ 9999 := by
  unfold read? at h
  split at h
  · obtain ⟨year, hyear, h⟩ := Option.bind_eq_some_iff.mp h
    obtain ⟨month, -, h⟩ := Option.bind_eq_some_iff.mp h
    obtain ⟨day, -, h⟩ := Option.bind_eq_some_iff.mp h
    have hlt : year < 10 ^ 4 := Numeral.lt_of_read? hyear
    unfold of? at h
    split at h
    · cases h
      show (0 : Int) ≤ year ∧ (year : Int) ≤ 9999
      omega
    · cases h
  · cases h

end Date

end QueryFilter
