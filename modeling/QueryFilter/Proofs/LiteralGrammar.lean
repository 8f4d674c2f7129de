import Mathlib.Algebra.Group.Int.Defs
import QueryFilter.Proofs.Answer
import QueryFilter.Proofs.Literal

/-!
# How integers and dates are written in literals

The grammars are relations between texts and what they denote, with no reader in them: a number is a
run of digits of which each one behind others shifts them by one place (`Numeral.Denotes`), an
integer has at most one sign before it (`Numeral.DenotesSigned`), and a date is four digits, two and
two with dashes between them (`Date.Denotes`). Which days there are is said by `Date.InCalendar`.

The readers accept what the grammars derive, under one condition more for each: an integer lies in
the range of 64 bits, and a date is a day of the calendar. The grammar gives a text its number
without any bound, so that no number comes back wrapped. As a number has a single text of each
length (`Numeral.Denotes.unique`), a date is written as it was read (`Date.write_eq_of_read?`); an
integer need not be, because of zeros and a plus sign in front of it. `ValueType.coerce_exact` sums
up.
-/

namespace QueryFilter

namespace Numeral

/-! ### Numbers -/

/-- A character is the digit of a number less than ten. -/
def IsDigitOf (c : Char) (d : Nat) : Prop :=
  ['0', '1', '2', '3', '4', '5', '6', '7', '8', '9'][d]? = some c

/-- One or more digits denote a number. -/
inductive Denotes : List Char → Nat → Prop
  | digit {c : Char} {d : Nat} : IsDigitOf c d → Denotes [c] d
  | snoc {cs : List Char} {c : Char} {n d : Nat} :
      Denotes cs n → IsDigitOf c d → Denotes (cs ++ [c]) (10 * n + d)

theorem IsDigitOf.lt {c : Char} {d : Nat} (h : IsDigitOf c d) : d < 10 :=
  (List.getElem?_eq_some_iff.mp h).1

theorem isDigitOf_ofNat : ∀ d < 10, IsDigitOf (Char.ofNat (48 + d)) d := by
  unfold IsDigitOf
  decide

theorem isDigitOf_iff {c : Char} {d : Nat} :
    IsDigitOf c d ↔ c.isDigit = true ∧ value [c] = d := by
  constructor
  · intro h
    have hvalue : ∀ d < 10, (Char.ofNat (48 + d)).isDigit = true ∧
        value [Char.ofNat (48 + d)] = d := by decide
    have hc : c = Char.ofNat (48 + d) :=
      Option.some.inj (h.symm.trans (isDigitOf_ofNat d h.lt))
    rw [hc]
    exact hvalue d h.lt
  · rintro ⟨hdigit, rfl⟩
    have hc : value [c] = c.toNat - 48 := by
      show 10 * 0 + (c.toNat - 48) = c.toNat - 48
      omega
    have hle : 48 ≤ c.toNat := (Char.isDigit_iff_toNat.mp hdigit).1
    have hof : Char.ofNat (48 + value [c]) = c := by
      rw [hc, Nat.add_sub_cancel' hle, Char.ofNat_toNat]
    have h := isDigitOf_ofNat (value [c]) (value_singleton_lt hdigit)
    rwa [hof] at h

theorem value_concat (cs : List Char) (c : Char) : value (cs ++ [c]) = 10 * value cs + value [c] := by
  rw [value_append, List.length_singleton, Nat.pow_one, Nat.mul_comm]

theorem denotes_iff {cs : List Char} {n : Nat} :
    Denotes cs n ↔ (cs ≠ [] ∧ cs.all Char.isDigit = true) ∧ value cs = n := by
  constructor
  · intro h
    induction h with
    | digit hc =>
      obtain ⟨hdigit, rfl⟩ := isDigitOf_iff.mp hc
      simp [hdigit]
    | @snoc cs c n d _ hc ih =>
      obtain ⟨⟨-, hall⟩, rfl⟩ := ih
      obtain ⟨hdigit, rfl⟩ := isDigitOf_iff.mp hc
      simp only [value_concat, List.all_append, hall, List.all_cons, hdigit, List.all_nil]
      simp
  · rintro ⟨⟨hne, hall⟩, rfl⟩
    induction cs using List.reverseRecOn with
    | nil => exact absurd rfl hne
    | append_singleton cs c ih =>
      simp only [List.all_append, List.all_cons, List.all_nil, Bool.and_true,
        Bool.and_eq_true] at hall
      have hc : IsDigitOf c (value [c]) := isDigitOf_iff.mpr ⟨hall.2, rfl⟩
      by_cases hcs : cs = []
      · subst hcs
        exact .digit hc
      · rw [value_concat]
        exact .snoc (ih hcs hall.1) hc

theorem read?_eq_some_iff {cs : List Char} {n : Nat} : read? cs = some n ↔ Denotes cs n := by
  rw [denotes_iff, read?, Option.ite_none_right_eq_some, Option.some.injEq]

/-- **A number has a single text of each length.** -/
theorem Denotes.unique {as bs : List Char} {n : Nat} (ha : Denotes as n) (hb : Denotes bs n)
    (hlength : as.length = bs.length) : as = bs := by
  induction ha generalizing bs with
  | @digit c d hc =>
    cases hb with
    | digit hc' => rw [Option.some.inj (hc.symm.trans hc')]
    | @snoc cs _ _ _ hcs _ =>
      have hne : cs ≠ [] := (denotes_iff.mp hcs).1.1
      simp [hne] at hlength
  | @snoc as c n d has hc ih =>
    have hne : as ≠ [] := (denotes_iff.mp has).1.1
    generalize hm : 10 * n + d = m at hb
    cases hb with
    | digit _ => simp [hne] at hlength
    | @snoc bs c' n' d' hbs hc' =>
      -- digits are less than ten, so the last ones and the numbers before them agree
      have hd := hc.lt
      have hd' := hc'.lt
      obtain ⟨rfl, rfl⟩ : n = n' ∧ d = d' := by omega
      rw [ih hbs (by simpa using hlength), Option.some.inj (hc.symm.trans hc')]

/-- Digits are what their number is written with at their width. -/
theorem writePadded_eq_of_denotes {cs : List Char} {width n : Nat} (h : Denotes cs n)
    (hlength : cs.length = width) : writePadded width n = cs := by
  subst hlength
  have hlt : n < 10 ^ cs.length := lt_of_read? (read?_eq_some_iff.mpr h)
  have hpos : 0 < cs.length := List.length_pos_iff.mpr (denotes_iff.mp h).1.1
  exact (read?_eq_some_iff.mp (read?_writePadded cs.length n)).unique h
    (length_writePadded hpos hlt)

/-! ### Integers -/

/-- Digits with at most one sign before them denote an integer. -/
inductive DenotesSigned : List Char → Int → Prop
  | plain {cs : List Char} {n : Nat} : Denotes cs n → DenotesSigned cs n
  | plus {cs : List Char} {n : Nat} : Denotes cs n → DenotesSigned ('+' :: cs) n
  | minus {cs : List Char} {n : Nat} : Denotes cs n → DenotesSigned ('-' :: cs) (-n)

theorem readSigned?_eq_some_iff {cs : List Char} {n : Int} :
    readSigned? cs = some n ↔ DenotesSigned cs n := by
  -- the reader takes the natural number of the digits as an integer before it looks at the sign
  have hdigits {cs : List Char} {n : Int}
      (h : (read? cs >>= fun m => pure (m : Int)) = some n) : ∃ m : Nat, Denotes cs m ∧ m = n := by
    obtain ⟨m, hm, h⟩ := Option.bind_eq_some_iff.mp h
    exact ⟨m, read?_eq_some_iff.mp hm, Option.some.inj h⟩
  constructor
  · intro h
    unfold readSigned? at h
    split at h
    · obtain ⟨_, hm, rfl⟩ := Option.map_eq_some_iff.mp h
      obtain ⟨m, hdenotes, rfl⟩ := hdigits hm
      exact .minus hdenotes
    · obtain ⟨_, hm, rfl⟩ := Option.map_eq_some_iff.mp h
      obtain ⟨m, hdenotes, rfl⟩ := hdigits hm
      exact .plus hdenotes
    · obtain ⟨_, hm, rfl⟩ := Option.map_eq_some_iff.mp h
      obtain ⟨m, hdenotes, rfl⟩ := hdigits hm
      exact .plain hdenotes
  · intro h
    cases h with
    | plain hcs =>
      obtain ⟨hne, hall⟩ := (denotes_iff.mp hcs).1
      obtain ⟨c, rest, rfl, hdigit⟩ := exists_cons_of_all_isDigit hne hall
      rw [readSigned?_of_isDigit hdigit, read?_eq_some_iff.mpr hcs, Option.map_some]
    | plus hcs => rw [readSigned?_plus, read?_eq_some_iff.mpr hcs, Option.map_some]
    | minus hcs => rw [readSigned?_minus, read?_eq_some_iff.mpr hcs, Option.map_some]

theorem fits64_iff {n : Int} : Fits64 n ↔ -2 ^ 63 ≤ n ∧ n ≤ 2 ^ 63 - 1 := by
  unfold Fits64
  omega

theorem readInteger?_eq_some_iff {cs : List Char} {n : Int} :
    readInteger? cs = some n ↔ DenotesSigned cs n ∧ -2 ^ 63 ≤ n ∧ n ≤ 2 ^ 63 - 1 := by
  rw [readInteger?, Option.filter_eq_some_iff, readSigned?_eq_some_iff, decide_eq_true_iff,
    fits64_iff]

end Numeral

namespace Date

/-! ### Dates -/

/-- The days of the calendar. A year has a leap day if four divides it, unless it is a century which
four hundred does not divide. -/
inductive InCalendar (year : Int) : Nat → Nat → Prop
  | long {month day : Nat} : month ∈ [1, 3, 5, 7, 8, 10, 12] → 1 ≤ day → day ≤ 31 →
      InCalendar year month day
  | short {month day : Nat} : month ∈ [4, 6, 9, 11] → 1 ≤ day → day ≤ 30 →
      InCalendar year month day
  | february {day : Nat} : 1 ≤ day → day ≤ 28 → InCalendar year 2 day
  | leapDay : 4 ∣ year → (100 ∣ year → 400 ∣ year) → InCalendar year 2 29

theorem isLeapYear_iff {year : Int} :
    isLeapYear year = true ↔ 4 ∣ year ∧ (100 ∣ year → 400 ∣ year) := by
  simp only [isLeapYear, Bool.and_eq_true, Bool.or_eq_true, beq_iff_eq, bne_iff_ne]
  omega

theorem daysIn_of_long {year : Int} {month : Nat} (h : month ∈ [1, 3, 5, 7, 8, 10, 12]) :
    daysIn year month = 31 := by
  simp only [List.mem_cons, List.not_mem_nil, or_false] at h
  rcases h with rfl | rfl | rfl | rfl | rfl | rfl | rfl <;> rfl

theorem daysIn_of_short {year : Int} {month : Nat} (h : month ∈ [4, 6, 9, 11]) :
    daysIn year month = 30 := by
  simp only [List.mem_cons, List.not_mem_nil, or_false] at h
  rcases h with rfl | rfl | rfl | rfl <;> rfl

theorem month_cases {month : Nat} (h : 1 ≤ month) (h' : month ≤ 12) :
    month ∈ [1, 3, 5, 7, 8, 10, 12] ∨ month ∈ [4, 6, 9, 11] ∨ month = 2 := by
  simp only [List.mem_cons, List.not_mem_nil, or_false]
  omega

theorem isDay_iff {year : Int} {month day : Nat} :
    IsDay year month day ↔ InCalendar year month day := by
  constructor
  · rintro ⟨hmonth, hmonth', hday, hday'⟩
    rcases month_cases hmonth hmonth' with hlong | hshort | rfl
    · exact .long hlong hday (daysIn_of_long hlong ▸ hday')
    · exact .short hshort hday (daysIn_of_short hshort ▸ hday')
    · change day ≤ if isLeapYear year then 29 else 28 at hday'
      by_cases h : day ≤ 28
      · exact .february hday h
      · split at hday'
        · next hleap =>
          obtain rfl : day = 29 := by omega
          exact .leapDay (isLeapYear_iff.mp hleap).1 (isLeapYear_iff.mp hleap).2
        · exact absurd hday' h
  · intro h
    cases h with
    | long hlong hday hday' =>
      rw [IsDay, daysIn_of_long hlong]
      simp only [List.mem_cons, List.not_mem_nil, or_false] at hlong
      omega
    | short hshort hday hday' =>
      rw [IsDay, daysIn_of_short hshort]
      simp only [List.mem_cons, List.not_mem_nil, or_false] at hshort
      omega
    | february hday hday' =>
      refine ⟨by decide, by decide, hday, hday'.trans ?_⟩
      show 28 ≤ if isLeapYear year then 29 else 28
      split <;> decide
    | leapDay hfour hcentury =>
      refine ⟨by decide, by decide, by decide, ?_⟩
      show 29 ≤ if isLeapYear year then 29 else 28
      rw [if_pos (isLeapYear_iff.mpr ⟨hfour, hcentury⟩)]

/-- Four digits, two and two with dashes between them denote a year, a month and a day. -/
inductive Denotes : List Char → Nat → Nat → Nat → Prop
  | mk {ys ms ds : List Char} {year month day : Nat} :
      ys.length = 4 → Numeral.Denotes ys year → ms.length = 2 → Numeral.Denotes ms month →
      ds.length = 2 → Numeral.Denotes ds day →
      Denotes (ys ++ '-' :: ms ++ '-' :: ds) year month day

theorem of?_eq_some_iff {year : Int} {month day : Nat} {d : Date} :
    of? year month day = some d ↔ year = d.year ∧ month = d.month ∧ day = d.day := by
  constructor
  · intro h
    unfold of? at h
    split at h
    · cases h
      exact ⟨rfl, rfl, rfl⟩
    · cases h
  · rintro ⟨rfl, rfl, rfl⟩
    exact of?_eq_some d

theorem read?_eq_some_iff {cs : List Char} {d : Date} :
    read? cs = some d ↔ ∃ year : Nat, d.year = year ∧ Denotes cs year d.month d.day := by
  constructor
  · intro h
    unfold read? at h
    split at h
    · next y₁ y₂ y₃ y₄ m₁ m₂ d₁ d₂ =>
      obtain ⟨year, hyear, h⟩ := Option.bind_eq_some_iff.mp h
      obtain ⟨month, hmonth, h⟩ := Option.bind_eq_some_iff.mp h
      obtain ⟨day, hday, h⟩ := Option.bind_eq_some_iff.mp h
      obtain ⟨hy, rfl, rfl⟩ := of?_eq_some_iff.mp h
      have hdenotes : Denotes ([y₁, y₂, y₃, y₄] ++ '-' :: [m₁, m₂] ++ '-' :: [d₁, d₂])
          year d.month d.day :=
        .mk rfl (Numeral.read?_eq_some_iff.mp hyear) rfl (Numeral.read?_eq_some_iff.mp hmonth)
          rfl (Numeral.read?_eq_some_iff.mp hday)
      exact ⟨year, hy.symm, hdenotes⟩
    · cases h
  · rintro ⟨year, hyear, h⟩
    generalize hm : d.month = month at h
    generalize hd : d.day = day at h
    obtain ⟨hys, hy, hms, hm', hds, hd'⟩ := h
    rw [read?_append hys hms hds, Numeral.read?_eq_some_iff.mpr hy,
      Numeral.read?_eq_some_iff.mpr hm', Numeral.read?_eq_some_iff.mpr hd']
    exact of?_eq_some_iff.mpr ⟨hyear.symm, hm.symm, hd.symm⟩

theorem exists_read?_iff {cs : List Char} :
    (∃ d, read? cs = some d) ↔ ∃ year month day : Nat,
      Denotes cs year month day ∧ InCalendar year month day := by
  constructor
  · rintro ⟨d, h⟩
    obtain ⟨year, hyear, hdenotes⟩ := read?_eq_some_iff.mp h
    exact ⟨year, d.month, d.day, hdenotes, hyear ▸ isDay_iff.mp d.valid⟩
  · rintro ⟨year, month, day, hdenotes, hday⟩
    exact ⟨⟨year, month, day, isDay_iff.mpr hday⟩, read?_eq_some_iff.mpr ⟨year, rfl, hdenotes⟩⟩

/-- **A date is written as it was read.** -/
theorem write_eq_of_read? {cs : List Char} {d : Date} (h : read? cs = some d) : d.write = cs := by
  obtain ⟨year, hyear, hdenotes⟩ := read?_eq_some_iff.mp h
  rw [write, hyear, if_neg (by omega), Int.natAbs_natCast, List.nil_append]
  generalize d.month = month at hdenotes
  generalize d.day = day at hdenotes
  obtain ⟨hys, hy, hms, hm, hds, hd⟩ := hdenotes
  rw [Numeral.writePadded_eq_of_denotes hy hys, Numeral.writePadded_eq_of_denotes hm hms,
    Numeral.writePadded_eq_of_denotes hd hds]

end Date

namespace ValueType

/-! ### Literals -/

section Numeric

variable {type : ValueType} (htype : type = .integer ∨ type = .identifier true)
include htype

theorem coerce_numeric_eq_ok_iff {literal : String} {v : Value} :
    type.coerce literal = .ok v ↔ ∃ n : Int, v = .integer n ∧
      Numeral.DenotesSigned literal.toList n ∧ -2 ^ 63 ≤ n ∧ n ≤ 2 ^ 63 - 1 := by
  have hread : type.read? literal = (Numeral.readInteger? literal.toList).map .integer := by
    rcases htype with rfl | rfl <;> rfl
  rw [coerce_eq_ok_iff, hread, Option.map_eq_some_iff]
  refine exists_congr fun n => ?_
  rw [Numeral.readInteger?_eq_some_iff, and_comm, eq_comm]

theorem coerce_numeric_eq_error_iff {literal : String} {f : QueryFault} :
    type.coerce literal = .error f ↔ f = .coercion literal type.kind ∧ ¬ ∃ n : Int,
      Numeral.DenotesSigned literal.toList n ∧ -2 ^ 63 ≤ n ∧ n ≤ 2 ^ 63 - 1 := by
  have hvalue : (∃ v, type.coerce literal = .ok v) ↔ ∃ n : Int,
      Numeral.DenotesSigned literal.toList n ∧ -2 ^ 63 ≤ n ∧ n ≤ 2 ^ 63 - 1 := by
    simp [coerce_numeric_eq_ok_iff htype]
  rw [coerce_eq_error_iff, hvalue]

theorem coerce_numeric_display {n : Int} (hmin : -2 ^ 63 ≤ n) (hmax : n ≤ 2 ^ 63 - 1) :
    type.coerce (Value.integer n).display = .ok (.integer n) := by
  have hfits : Numeral.Fits64 n := Numeral.fits64_iff.mpr ⟨hmin, hmax⟩
  rw [coerce_eq_ok_iff]
  rcases htype with rfl | rfl
  · exact read?_display (.integer hfits)
  · exact read?_display (.number hfits)

end Numeric

theorem coerce_date_eq_ok_iff {literal : String} {v : Value} :
    date.coerce literal = .ok v ↔ ∃ d : Date, v = .date d ∧ Date.read? literal.toList = some d := by
  rw [coerce_eq_ok_iff]
  show (Date.read? literal.toList).map .date = some v ↔ _
  rw [Option.map_eq_some_iff]
  refine exists_congr fun d => ?_
  rw [and_comm, eq_comm]

theorem coerce_date_eq_error_iff {literal : String} {f : QueryFault} :
    date.coerce literal = .error f ↔ f = .coercion literal .date ∧
      ¬ ∃ year month day : Nat, Date.Denotes literal.toList year month day ∧
        Date.InCalendar year month day := by
  have hvalue : (∃ v, date.coerce literal = .ok v) ↔
      ∃ d, Date.read? literal.toList = some d := by
    simp [coerce_date_eq_ok_iff]
  rw [coerce_eq_error_iff, hvalue, Date.exists_read?_iff]
  rfl

theorem display_of_coerce_date {literal : String} {d : Date}
    (h : date.coerce literal = .ok (.date d)) : (Value.date d).display = literal := by
  obtain ⟨d', hd', hread⟩ := coerce_date_eq_ok_iff.mp h
  cases hd'
  show String.ofList d.write = literal
  rw [Date.write_eq_of_read? hread, String.ofList_toList]

/-- **Integers and dates are read exactly as their grammars say.** An integer type accepts the
integers which have digits with at most one sign before them and lie in the range of 64 bits. The
type of dates accepts ten characters which denote a day of the calendar, and such a text is the text
of the day. Every other literal is refused with the kind of the type. In the other direction every
integer in the range and every date with a year of four digits is read from its text. -/
theorem coerce_exact :
    (∀ type : ValueType, type = .integer ∨ type = .identifier true →
      (∀ literal v, type.coerce literal = .ok v ↔ ∃ n : Int, v = .integer n ∧
        Numeral.DenotesSigned literal.toList n ∧ -2 ^ 63 ≤ n ∧ n ≤ 2 ^ 63 - 1) ∧
      (∀ literal f, type.coerce literal = .error f ↔ f = .coercion literal type.kind ∧
        ¬ ∃ n : Int, Numeral.DenotesSigned literal.toList n ∧ -2 ^ 63 ≤ n ∧ n ≤ 2 ^ 63 - 1) ∧
      ∀ n : Int, -2 ^ 63 ≤ n → n ≤ 2 ^ 63 - 1 →
        type.coerce (Value.integer n).display = .ok (.integer n)) ∧
    (∀ literal v, date.coerce literal = .ok v ↔ ∃ (d : Date) (year : Nat), v = .date d ∧
      d.year = year ∧ Date.Denotes literal.toList year d.month d.day) ∧
    (∀ literal f, date.coerce literal = .error f ↔ f = .coercion literal .date ∧
      ¬ ∃ year month day : Nat, Date.Denotes literal.toList year month day ∧
        Date.InCalendar year month day) ∧
    (∀ d : Date, Date.InCalendar d.year d.month d.day) ∧
    (∀ literal d, date.coerce literal = .ok (.date d) → (Value.date d).display = literal) ∧
    ∀ d : Date, 0 ≤ d.year → d.year ≤ 9999 →
      date.coerce (Value.date d).display = .ok (.date d) := by
  refine ⟨fun type htype => ⟨fun _ _ => coerce_numeric_eq_ok_iff htype,
    fun _ _ => coerce_numeric_eq_error_iff htype,
    fun n hmin hmax => coerce_numeric_display htype hmin hmax⟩, fun literal v => ?_,
    fun _ _ => coerce_date_eq_error_iff, fun d => Date.isDay_iff.mp d.valid,
    fun _ _ h => display_of_coerce_date h,
    fun d h₀ h₁ => coerce_eq_ok_iff.mpr (read?_display (.date h₀ h₁))⟩
  rw [coerce_date_eq_ok_iff]
  simp only [Date.read?_eq_some_iff, exists_and_left]

/-- The law at a numeral with zeros and a sign, at the two ends of the range and just above it, and
at the leap days of two centuries. -/
theorem coerce_exact_edges :
    let leapDay : Date := ⟨2000, 2, 29, by decide⟩
    (ValueType.integer = .integer ∨ ValueType.integer = .identifier true) ∧
    (integer.coerce "+007" = .ok (.integer 7) ∧ Numeral.DenotesSigned "+007".toList 7) ∧
    (-2 ^ 63 ≤ (-2 ^ 63 : Int) ∧ (-2 ^ 63 : Int) ≤ 2 ^ 63 - 1 ∧
      integer.coerce (Value.integer (-2 ^ 63)).display = .ok (.integer (-2 ^ 63))) ∧
    ((identifier true).coerce "9223372036854775808" =
        .error (.coercion "9223372036854775808" .identifier) ∧
      ¬ ∃ n : Int, Numeral.DenotesSigned "9223372036854775808".toList n ∧
        -2 ^ 63 ≤ n ∧ n ≤ 2 ^ 63 - 1) ∧
    (date.coerce "2000-02-29" = .ok (.date leapDay) ∧
      (Value.date leapDay).display = "2000-02-29") ∧
    (0 ≤ leapDay.year ∧ leapDay.year ≤ 9999 ∧
      date.coerce (Value.date leapDay).display = .ok (.date leapDay)) ∧
    (date.coerce "1900-02-29" = .error (.coercion "1900-02-29" .date) ∧
      ¬ ∃ year month day : Nat, Date.Denotes "1900-02-29".toList year month day ∧
        Date.InCalendar year month day) := by
  intro leapDay
  obtain ⟨hnumeric, -, hfault, -, hdisplay, hread⟩ := coerce_exact
  obtain ⟨hinteger, -, hintegers⟩ := hnumeric .integer (Or.inl rfl)
  obtain ⟨-, hrefused, -⟩ := hnumeric (.identifier true) (Or.inr rfl)
  have hseven : integer.coerce "+007" = .ok (.integer 7) := rfl
  have hwide : (identifier true).coerce "9223372036854775808" =
      .error (.coercion "9223372036854775808" .identifier) := rfl
  have hleap : date.coerce "2000-02-29" = .ok (.date leapDay) := rfl
  have hcommon : date.coerce "1900-02-29" = .error (.coercion "1900-02-29" .date) := rfl
  have hmin : (-2 ^ 63 : Int) ≤ 2 ^ 63 - 1 := by omega
  refine ⟨Or.inl rfl, ⟨hseven, ?_⟩, ⟨le_rfl, hmin, hintegers _ le_rfl hmin⟩,
    ⟨hwide, ((hrefused _ _).mp hwide).2⟩, ⟨hleap, hdisplay _ _ hleap⟩,
    ⟨by decide, by decide, hread leapDay (by decide) (by decide)⟩,
    ⟨hcommon, ((hfault _ _).mp hcommon).2⟩⟩
  obtain ⟨n, hn, hdenotes, -⟩ := (hinteger _ _).mp hseven
  cases hn
  exact hdenotes

end ValueType

end QueryFilter
