import Mathlib.Algebra.Order.Ring.Nat
import Mathlib.Data.List.TakeWhile
import Mathlib.Tactic.Ring
import QueryFilter.Binary64.Layout
import QueryFilter.Proofs.Numeral

/-!
# Doubles read back from their texts

The text of a double reads back as the same double, whatever its layout
(`Binary64.readFinite?_write`). The proof has three parts. Rounding fixes what it can represent
(`Binary64.nearest_of_eq`), so the exact decimal of a double is nearest to it
(`Binary64.Finite.nearest_exact`); the shortest decimal is either one which was tried by reading it
back or the exact one (`Binary64.Finite.nearest_shortest`); and a layout writes digits which are
read as the decimal they stand for (`Layout.exists_writeDecimal_eq`).
-/

namespace QueryFilter

/-! ### Rounding -/

namespace Binary64

theorem roundDiv_mul (q : Nat) {den : Nat} (h : 0 < den) : roundDiv (q * den) den = q := by
  rw [roundDiv, Nat.mul_div_cancel q h, Nat.mul_mod_left]
  exact if_pos (by omega)

theorem log2_significand_mul {s : Nat} (h₀ : leadingBit ≤ s) (h₁ : s < 2 * leadingBit) (e : Nat) :
    Nat.log2 (s * 2 ^ e) = 52 + e := by
  have hpos : 0 < 2 ^ e := Nat.two_pow_pos e
  rw [Nat.log2_eq_iff (Nat.mul_ne_zero (by omega) hpos.ne')]
  constructor
  · rw [Nat.pow_add]
    exact Nat.mul_le_mul_right _ h₀
  · rw [show 52 + e + 1 = 53 + e by omega, Nat.pow_add]
    exact Nat.mul_lt_mul_of_pos_right h₁ hpos

/-- **Rounding fixes what it can represent.** -/
theorem roundUnits_exact {s e den : Nat} (h : Canonical s e) (hden : 0 < den) :
    roundUnits (s * 2 ^ e * den) den = (s, e) := by
  obtain ⟨hs, -, he⟩ := h
  have hexponent : (if s * 2 ^ e < 2 * leadingBit then 0 else Nat.log2 (s * 2 ^ e) - 52) = e := by
    rcases he with rfl | he
    · rw [Nat.pow_zero, Nat.mul_one, if_pos hs]
    · cases e with
      | zero => rw [Nat.pow_zero, Nat.mul_one, if_pos hs]
      | succ e =>
        have hle : 2 * leadingBit ≤ s * 2 ^ (e + 1) :=
          calc 2 * leadingBit ≤ 2 * s := Nat.mul_le_mul_left 2 he
            _ = s * 2 := Nat.mul_comm 2 s
            _ ≤ s * 2 ^ (e + 1) := Nat.mul_le_mul_left s (Nat.le_self_pow (by omega) 2)
        rw [if_neg (by omega), log2_significand_mul he hs]
        omega
  have hsignificand : roundDiv (s * 2 ^ e * den) (den <<< e) = s := by
    rw [Nat.shiftLeft_eq, Nat.mul_assoc, Nat.mul_comm (2 ^ e) den]
    exact roundDiv_mul s (Nat.mul_pos hden (Nat.two_pow_pos e))
  unfold roundUnits
  simp only [Nat.mul_div_cancel _ hden, hexponent, hsignificand]
  exact if_neg (by omega)

theorem nearest_of_eq {x : Finite} {num den : Nat} (hden : 0 < den)
    (h : num <<< 1074 = x.significand * 2 ^ x.exponent * den) :
    nearest x.negative num den = finite x := by
  have hunits : roundUnits (num <<< 1074) den = (x.significand, x.exponent) := by
    rw [h, roundUnits_exact x.canonical hden]
  unfold nearest
  rw [hunits]
  exact dif_pos x.canonical

theorem roundDiv_mul_right (num den : Nat) {k : Nat} (hk : 0 < k) :
    roundDiv (num * k) (den * k) = roundDiv num den := by
  have hlt (a b : Nat) : 2 * (a * k) < b * k ↔ 2 * a < b := by
    rw [← Nat.mul_assoc]
    exact Nat.mul_lt_mul_right hk
  have hgt (a b : Nat) : b * k < 2 * (a * k) ↔ b < 2 * a := by
    rw [← Nat.mul_assoc]
    exact Nat.mul_lt_mul_right hk
  unfold roundDiv
  simp only [Nat.mul_div_mul_right _ _ hk, Nat.mul_mod_mul_right, hlt, hgt]

/-- Rounding does not see by what a fraction was expanded. -/
theorem nearest_mul_right (negative : Bool) (num den : Nat) {k : Nat} (hk : 0 < k) :
    nearest negative (num * k) (den * k) = nearest negative num den := by
  have hnum : (num * k) <<< 1074 = num <<< 1074 * k := by
    rw [Nat.shiftLeft_eq, Nat.shiftLeft_eq, Nat.mul_right_comm]
  have hden (e : Nat) : (den * k) <<< e = den <<< e * k := by
    rw [Nat.shiftLeft_eq, Nat.shiftLeft_eq, Nat.mul_right_comm]
  have hunits : roundUnits ((num * k) <<< 1074) (den * k) = roundUnits (num <<< 1074) den := by
    unfold roundUnits
    simp only [hnum, hden, Nat.mul_div_mul_right _ _ hk, roundDiv_mul_right _ _ hk]
  unfold nearest
  rw [hunits]

end Binary64

/-! ### Decimals -/

namespace Numeral

theorem length_write_pos (n : Nat) : 0 < (write n).length :=
  List.length_pos_iff.mpr (write_ne_nil n)

theorem length_write_le_iff {n k : Nat} (hk : 0 < k) : (write n).length ≤ k ↔ n < 10 ^ k :=
  Nat.length_toDigits_le_iff (by decide) hk

theorem write_mul_ten {n : Nat} (hn : 0 < n) : write (n * 10) = write n ++ ['0'] := by
  have h := Nat.toDigits_append_toDigits (b := 10) (d := 0) (by decide) hn (by decide)
  rw [Nat.toDigits_zero, Nat.add_zero, Nat.mul_comm] at h
  exact h.symm

theorem length_write_mul_pow {n : Nat} (hn : 0 < n) (k : Nat) :
    (write (n * 10 ^ k)).length = (write n).length + k := by
  induction k with
  | zero => rw [Nat.pow_zero, Nat.mul_one, Nat.add_zero]
  | succ k ih =>
    rw [Nat.pow_succ, ← Nat.mul_assoc,
      write_mul_ten (Nat.mul_pos hn (Nat.pow_pos (by decide))), List.length_append, ih]
    rfl

end Numeral

namespace Decimal

/-- Inside the range the nearest double is that of a fraction. -/
theorem nearest_of_lt {d : Decimal} (hc : d.coefficient ≠ 0)
    (h₀ : -330 ≤ ((Numeral.write d.coefficient).length : Int) + d.exponent)
    (h₁ : ((Numeral.write d.coefficient).length : Int) + d.exponent ≤ 310) :
    d.nearest = if 0 ≤ d.exponent then
      Binary64.nearest d.negative (d.coefficient * Nat.pow 10 d.exponent.toNat) 1
    else Binary64.nearest d.negative d.coefficient (Nat.pow 10 (-d.exponent).toNat) := by
  unfold nearest
  simp only
  rw [if_neg (by omega), if_neg (by omega)]

/-- Writing out the zeros of a whole number does not change it. -/
theorem nearest_mul_pow (negative : Bool) (c k : Nat) :
    nearest ⟨negative, c * 10 ^ k, 0⟩ = nearest ⟨negative, c, k⟩ := by
  rcases Nat.eq_zero_or_pos c with rfl | hc
  · simp [nearest]
  · have hne : c * 10 ^ k ≠ 0 := Nat.mul_ne_zero hc.ne' (Nat.pow_pos (by decide)).ne'
    unfold nearest
    simp only [Numeral.length_write_mul_pow hc k, hne, hc.ne', Nat.cast_add, Int.add_zero, false_or]
    split
    · rfl
    · split
      · rfl
      · rw [if_pos (Int.le_refl 0), if_pos (Int.natCast_nonneg k)]
        simp

/-- Neither does a zero behind the point. -/
theorem nearest_mul_ten (negative : Bool) (c : Nat) :
    nearest ⟨negative, c * 10, -1⟩ = nearest ⟨negative, c, 0⟩ := by
  rcases Nat.eq_zero_or_pos c with rfl | hc
  · simp [nearest]
  · have hne : c * 10 ≠ 0 := Nat.mul_ne_zero hc.ne' (by decide)
    have hlength : ((Numeral.write (c * 10)).length : Int) + -1 = (Numeral.write c).length + 0 := by
      rw [Numeral.write_mul_ten hc, List.length_append, List.length_singleton]
      omega
    have hfraction : Binary64.nearest negative (c * 10) 10 = Binary64.nearest negative c 1 :=
      Binary64.nearest_mul_right negative c 1 (by decide)
    unfold nearest
    simp only [hlength, hne, hc.ne', false_or]
    split
    · rfl
    · split
      · rfl
      · simpa using hfraction

end Decimal

namespace Binary64.Finite

theorem eq_zero_of_significand {x : Finite} (h : x.significand = 0) : x = zero x.negative := by
  obtain ⟨negative, s, e, hcanonical⟩ := x
  obtain rfl : s = 0 := h
  obtain rfl : e = 0 := hcanonical.2.2.resolve_right (by decide)
  rfl

/-- A double without a fraction is nearest to itself, written as a whole number. -/
theorem nearest_whole {x : Finite} {k : Nat} (h : x.significand ≠ 0) (hk : x.exponent = 1074 + k) :
    Decimal.nearest ⟨x.negative, x.significand * 2 ^ k, 0⟩ = .finite x := by
  obtain ⟨hs, he, -⟩ := x.canonical
  have hlt : x.significand * 2 ^ k < 10 ^ 310 :=
    calc x.significand * 2 ^ k < 2 * leadingBit * 2 ^ k :=
          Nat.mul_lt_mul_of_pos_right hs (Nat.two_pow_pos k)
      _ ≤ 2 * leadingBit * 2 ^ 971 :=
          Nat.mul_le_mul_left _ (Nat.pow_le_pow_right (by decide) (by omega))
      _ ≤ 10 ^ 310 := by decide +kernel
  have hlength := (Numeral.length_write_le_iff (by decide)).mpr hlt
  rw [Decimal.nearest_of_lt (Nat.mul_ne_zero h (Nat.two_pow_pos k).ne')
    (by simp only; omega) (by simp only; omega)]
  have hshift (n : Nat) : (x.significand * 2 ^ k * 1) <<< n = x.significand * 2 ^ (n + k) * 1 := by
    rw [Nat.shiftLeft_eq, Nat.pow_add]
    ring
  refine (if_pos (Int.le_refl 0)).trans (nearest_of_eq Nat.one_pos ?_)
  rw [hk]
  exact hshift 1074

/-- A double with `k` binary places is nearest to itself, written with `k` decimal places. -/
theorem nearest_fraction {x : Finite} {k : Nat} (h : x.significand ≠ 0) (hk : 0 < k)
    (hexponent : 1074 = x.exponent + k) :
    Decimal.nearest ⟨x.negative, x.significand * 5 ^ k, -(k : Int)⟩ = .finite x := by
  have hs := x.canonical.1
  have hne : x.significand * 5 ^ k ≠ 0 := Nat.mul_ne_zero h (Nat.pow_pos (by decide)).ne'
  have hupper : (Numeral.write (x.significand * 5 ^ k)).length ≤ 16 + k := by
    rw [Numeral.length_write_le_iff (by omega), Nat.pow_add]
    have hsignificand : x.significand < 10 ^ 16 := Nat.lt_trans hs (by decide)
    exact Nat.mul_lt_mul_of_lt_of_le hsignificand (Nat.pow_le_pow_left (by decide) k)
      (Nat.pow_pos (by decide))
  have hlower : k ≤ (Numeral.write (x.significand * 5 ^ k)).length + 330 := by
    by_contra hlt
    obtain ⟨j, hj⟩ : ∃ j, k = 331 + j := ⟨k - 331, by omega⟩
    have hpos := Numeral.length_write_pos (x.significand * 5 ^ k)
    have hle : x.significand * 5 ^ k < 10 ^ j :=
      (Numeral.length_write_le_iff (by omega)).mp (by omega)
    -- five to the power of 331 makes up for the missing powers of two
    have hpow : 2 ^ j ≤ 5 ^ 331 :=
      Nat.le_trans (Nat.pow_le_pow_right (by decide) (show j ≤ 743 by omega)) (by decide +kernel)
    have hge : 10 ^ j ≤ x.significand * 5 ^ k :=
      calc 10 ^ j = 2 ^ j * 5 ^ j := by rw [← Nat.mul_pow]
        _ ≤ 5 ^ 331 * 5 ^ j := Nat.mul_le_mul_right (5 ^ j) hpow
        _ = 5 ^ k := by rw [hj, Nat.pow_add]
        _ ≤ x.significand * 5 ^ k := Nat.le_mul_of_pos_left _ (Nat.pos_of_ne_zero h)
    omega
  rw [Decimal.nearest_of_lt hne (by simp only; omega) (by simp only; omega)]
  refine (if_neg (by simp only; omega)).trans ?_
  show nearest x.negative (x.significand * 5 ^ k) (10 ^ (- -(k : Int)).toNat) = _
  rw [Int.neg_neg, Int.toNat_natCast]
  refine nearest_of_eq (Nat.pow_pos (by decide)) ?_
  rw [hexponent, Nat.shiftLeft_eq, Nat.pow_add, show 10 = 2 * 5 from rfl, Nat.mul_pow]
  ring

/-- **The exact decimal of a double is nearest to it.** -/
theorem nearest_exact {x : Finite} (h : x.significand ≠ 0) : x.exact.nearest = .finite x := by
  unfold exact
  split
  · rw [Nat.shiftLeft_eq]
    exact nearest_whole h (by omega)
  · exact nearest_fraction h (by omega) (by omega)

theorem nearest_neighbour? {x : Finite} {tie : Tie} {count : Nat} {d : Decimal}
    (h : x.neighbour? tie count = some d) : d.nearest = .finite x := by
  have hreads : x.reads d = true := List.find?_some h
  exact of_decide_eq_true hreads

/-- **The shortest decimal of a double is nearest to it.** -/
theorem nearest_shortest (x : Finite) (tie : Tie) : (x.shortest tie).nearest = .finite x := by
  unfold shortest
  split
  · next h =>
    rw [eq_zero_of_significand h]
    rfl
  · next h =>
    cases hfirst : (List.range 17).findSome? fun i => x.neighbour? tie (i + 1) with
    | none => exact nearest_exact h
    | some d =>
      obtain ⟨i, -, hi⟩ := List.exists_of_findSome?_eq_some hfirst
      exact nearest_neighbour? hi

end Binary64.Finite

/-! ### Layouts -/

namespace Decimal

theorem takeSign_signed (negative : Bool) {body : List Char}
    (h : ∃ c cs, body = c :: cs ∧ c.isDigit = true) :
    takeSign (if negative then '-' :: body else body) = (negative, body) := by
  obtain ⟨c, cs, rfl, hc⟩ := h
  cases negative with
  | true => rfl
  | false =>
    show takeSign (c :: cs) = (false, c :: cs)
    unfold takeSign
    split
    · next heq => cases heq; exact absurd hc (by decide)
    · next heq => cases heq; exact absurd hc (by decide)
    · rfl

/-- Where no digit stands, there is none to drop. -/
theorem dropWhile_of_stops {cs : List Char} (h : cs.takeWhile Char.isDigit = []) :
    cs.dropWhile Char.isDigit = cs :=
  List.dropWhile_eq_self_iff.mpr (List.takeWhile_eq_nil_iff.mp h)

/-- A text `whole ++ rest` of digits: those before the point, and then perhaps the point with those
behind it, and perhaps an exponent. -/
structure Parts (whole rest fraction : List Char) (power : Int) : Prop where
  ne_nil : whole ≠ []
  all_isDigit : whole.all Char.isDigit = true
  stops : rest.takeWhile Char.isDigit = []
  fraction_eq : (takeFraction rest).1 = fraction
  power_eq : readExponent? (takeFraction rest).2 = some power

theorem Parts.exists_eq_cons {whole rest fraction : List Char} {power : Int}
    (h : Parts whole rest fraction power) :
    ∃ c cs, whole ++ rest = c :: cs ∧ c.isDigit = true := by
  obtain ⟨c, cs, rfl⟩ := List.exists_cons_of_ne_nil h.ne_nil
  exact ⟨c, cs ++ rest, rfl, List.all_eq_true.mp h.all_isDigit c List.mem_cons_self⟩

theorem Parts.read?_signed {whole rest fraction : List Char} {power : Int}
    (h : Parts whole rest fraction power) (negative : Bool) :
    read? (if negative then '-' :: (whole ++ rest) else whole ++ rest) =
      some ⟨negative, Numeral.value (whole ++ fraction), power - fraction.length⟩ := by
  have hwhole := List.all_eq_true.mp h.all_isDigit
  have hdrop : rest.dropWhile Char.isDigit = rest := dropWhile_of_stops h.stops
  rw [read?, takeSign_signed negative h.exists_eq_cons]
  simp only [List.takeWhile_append_of_pos hwhole, List.dropWhile_append_of_pos hwhole, h.stops,
    hdrop, h.fraction_eq, h.power_eq, List.append_nil]
  rw [if_neg (List.append_ne_nil_of_left_ne_nil h.ne_nil fraction)]
  rfl

end Decimal

namespace Layout

/-- The point parts the digits of a coefficient, with zeros in front of them if need be. -/
theorem exists_setPoint_eq {digits : List Char} (h : digits.all Char.isDigit = true)
    (places : Nat) : ∃ whole fraction, setPoint digits places = whole ++ '.' :: fraction ∧
      whole ≠ [] ∧ (whole ++ fraction).all Char.isDigit = true ∧ fraction.length = places ∧
      Numeral.value (whole ++ fraction) = Numeral.value digits := by
  unfold setPoint
  split
  · next hlt =>
    refine ⟨_, _, rfl, List.ne_nil_of_length_pos ?_, ?_, ?_, ?_⟩
    · rw [List.length_take]; omega
    · rwa [List.take_append_drop]
    · rw [List.length_drop]; omega
    · rw [List.take_append_drop]
  · next hge =>
    refine ⟨['0'], List.replicate (places - digits.length) '0' ++ digits, rfl,
      List.cons_ne_nil _ _, ?_, ?_, ?_⟩
    · rw [List.all_append, List.all_append, h, List.all_replicate]
      split <;> decide
    · rw [List.length_append, List.length_replicate]; omega
    · rw [← List.append_assoc]
      exact Numeral.value_zeros_append (places - digits.length + 1) digits

/-- The point and the digits behind it are taken up to where no digit stands. -/
theorem takeFraction_point {fraction : List Char} (h : fraction.all Char.isDigit = true)
    {tail : List Char} (htail : tail.takeWhile Char.isDigit = []) :
    Decimal.takeFraction ('.' :: fraction ++ tail) = (fraction, tail) := by
  have hfraction := List.all_eq_true.mp h
  have hdrop : tail.dropWhile Char.isDigit = tail := Decimal.dropWhile_of_stops htail
  rw [List.cons_append, Decimal.takeFraction, List.takeWhile_append_of_pos hfraction,
    List.dropWhile_append_of_pos hfraction, htail, hdrop, List.append_nil]

/-- **A magnitude without an exponent is written as digits which stand for it**, with the zeros of a
whole number written out. -/
theorem exists_writePositional_eq (layout : Layout) (c : Nat) (e : Int) : ∃ whole rest fraction,
    layout.writePositional c e = whole ++ rest ∧ Decimal.Parts whole rest fraction 0 ∧
      ∀ negative, Decimal.nearest
        ⟨negative, Numeral.value (whole ++ fraction), 0 - (fraction.length : Int)⟩ =
          Decimal.nearest ⟨negative, c, e⟩ := by
  rw [writePositional]
  by_cases he : 0 ≤ e
  · obtain ⟨k, rfl⟩ := Int.eq_ofNat_of_zero_le he
    rw [if_pos he]
    have hne : Numeral.write c ++ List.replicate k '0' ≠ [] :=
      List.append_ne_nil_of_left_ne_nil (Numeral.write_ne_nil c) _
    have hall : (Numeral.write c ++ List.replicate k '0').all Char.isDigit = true := by
      rw [List.all_append, Numeral.all_isDigit_write, Bool.true_and, List.all_replicate]
      split <;> decide
    have hvalue : Numeral.value (Numeral.write c ++ List.replicate k '0') = c * 10 ^ k := by
      rw [Numeral.value_append_zeros, Numeral.value_write]
    cases layout.wholeFraction with
    | true =>
      refine ⟨_, ['.', '0'], ['0'], rfl, ⟨hne, hall, rfl, rfl, rfl⟩, fun negative => ?_⟩
      have hten : Numeral.value (Numeral.write c ++ List.replicate k '0' ++ ['0']) =
          c * 10 ^ k * 10 := by
        rw [Numeral.value_append, hvalue]
        rfl
      exact hten ▸ (Decimal.nearest_mul_ten negative _).trans (Decimal.nearest_mul_pow negative c k)
    | false =>
      refine ⟨_, [], [], rfl, ⟨hne, hall, rfl, rfl, rfl⟩, fun negative => ?_⟩
      rw [List.append_nil]
      exact hvalue ▸ Decimal.nearest_mul_pow negative c k
  · rw [if_neg he]
    obtain ⟨whole, fraction, hpoint, hne, hall, hlength, hvalue⟩ :=
      exists_setPoint_eq (Numeral.all_isDigit_write c) (-e).toNat
    rw [List.all_append, Bool.and_eq_true] at hall
    have hnil : ([] : List Char).takeWhile Char.isDigit = [] := rfl
    have htake : Decimal.takeFraction ('.' :: fraction) = (fraction, []) := by
      simpa using takeFraction_point hall.2 hnil
    refine ⟨whole, '.' :: fraction, fraction, hpoint, ⟨hne, hall.1, rfl, ?_, ?_⟩,
      fun negative => ?_⟩
    · rw [htake]
    · rw [htake]
      rfl
    · rw [hvalue, Numeral.value_write, hlength, show 0 - ((-e).toNat : Int) = e by omega]

/-- **A magnitude with an exponent is written as digits which stand for it.** -/
theorem exists_writeScientific_eq (c : Nat) (e : Int) : ∃ whole rest fraction power,
    writeScientific c e = whole ++ rest ∧ Decimal.Parts whole rest fraction power ∧
      Numeral.value (whole ++ fraction) = c ∧ power - (fraction.length : Int) = e := by
  obtain ⟨d, fraction, hwrite, hd⟩ := Numeral.exists_write_eq_cons c
  have hall : fraction.all Char.isDigit = true := by
    have hwhole := Numeral.all_isDigit_write c
    rw [hwrite, List.all_cons, Bool.and_eq_true] at hwhole
    exact hwhole.2
  have hvalue : Numeral.value ([d] ++ fraction) = c := by
    rw [List.singleton_append, ← hwrite, Numeral.value_write]
  obtain ⟨power, hpower⟩ : ∃ power : Int, power = e + (fraction.length : Nat) := ⟨_, rfl⟩
  obtain ⟨tail, htail⟩ : ∃ tail, tail =
    'e' :: (if power < 0 then '-' else '+') :: Numeral.write power.natAbs := ⟨_, rfl⟩
  have hexponent : Decimal.readExponent? tail = some power := by
    rw [htail, Decimal.readExponent?, if_pos (Or.inl rfl), Numeral.readSigned?_sign]
  have hstops : tail.takeWhile Char.isDigit = [] := by rw [htail]; rfl
  have hd' : [d].all Char.isDigit = true := by simp [hd]
  cases fraction with
  | nil =>
    refine ⟨[d], tail, [], power, ?_, ⟨List.cons_ne_nil d [], hd', hstops, ?_, ?_⟩, hvalue, ?_⟩
    · simp [writeScientific, hwrite, htail, hpower]
    · rw [htail]; rfl
    · rw [htail] at hexponent ⊢; exact hexponent
    · simp [hpower]
  | cons f fraction =>
    have htake := takeFraction_point hall hstops
    refine ⟨[d], '.' :: (f :: fraction) ++ tail, f :: fraction, power, ?_,
      ⟨List.cons_ne_nil d [], hd', rfl, ?_, ?_⟩, hvalue, ?_⟩
    · simp [writeScientific, hwrite, htail, hpower]
    · rw [htake]
    · rw [htake]; exact hexponent
    · rw [hpower]; omega

/-- **A decimal is read from its text as the same number.** -/
theorem exists_writeDecimal_eq (layout : Layout) (d : Decimal) : ∃ whole rest fraction power,
    layout.writeDecimal d = (if d.negative then '-' :: (whole ++ rest) else whole ++ rest) ∧
      Decimal.Parts whole rest fraction power ∧
      Decimal.nearest ⟨d.negative, Numeral.value (whole ++ fraction), power - fraction.length⟩ =
        d.nearest := by
  unfold writeDecimal
  by_cases hpositional : layout.isPositional d = true
  · obtain ⟨whole, rest, fraction, hwrite, hparts, hnearest⟩ :=
      exists_writePositional_eq layout d.coefficient d.exponent
    simp only [if_pos hpositional, hwrite]
    exact ⟨whole, rest, fraction, 0, rfl, hparts, hnearest d.negative⟩
  · obtain ⟨whole, rest, fraction, power, hwrite, hparts, hvalue, hpower⟩ :=
      exists_writeScientific_eq d.coefficient d.exponent
    simp only [if_neg hpositional, hwrite]
    exact ⟨whole, rest, fraction, power, rfl, hparts, by rw [hvalue, hpower]⟩

@[simp] theorem begins_writeDecimal (layout : Layout) (d : Decimal) :
    Numeral.Begins (layout.writeDecimal d) := by
  obtain ⟨whole, rest, fraction, power, hwrite, hparts, -⟩ := exists_writeDecimal_eq layout d
  obtain ⟨c, cs, hcons, hc⟩ := hparts.exists_eq_cons
  rw [hwrite, hcons]
  split
  · exact Numeral.begins_minus _
  · exact Numeral.begins_of_isDigit hc cs

end Layout

/-- **A double is read from its text.** -/
theorem Binary64.readFinite?_write (layout : Layout) (x : Binary64.Finite) :
    readFinite? (layout.write x) = some x := by
  obtain ⟨whole, rest, fraction, power, hwrite, hparts, hnearest⟩ :=
    Layout.exists_writeDecimal_eq layout (x.shortest layout.tie)
  rw [readFinite?, Layout.write, hwrite, hparts.read?_signed, Option.map_some, hnearest,
    Finite.nearest_shortest]

end QueryFilter
