import Mathlib.Data.List.TakeWhile
import QueryFilter.Text.Blank

/-!
# Letters and blanks

Words are compared without regard to the case of their letters, and some of them also without the
blanks around them. What a letter becomes in the other case is read off its code point
(`toNat_toLower`, `toNat_toUpper`); blanks are no letters (`not_letter_of_isBlank`), so the case does
not matter to them. A text is its trimmed text with blanks around it (`exists_eq_append_trim`), and
what stands between blanks is the trimmed text if it has no blank itself (`trim_append`).
-/

namespace QueryFilter.Text

/-! ### Letters -/

theorem isLower_iff {c : Char} : c.isLower ↔ 97 ≤ c.toNat ∧ c.toNat ≤ 122 := by
  show (decide (c.val ≥ 'a'.val) && decide (c.val ≤ 'z'.val)) = true ↔ _
  rw [Bool.and_eq_true, decide_eq_true_iff, decide_eq_true_iff]
  exact Iff.rfl

theorem toNat_toLower (c : Char) :
    c.toLower.toNat = if 65 ≤ c.toNat ∧ c.toNat ≤ 90 then c.toNat + 32 else c.toNat := by
  have hiff : (c.val ≥ 'A'.val ∧ c.val ≤ 'Z'.val) ↔ 65 ≤ c.toNat ∧ c.toNat ≤ 90 := Iff.rfl
  by_cases h : 65 ≤ c.toNat ∧ c.toNat ≤ 90
  · have hlower : c.toLower = ⟨c.val + ('a'.val - 'A'.val), _⟩ := dif_pos (hiff.mpr h)
    rw [if_pos h, hlower]
    show (c.val + 32).toNat = _
    rw [UInt32.toNat_add]
    show (c.toNat + 32) % 4294967296 = _
    omega
  · have hlower : c.toLower = c := dif_neg (mt hiff.mp h)
    rw [if_neg h, hlower]

theorem toNat_toUpper {c : Char} (h : c.isLower) : c.toUpper.toNat + 32 = c.toNat := by
  have hbounds := isLower_iff.mp h
  have hiff : ('a'.val ≤ c.val ∧ c.val ≤ 'z'.val) ↔ 97 ≤ c.toNat ∧ c.toNat ≤ 122 := Iff.rfl
  have hupper : c.toUpper = ⟨c.val + ('A'.val - 'a'.val), _⟩ := dif_pos (hiff.mpr hbounds)
  rw [hupper]
  show (c.val + 4294967264).toNat + 32 = _
  rw [UInt32.toNat_add]
  show (c.toNat + 4294967264) % 4294967296 + 32 = _
  omega

/-- What becomes a small letter is this letter or its capital. -/
theorem toLower_eq_iff {c w : Char} (h : w.isLower) : c.toLower = w ↔ c = w ∨ c = w.toUpper := by
  have hbounds := isLower_iff.mp h
  have hupper := toNat_toUpper h
  simp only [← Char.toNat_inj, toNat_toLower]
  split <;> omega

/-! ### Blanks -/

/-- No blank stands among the letters of ASCII. -/
theorem not_letter_of_isBlank {c : Char} (h : isBlank c = true) :
    c.toNat < 65 ∨ 122 < c.toNat := by
  simp [isBlank, blankRanges] at h
  omega

theorem toLower_of_isBlank {c : Char} (h : isBlank c = true) : c.toLower = c := by
  have hletter := not_letter_of_isBlank h
  rw [← Char.toNat_inj, toNat_toLower, if_neg (by omega)]

theorem isBlank_of_isLower {c : Char} (h : c.isLower) : isBlank c = false := by
  have hbounds := isLower_iff.mp h
  by_contra hblank
  have hletter := not_letter_of_isBlank (Bool.not_eq_false _ ▸ hblank)
  omega

/-! ### Trimmed texts -/

/-- Leading blanks are left out up to a word without blanks. -/
theorem dropWhile_isBlank_append {before word : List Char} (rest : List Char)
    (hbefore : ∀ c ∈ before, isBlank c = true) (hne : word ≠ [])
    (hword : ∀ c ∈ word, isBlank c = false) :
    (before ++ (word ++ rest)).dropWhile isBlank = word ++ rest := by
  obtain ⟨c, cs, rfl⟩ := List.exists_cons_of_ne_nil hne
  have hc : ¬ isBlank c = true := by simp [hword c List.mem_cons_self]
  rw [List.dropWhile_append_of_pos hbefore, List.cons_append, List.dropWhile_cons_of_neg hc]

theorem trim_append {before word after : List Char} (hbefore : ∀ c ∈ before, isBlank c = true)
    (hafter : ∀ c ∈ after, isBlank c = true) (hne : word ≠ [])
    (hword : ∀ c ∈ word, isBlank c = false) : trim (before ++ (word ++ after)) = word := by
  have hreverse : ∀ c ∈ after.reverse, isBlank c = true := by simpa using hafter
  have hword' : ∀ c ∈ word.reverse, isBlank c = false := by simpa using hword
  have hend := dropWhile_isBlank_append [] hreverse (by simpa using hne) hword'
  rw [List.append_nil] at hend
  rw [trim, dropWhile_isBlank_append after hbefore hne hword, List.reverse_append, hend,
    List.reverse_reverse]

/-- **A text is its trimmed text** with blanks around it. -/
theorem exists_eq_append_trim (cs : List Char) : ∃ before after, cs = before ++ (trim cs ++ after) ∧
    (∀ c ∈ before, isBlank c = true) ∧ ∀ c ∈ after, isBlank c = true := by
  refine ⟨cs.takeWhile isBlank, ((cs.dropWhile isBlank).reverse.takeWhile isBlank).reverse, ?_,
    fun c hc => List.mem_takeWhile_imp hc, fun c hc => ?_⟩
  · rw [trim, ← List.reverse_append, List.takeWhile_append_dropWhile,
      List.reverse_reverse, List.takeWhile_append_dropWhile]
  · exact List.mem_takeWhile_imp (List.mem_reverse.mp hc)

end QueryFilter.Text
