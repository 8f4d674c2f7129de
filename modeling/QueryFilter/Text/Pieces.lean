/-!
# Texts cut at a separator

`split sep` cuts a string at every occurrence of `sep` and keeps the empty pieces, so that joining
the pieces with `sep` gives the string back. A string without `sep` is one piece, and so is the empty
string. The characters are cut by `List.splitOn`.
-/

namespace QueryFilter.Text

/-- The pieces of a string between the occurrences of `sep`. -/
def split (sep : Char) (s : String) : List String :=
  (s.toList.splitOn sep).map String.ofList

@[simp] theorem map_toList_split (sep : Char) (s : String) :
    (split sep s).map String.toList = s.toList.splitOn sep := by
  simp [split, Function.comp_def]

@[simp] theorem split_ne_nil (sep : Char) (s : String) : split sep s ≠ [] := by
  simp [split]

theorem not_mem_of_mem_splitOn {sep : Char} {cs p : List Char} (h : p ∈ cs.splitOn sep) :
    sep ∉ p := by
  induction cs generalizing p with
  | nil =>
    rw [List.splitOn_nil, List.mem_singleton] at h
    rw [h]
    exact List.not_mem_nil
  | cons c cs ih =>
    rw [List.splitOn_cons_eq_if_modifyHead] at h
    by_cases hc : c = sep
    · rw [if_pos (beq_iff_eq.mpr hc)] at h
      rcases List.mem_cons.mp h with rfl | h
      · exact List.not_mem_nil
      · exact ih h
    · obtain ⟨q, qs, hq⟩ := List.exists_cons_of_ne_nil (List.splitOn_ne_nil sep cs)
      rw [if_neg (mt beq_iff_eq.mp hc), hq, List.modifyHead_cons] at h
      rcases List.mem_cons.mp h with rfl | h
      · have hmem : sep ∉ q := ih (hq ▸ List.mem_cons_self)
        simp [Ne.symm hc, hmem]
      · exact ih (hq ▸ List.mem_cons_of_mem q h)

/-- No piece has the separator. -/
theorem not_mem_of_mem_split {sep : Char} {s p : String} (h : p ∈ split sep s) :
    sep ∉ p.toList := by
  obtain ⟨cs, hcs, rfl⟩ := List.mem_map.mp h
  rw [String.toList_ofList]
  exact not_mem_of_mem_splitOn hcs

/-- Joining the pieces gives the string back. -/
@[simp] theorem intercalate_split (sep : Char) (s : String) :
    (String.singleton sep).intercalate (split sep s) = s := by
  rw [← String.toList_inj, String.toList_intercalate, map_toList_split, String.toList_singleton]
  exact List.intercalate_splitOn sep

/-- Strings without the separator are the pieces of the string which they are joined to. -/
theorem split_intercalate {sep : Char} {ps : List String} (hne : ps ≠ [])
    (h : ∀ p ∈ ps, sep ∉ p.toList) : split sep ((String.singleton sep).intercalate ps) = ps := by
  have hsplit : List.splitOn sep (List.intercalate [sep] (ps.map String.toList)) =
      ps.map String.toList :=
    List.splitOn_intercalate sep (by simpa using h) (by simpa using hne)
  rw [split, String.toList_intercalate, String.toList_singleton, hsplit]
  simp [Function.comp_def]

/-- A string which joins two others by the separator has the pieces of both. -/
theorem split_joined (sep : Char) (a b : String) :
    split sep (a ++ String.singleton sep ++ b) = split sep a ++ split sep b := by
  rw [split, String.toList_append, String.toList_append, String.toList_singleton,
    List.append_assoc, List.singleton_append, List.splitOn_append_cons_self, List.map_append]
  rfl

end QueryFilter.Text
