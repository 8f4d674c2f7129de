import QueryFilter.Catalog.Document
import QueryFilter.Proofs.Text

/-!
# The types which declarations name

A declaration names its type by one of the known names (`Declaration.typeNames`), and two or three
of them may name the same type. How a name is spelled does not matter much: blanks may stand around
it, and its letters may be of either case (`Spells`). `Declares` has one rule for each kind of type,
and a declaration names a type exactly when one of the rules gives it (`type?_eq_some_iff`); it names
none exactly when it spells no known name (`type?_eq_none_iff`).
-/

namespace QueryFilter

/-! ### Spellings -/

namespace Declaration

/-- The names of types. Those of one type stand together. -/
def typeNames : List String :=
  ["text", "string"] ++ ["integer", "int", "long"] ++ ["decimal", "float", "double"] ++
    ["boolean", "bool"] ++ ["date"] ++ ["enumeration", "enum"] ++ ["identifier", "id"]

@[simp] theorem mem_typeNames {name : String} : name ∈ typeNames ↔
    name = "text" ∨ name = "string" ∨ name = "integer" ∨ name = "int" ∨ name = "long" ∨
      name = "decimal" ∨ name = "float" ∨ name = "double" ∨ name = "boolean" ∨ name = "bool" ∨
      name = "date" ∨ name = "enumeration" ∨ name = "enum" ∨ name = "identifier" ∨
      name = "id" := by
  simp [typeNames]

/-- A text spells a name if it is the name in letters of any case, with blanks around it. -/
def Spells (s name : String) : Prop :=
  ∃ before word after, s.toList = before ++ (word ++ after) ∧
    (∀ c ∈ before, Text.isBlank c = true) ∧ (∀ c ∈ after, Text.isBlank c = true) ∧
    word.map Char.toLower = name.toList

theorem normalName_eq_iff {s name : String} (hne : name ≠ "")
    (hname : ∀ c ∈ name.toList, c.isLower = true) : normalName s = name ↔ Spells s name := by
  constructor
  · rintro rfl
    obtain ⟨before, after, hs, hbefore, hafter⟩ := Text.exists_eq_append_trim s.toList
    exact ⟨before, _, after, hs, hbefore, hafter, by rw [normalName, String.toList_ofList]⟩
  · rintro ⟨before, word, after, hs, hbefore, hafter, hword⟩
    have hblank : ∀ c ∈ word, Text.isBlank c = false := by
      intro c hc
      by_contra hblank
      rw [Bool.not_eq_false] at hblank
      have hmem : c.toLower ∈ name.toList := hword ▸ List.mem_map_of_mem hc
      rw [Text.toLower_of_isBlank hblank] at hmem
      rw [Text.isBlank_of_isLower (hname c hmem)] at hblank
      cases hblank
    have hword_ne : word ≠ [] := by
      rintro rfl
      exact hne (String.toList_eq_nil_iff.mp hword.symm)
    rw [normalName, hs, Text.trim_append hbefore hafter hword_ne hblank, hword,
      String.ofList_toList]

theorem normalName_eq_iff_of_mem {s name : String} (h : name ∈ typeNames) :
    normalName s = name ↔ Spells s name := by
  rcases mem_typeNames.mp h with rfl | rfl | rfl | rfl | rfl | rfl | rfl | rfl | rfl | rfl | rfl |
    rfl | rfl | rfl | rfl <;>
  exact normalName_eq_iff (by simp) (by simp)

/-- The type which a declaration names. -/
inductive Declares (d : Declaration) : ValueType → Prop
  | text {name : String} : name ∈ ["text", "string"] → Spells d.type name → Declares d .text
  | integer {name : String} : name ∈ ["integer", "int", "long"] → Spells d.type name →
      Declares d .integer
  | decimal {name : String} : name ∈ ["decimal", "float", "double"] → Spells d.type name →
      Declares d .decimal
  | boolean {name : String} : name ∈ ["boolean", "bool"] → Spells d.type name →
      Declares d .boolean
  | date : Spells d.type "date" → Declares d .date
  | enumeration {name : String} : name ∈ ["enumeration", "enum"] → Spells d.type name →
      Declares d (.enumeration d.members)
  | identifier {name : String} : name ∈ ["identifier", "id"] → Spells d.type name →
      Declares d (.identifier (d.numeric.getD true))

theorem type?_eq_some_iff {d : Declaration} {t : ValueType} : d.type? = some t ↔ d.Declares t := by
  constructor
  · intro h
    have spells {name : String} (hmem : name ∈ typeNames) (heq : normalName d.type = name) :
        Spells d.type name :=
      (normalName_eq_iff_of_mem hmem).mp heq
    unfold type? at h
    split at h
    case h_1 heq | h_2 heq => cases h; exact .text (by simp) (spells (by simp) heq)
    case h_3 heq | h_4 heq | h_5 heq =>
      cases h; exact .integer (by simp) (spells (by simp) heq)
    case h_6 heq | h_7 heq | h_8 heq =>
      cases h; exact .decimal (by simp) (spells (by simp) heq)
    case h_9 heq | h_10 heq =>
      cases h; exact .boolean (by simp) (spells (by simp) heq)
    case h_11 heq => cases h; exact .date (spells (by simp) heq)
    case h_12 heq | h_13 heq =>
      cases h; exact .enumeration (by simp) (spells (by simp) heq)
    case h_14 heq | h_15 heq =>
      cases h; exact .identifier (by simp) (spells (by simp) heq)
    case h_16 => cases h
  · intro h
    have normal {name : String} (hmem : name ∈ typeNames) (hs : Spells d.type name) :
        normalName d.type = name :=
      (normalName_eq_iff_of_mem hmem).mpr hs
    cases h with
    | text hname hs =>
      simp only [List.mem_cons, List.not_mem_nil, or_false] at hname
      rcases hname with rfl | rfl <;> simp only [type?, normal (by simp) hs]
    | integer hname hs =>
      simp only [List.mem_cons, List.not_mem_nil, or_false] at hname
      rcases hname with rfl | rfl | rfl <;> simp only [type?, normal (by simp) hs]
    | decimal hname hs =>
      simp only [List.mem_cons, List.not_mem_nil, or_false] at hname
      rcases hname with rfl | rfl | rfl <;> simp only [type?, normal (by simp) hs]
    | boolean hname hs =>
      simp only [List.mem_cons, List.not_mem_nil, or_false] at hname
      rcases hname with rfl | rfl <;> simp only [type?, normal (by simp) hs]
    | date hs => simp only [type?, normal (by simp) hs]
    | enumeration hname hs =>
      simp only [List.mem_cons, List.not_mem_nil, or_false] at hname
      rcases hname with rfl | rfl <;> simp only [type?, normal (by simp) hs]
    | identifier hname hs =>
      simp only [List.mem_cons, List.not_mem_nil, or_false] at hname
      rcases hname with rfl | rfl <;> simp only [type?, normal (by simp) hs]

/-- A declaration names a type if it spells one of the names. -/
theorem exists_declares_iff {d : Declaration} :
    (∃ t, d.Declares t) ↔ ∃ name ∈ typeNames, Spells d.type name := by
  constructor
  · rintro ⟨t, h⟩
    cases h with
    | date hs => exact ⟨"date", by simp, hs⟩
    | text hname hs | integer hname hs | decimal hname hs | boolean hname hs
    | enumeration hname hs | identifier hname hs =>
      exact ⟨_, by simp only [typeNames, List.mem_append, hname, true_or, or_true], hs⟩
  · rintro ⟨name, hname, hs⟩
    simp only [typeNames, List.mem_append] at hname
    rcases hname with (((((htext | hinteger) | hdecimal) | hboolean) | hdate) | henum) | hid
    · exact ⟨_, .text htext hs⟩
    · exact ⟨_, .integer hinteger hs⟩
    · exact ⟨_, .decimal hdecimal hs⟩
    · exact ⟨_, .boolean hboolean hs⟩
    · exact ⟨_, .date (List.mem_singleton.mp hdate ▸ hs)⟩
    · exact ⟨_, .enumeration henum hs⟩
    · exact ⟨_, .identifier hid hs⟩

theorem type?_eq_none_iff {d : Declaration} :
    d.type? = none ↔ ∀ name ∈ typeNames, ¬ Spells d.type name := by
  have hsome : d.type? ≠ none ↔ ∃ name ∈ typeNames, Spells d.type name := by
    rw [Option.ne_none_iff_exists', ← exists_declares_iff]
    exact exists_congr fun t => type?_eq_some_iff
  rw [← not_iff_not, ← ne_eq, hsome]
  simp only [not_forall, not_not, exists_prop]

end Declaration

end QueryFilter
