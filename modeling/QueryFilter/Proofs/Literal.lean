import QueryFilter.Proofs.Double
import QueryFilter.Value

/-!
# Which values a type reads

The values which a type can read from literals are those which inhabit it, and each of them is read
from its own text (`ValueType.read?_display`). So `Value.Inhabits`, which says of each type what its
values are, describes the results of `ValueType.read?` and nothing else
(`ValueType.exists_read?_iff`).
-/

namespace QueryFilter

/-- A value belongs to a type. Integers fit into 64 bits, decimals are finite, dates have a year of
four digits, and a member of an enumeration is one of those which the type lists. -/
inductive Value.Inhabits : Value → ValueType → Prop
  | text (s : String) : Inhabits (.text s) .text
  | integer {n : Int} : Numeral.Fits64 n → Inhabits (.integer n) .integer
  | decimal (x : Binary64.Finite) : Inhabits (.decimal (.finite x)) .decimal
  | boolean (b : Bool) : Inhabits (.boolean b) .boolean
  | date {d : Date} : 0 ≤ d.year → d.year ≤ 9999 → Inhabits (.date d) .date
  | member {s : String} {members : List String} : s ∈ members →
      Inhabits (.member s) (.enumeration members)
  | number {n : Int} : Numeral.Fits64 n → Inhabits (.integer n) (.identifier true)
  | name (s : String) : Inhabits (.text s) (.identifier false)

theorem display_of_readBoolean? {literal : String} {b : Bool} (h : readBoolean? literal = some b) :
    (Value.boolean b).display = literal := by
  unfold readBoolean? at h
  split at h
  · next hliteral =>
    cases h
    exact hliteral.symm
  · split at h
    · next hliteral =>
      cases h
      exact hliteral.symm
    · cases h

namespace ValueType

theorem read?_enumeration_eq_some {members : List String} {literal : String} {v : Value} :
    (enumeration members).read? literal = some v ↔ literal ∈ members ∧ .member literal = v := by
  show (if literal ∈ members then some (Value.member literal) else none) = some v ↔ _
  rw [Option.ite_none_right_eq_some, Option.some.injEq]

theorem inhabits_of_read? {type : ValueType} {literal : String} {v : Value}
    (h : type.read? literal = some v) : v.Inhabits type := by
  cases type with
  | text =>
    cases h
    exact .text literal
  | integer =>
    obtain ⟨n, hn, rfl⟩ := Option.map_eq_some_iff.mp h
    exact .integer (Numeral.fits64_of_readInteger? hn)
  | decimal =>
    obtain ⟨x, -, rfl⟩ := Option.map_eq_some_iff.mp h
    exact .decimal x
  | boolean =>
    obtain ⟨b, -, rfl⟩ := Option.map_eq_some_iff.mp h
    exact .boolean b
  | date =>
    obtain ⟨d, hd, rfl⟩ := Option.map_eq_some_iff.mp h
    exact .date (Date.year_of_read? hd).1 (Date.year_of_read? hd).2
  | enumeration members =>
    obtain ⟨hmem, rfl⟩ := read?_enumeration_eq_some.mp h
    exact .member hmem
  | identifier numeric =>
    cases numeric with
    | true =>
      obtain ⟨n, hn, rfl⟩ := Option.map_eq_some_iff.mp h
      exact .number (Numeral.fits64_of_readInteger? hn)
    | false =>
      cases h
      exact .name literal

/-- **A value is read from its own text.** -/
theorem read?_display {type : ValueType} {v : Value} (h : v.Inhabits type) :
    type.read? v.display = some v := by
  cases h with
  | text s => rfl
  | integer hn | number hn =>
    show (Numeral.readInteger? (String.ofList _).toList).map Value.integer = _
    rw [String.toList_ofList, Numeral.readInteger?_writeSigned hn, Option.map_some]
  | decimal x =>
    show (Binary64.readFinite? (String.ofList _).toList).map _ = _
    rw [String.toList_ofList, Binary64.readFinite?_write, Option.map_some]
  | boolean b => cases b <;> rfl
  | @date d h₀ h₁ =>
    show (Date.read? (String.ofList d.write).toList).map Value.date = _
    rw [String.toList_ofList, Date.read?_write h₀ h₁, Option.map_some]
  | member hmem => exact if_pos hmem
  | name s => rfl

/-- The values which a type reads are those which belong to it. -/
theorem exists_read?_iff {type : ValueType} {v : Value} :
    (∃ literal, type.read? literal = some v) ↔ v.Inhabits type :=
  ⟨fun ⟨_, h⟩ => inhabits_of_read? h, fun h => ⟨v.display, read?_display h⟩⟩

/-- The text of a value is the literal which it was read from, or it starts as a number does. -/
theorem display_eq_or_begins {type : ValueType} {literal : String} {v : Value}
    (h : type.read? literal = some v) :
    v.display = literal ∨ Numeral.Begins v.display.toList := by
  cases type with
  | text =>
    cases h
    exact Or.inl rfl
  | integer =>
    obtain ⟨n, -, rfl⟩ := Option.map_eq_some_iff.mp h
    exact Or.inr (String.toList_ofList ▸ Numeral.begins_writeSigned n)
  | decimal =>
    obtain ⟨x, -, rfl⟩ := Option.map_eq_some_iff.mp h
    exact Or.inr (String.toList_ofList ▸ Layout.begins_writeDecimal _ _)
  | boolean =>
    obtain ⟨b, hb, rfl⟩ := Option.map_eq_some_iff.mp h
    exact Or.inl (display_of_readBoolean? hb)
  | date =>
    obtain ⟨d, -, rfl⟩ := Option.map_eq_some_iff.mp h
    exact Or.inr (String.toList_ofList ▸ Date.begins_write d)
  | enumeration members =>
    obtain ⟨-, rfl⟩ := read?_enumeration_eq_some.mp h
    exact Or.inl rfl
  | identifier numeric =>
    cases numeric with
    | true =>
      obtain ⟨n, -, rfl⟩ := Option.map_eq_some_iff.mp h
      exact Or.inr (String.toList_ofList ▸ Numeral.begins_writeSigned n)
    | false =>
      cases h
      exact Or.inl rfl

end ValueType

end QueryFilter
