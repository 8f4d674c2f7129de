import QueryFilter.Binary64

/-!
# Structured data

What JSON texts and TOML documents have in common: scalars, lists, and records whose fields stand in
an order. Answers are built as `Data` and then printed, and documents are read into `Data` and then
given a meaning.
-/

namespace QueryFilter

/-- A structured value. -/
inductive Data where
  | null
  | boolean (b : Bool)
  | integer (n : Int)
  | decimal (x : Binary64)
  | text (s : String)
  | list (items : List Data)
  | record (fields : List (String × Data))
deriving Inhabited

namespace Data

/-! ### Equality -/

mutual

/-- Decides whether two values are equal. -/
def decEq : (a b : Data) → Decidable (a = b)
  | null, b => match b with
    | null => isTrue rfl
    | boolean _ | integer _ | decimal _ | text _ | list _ | record _ => isFalse nofun
  | boolean a, b => match b with
    | boolean b => decidable_of_iff (a = b) (by simp)
    | null | integer _ | decimal _ | text _ | list _ | record _ => isFalse nofun
  | integer a, b => match b with
    | integer b => decidable_of_iff (a = b) (by simp)
    | null | boolean _ | decimal _ | text _ | list _ | record _ => isFalse nofun
  | decimal a, b => match b with
    | decimal b => decidable_of_iff (a = b) (by simp)
    | null | boolean _ | integer _ | text _ | list _ | record _ => isFalse nofun
  | text a, b => match b with
    | text b => decidable_of_iff (a = b) (by simp)
    | null | boolean _ | integer _ | decimal _ | list _ | record _ => isFalse nofun
  | list as, b => match b with
    | list bs =>
      have := decEqItems as bs
      decidable_of_iff (as = bs) (by simp)
    | null | boolean _ | integer _ | decimal _ | text _ | record _ => isFalse nofun
  | record as, b => match b with
    | record bs =>
      have := decEqFields as bs
      decidable_of_iff (as = bs) (by simp)
    | null | boolean _ | integer _ | decimal _ | text _ | list _ => isFalse nofun

/-- Decides whether two lists have equal items. -/
def decEqItems : (as bs : List Data) → Decidable (as = bs)
  | [], [] => isTrue rfl
  | [], _ :: _ | _ :: _, [] => isFalse nofun
  | a :: as, b :: bs =>
    have := decEq a b
    have := decEqItems as bs
    decidable_of_iff (a = b ∧ as = bs) (by simp)

/-- Decides whether two records have equal fields. -/
def decEqFields : (as bs : List (String × Data)) → Decidable (as = bs)
  | [], [] => isTrue rfl
  | [], _ :: _ | _ :: _, [] => isFalse nofun
  | (name, a) :: as, (name', b) :: bs =>
    have := decEq a b
    have := decEqFields as bs
    decidable_of_iff ((name = name' ∧ a = b) ∧ as = bs) (by simp)

end

instance : DecidableEq Data := decEq

/-! ### Contents -/

/-- The text in a value which is one. -/
def text? : Data → Option String
  | text s => some s
  | _ => none

/-- The truth value in a value which is one. -/
def boolean? : Data → Option Bool
  | boolean b => some b
  | _ => none

/-- The items of a list. -/
def list? : Data → Option (List Data)
  | list items => some items
  | _ => none

/-- The fields of a record. -/
def record? : Data → Option (List (String × Data))
  | record fields => some fields
  | _ => none

/-- The texts of a list of texts. -/
def texts? (d : Data) : Option (List String) :=
  d.list?.bind fun items => items.mapM text?

/-- The fields of the given names. A record has them by name, whatever else it holds, and a list
has them by position; a field which is not there is `none`. -/
def fields? (names : List String) : Data → Option (List (Option Data))
  | record fields => some (names.map fun name => fields.lookup name)
  | list items => some (names.mapIdx fun i _ => items[i]?)
  | _ => none

end Data

end QueryFilter
