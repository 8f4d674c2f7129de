import QueryFilter.Catalog.Document
import QueryFilter.Proofs.FirstFault

/-!
# Built catalogs

A schema keeps its attributes in an array and finds them through an index from names to positions.
`Schema.Indexed` says that the two agree, and every insertion keeps it. A catalog is `Built` if it
comes from the empty one by declaring schemas and inserting attributes, in whatever order; catalogs
have no other source, and those read from documents are built as well (`built_ofDeclarations`). So
in a built catalog the attribute found under a name has this name (`Built.name_eq`), and what is
found after one more step is known: a declaration changes nothing (`resolve_declare`), and an
insertion changes the answer for one name on one schema (`Built.resolve_insert`).
-/

namespace QueryFilter

/-! ### The index of a schema -/

namespace Schema

/-- The index and the array agree: a name leads to a position exactly when the attribute in this
position has the name. -/
def Indexed (s : Schema) : Prop :=
  ∀ (name : String) (i : Nat),
    s.positions[name]? = some i ↔ ∃ a, s.attributes[i]? = some a ∧ a.name = name

@[simp] theorem indexed_empty : ({} : Schema).Indexed := by
  intro name i
  refine ⟨fun h => ?_, ?_⟩
  · rw [show ({} : Schema).positions = ∅ from rfl, Std.TreeMap.getElem?_emptyc] at h
    cases h
  · rintro ⟨a, h, -⟩
    simp at h

@[simp] theorem get?_empty (name : String) : ({} : Schema).get? name = none := rfl

/-- The positions of the index lie in the array. -/
theorem Indexed.lt_size {s : Schema} (h : s.Indexed) {name : String} {i : Nat}
    (hi : s.positions[name]? = some i) : i < s.attributes.size := by
  obtain ⟨a, ha, -⟩ := (h name i).mp hi
  exact (Array.getElem?_eq_some_iff.mp ha).1

/-- Different names have different positions. -/
theorem Indexed.name_inj {s : Schema} (h : s.Indexed) {name name' : String} {i : Nat}
    (hi : s.positions[name]? = some i) (hi' : s.positions[name']? = some i) : name = name' := by
  obtain ⟨a, ha, rfl⟩ := (h name i).mp hi
  obtain ⟨b, hb, rfl⟩ := (h name' i).mp hi'
  rw [Option.some.inj (ha.symm.trans hb)]

theorem Indexed.replace {s : Schema} (h : s.Indexed) {a : Attribute} {i : Nat}
    (hi : s.positions[a.name]? = some i) :
    Indexed { s with attributes := s.attributes.setIfInBounds i a } := by
  intro name j
  obtain ⟨b, hb, hname⟩ := (h a.name i).mp hi
  rw [h name j]
  show _ ↔ ∃ c, (s.attributes.setIfInBounds i a)[j]? = some c ∧ c.name = name
  rw [Array.getElem?_setIfInBounds]
  by_cases hij : i = j
  · subst hij
    rw [if_pos rfl, if_pos (h.lt_size hi), hb]
    constructor
    · rintro ⟨c, hc, rfl⟩
      exact ⟨a, rfl, by rw [← Option.some.inj hc, hname]⟩
    · rintro ⟨c, hc, rfl⟩
      exact ⟨b, rfl, by rw [← Option.some.inj hc, hname]⟩
  · rw [if_neg hij]

theorem Indexed.push {s : Schema} (h : s.Indexed) {a : Attribute}
    (ha : s.positions[a.name]? = none) :
    Indexed ⟨s.attributes.push a, s.positions.insert a.name s.attributes.size⟩ := by
  intro name j
  show (s.positions.insert a.name s.attributes.size)[name]? = some j ↔
    ∃ c, (s.attributes.push a)[j]? = some c ∧ c.name = name
  rw [Std.TreeMap.getElem?_insert, Array.getElem?_push]
  by_cases hname : a.name = name
  · subst hname
    have hnew : ∀ (k : Nat) (b : Attribute), s.attributes[k]? = some b → b.name ≠ a.name := by
      intro k b hb hba
      rw [(h a.name k).mpr ⟨b, hb, hba⟩] at ha
      cases ha
    rw [if_pos (Std.compare_eq_iff_eq.mpr rfl)]
    refine ⟨fun hj => ?_, ?_⟩
    · rw [if_pos (Option.some.inj hj).symm]
      exact ⟨a, rfl, rfl⟩
    · rintro ⟨c, hc, hca⟩
      split at hc
      · next hj => rw [hj]
      · exact absurd hca (hnew j c hc)
  · rw [if_neg (fun he => hname (Std.compare_eq_iff_eq.mp he)), h name j]
    constructor
    · rintro ⟨c, hc, hcn⟩
      have hlt : j < s.attributes.size := (Array.getElem?_eq_some_iff.mp hc).1
      rw [if_neg (by omega)]
      exact ⟨c, hc, hcn⟩
    · rintro ⟨c, hc, hcn⟩
      split at hc
      · exact absurd (Option.some.inj hc ▸ hcn) hname
      · exact ⟨c, hc, hcn⟩

/-- **Insertion keeps the index right.** -/
theorem Indexed.insert {s : Schema} (h : s.Indexed) (a : Attribute) : (s.insert a).Indexed := by
  unfold Schema.insert
  split
  · next i hi => exact h.replace hi
  · next ha => exact h.push ha

theorem mem_toList_of_get? {s : Schema} {name : String} {a : Attribute}
    (h : s.get? name = some a) : a ∈ s.toList := by
  obtain ⟨i, -, hi⟩ := Option.bind_eq_some_iff.mp h
  exact Array.mem_toList_iff.mpr (Array.mem_of_getElem? hi)

/-- With a right index, the attribute found under a name is the one which has it. -/
theorem Indexed.get?_eq_some_iff {s : Schema} (h : s.Indexed) {name : String} {a : Attribute} :
    s.get? name = some a ↔ a ∈ s.toList ∧ a.name = name := by
  refine ⟨fun hget => ?_, ?_⟩
  · obtain ⟨i, hi, ha⟩ := Option.bind_eq_some_iff.mp hget
    obtain ⟨b, hb, hname⟩ := (h name i).mp hi
    rw [ha] at hb
    exact ⟨mem_toList_of_get? hget, Option.some.inj hb ▸ hname⟩
  · rintro ⟨ha, rfl⟩
    obtain ⟨i, hi⟩ := Array.mem_iff_getElem?.mp (Array.mem_toList_iff.mp ha)
    rw [Schema.get?, (h a.name i).mpr ⟨a, hi, rfl⟩]
    exact hi

theorem Indexed.mem_toList_insert {s : Schema} (h : s.Indexed) (a : Attribute) :
    a ∈ (s.insert a).toList := by
  unfold Schema.insert
  split
  · next i hi =>
    apply Array.mem_toList_iff.mpr
    apply Array.mem_of_getElem? (i := i)
    rw [Array.getElem?_setIfInBounds, if_pos rfl, if_pos (h.lt_size hi)]
  · exact Array.mem_toList_iff.mpr Array.mem_push_self

/-- **After an insertion the new attribute is found under its name**, and what stood under the other
names is found as before. -/
theorem Indexed.get?_insert {s : Schema} (h : s.Indexed) (a : Attribute) (name : String) :
    (s.insert a).get? name = if a.name = name then some a else s.get? name := by
  by_cases hname : a.name = name
  · rw [if_pos hname, (h.insert a).get?_eq_some_iff]
    exact ⟨h.mem_toList_insert a, hname⟩
  rw [if_neg hname]
  unfold Schema.insert
  split
  · next i hi =>
    show (s.positions[name]?.bind fun j => (s.attributes.setIfInBounds i a)[j]?) =
      s.positions[name]?.bind fun j => s.attributes[j]?
    cases hj : s.positions[name]? with
    | none => rfl
    | some j =>
      have hij : i ≠ j := by
        rintro rfl
        exact hname (h.name_inj hi hj)
      rw [Option.bind_some, Option.bind_some, Array.getElem?_setIfInBounds_ne hij]
  · show ((s.positions.insert a.name s.attributes.size)[name]?.bind fun j =>
      (s.attributes.push a)[j]?) = s.positions[name]?.bind fun j => s.attributes[j]?
    rw [Std.TreeMap.getElem?_insert, if_neg fun he => hname (Std.compare_eq_iff_eq.mp he)]
    cases hj : s.positions[name]? with
    | none => rfl
    | some j =>
      -- an old position stands before the new one
      have hlt : j < s.attributes.size := h.lt_size hj
      rw [Option.bind_some, Option.bind_some, Array.getElem?_push, if_neg (by omega)]

end Schema

/-! ### Building a catalog -/

namespace Catalog

/-- The catalogs which declarations and insertions build. -/
inductive Built : Catalog → Prop
  | empty : Built Catalog.empty
  | declare {c : Catalog} (name : String) : Built c → Built (c.declare name)
  | insert {c : Catalog} (schema : String) (a : Attribute) : Built c → Built (c.insert schema a)

@[simp] theorem schema?_empty (name : String) : Catalog.empty.schema? name = none := rfl

theorem schema?_declare (c : Catalog) (declared name : String) :
    (c.declare declared).schema? name =
      if declared = name ∧ c.schema? name = none then some {} else c.schema? name := by
  show (c.schemas.insertIfNew declared {})[name]? = _
  rw [Std.TreeMap.getElem?_insertIfNew]
  by_cases hname : declared = name
  · subst hname
    have hmem : declared ∈ c.schemas ↔ (c.schema? declared).isSome :=
      Std.TreeMap.mem_iff_isSome_getElem?
    cases h : c.schema? declared with
    | none =>
      rw [if_pos ⟨Std.compare_eq_iff_eq.mpr rfl, by simp [hmem, h]⟩, if_pos ⟨rfl, rfl⟩]
    | some s =>
      rw [if_neg (fun hn => hn.2 (by simp [hmem, h])), if_neg (fun hn => nomatch hn.2)]
      exact h
  · rw [if_neg (fun h => hname (Std.compare_eq_iff_eq.mp h.1)),
      if_neg (fun h => hname h.1)]
    rfl

theorem schema?_insert (c : Catalog) (schema name : String) (a : Attribute) :
    (c.insert schema a).schema? name =
      if schema = name then some (((c.schema? schema).getD {}).insert a) else c.schema? name := by
  show (c.schemas.insert schema _)[name]? = _
  rw [Std.TreeMap.getElem?_insert]
  by_cases hname : schema = name
  · rw [if_pos (Std.compare_eq_iff_eq.mpr hname), if_pos hname]
  · rw [if_neg (fun he => hname (Std.compare_eq_iff_eq.mp he)), if_neg hname]
    rfl

/-- **Every schema of a built catalog has a right index.** -/
theorem Built.indexed {c : Catalog} (h : c.Built) :
    ∀ {name : String} {s : Schema}, c.schema? name = some s → s.Indexed := by
  induction h with
  | empty =>
    intro name s hs
    rw [schema?_empty] at hs
    cases hs
  | declare declared _ ih =>
    intro name s hs
    rw [schema?_declare] at hs
    split at hs
    · cases hs; exact Schema.indexed_empty
    · exact ih hs
  | @insert c schema a _ ih =>
    intro name s hs
    rw [schema?_insert] at hs
    split at hs
    · cases hs
      refine Schema.Indexed.insert ?_ a
      cases hc : c.schema? schema with
      | none => exact Schema.indexed_empty
      | some s => exact ih hc
    · exact ih hs

theorem resolve_eq_some_iff {c : Catalog} {schema name : String} {a : Attribute} :
    c.resolve schema name = some a ↔ ∃ s, c.schema? schema = some s ∧ s.get? name = some a :=
  Option.bind_eq_some_iff

/-- **In a built catalog the attribute found under a name has this name.** -/
theorem Built.name_eq {c : Catalog} (h : c.Built) {schema name : String} {a : Attribute}
    (ha : c.resolve schema name = some a) : a.name = name := by
  obtain ⟨s, hs, hget⟩ := resolve_eq_some_iff.mp ha
  exact ((h.indexed hs).get?_eq_some_iff.mp hget).2

/-- In a built catalog a name without an attribute is one which no listed attribute has. -/
theorem Built.resolve_eq_none_iff {c : Catalog} (h : c.Built) {schema name : String} :
    c.resolve schema name = none ↔
      ∀ s, c.schema? schema = some s → ∀ a ∈ s.toList, a.name ≠ name := by
  refine ⟨fun hnone s hs a ha hname => ?_, fun hlisted => ?_⟩
  · have hget := (h.indexed hs).get?_eq_some_iff.mpr ⟨ha, hname⟩
    rw [resolve_eq_some_iff.mpr ⟨s, hs, hget⟩] at hnone
    cases hnone
  · by_contra hsome
    obtain ⟨a, ha⟩ := Option.ne_none_iff_exists'.mp hsome
    obtain ⟨s, hs, hget⟩ := resolve_eq_some_iff.mp ha
    obtain ⟨hmem, hname⟩ := (h.indexed hs).get?_eq_some_iff.mp hget
    exact hlisted s hs a hmem hname

@[simp] theorem resolve_declare (c : Catalog) (declared : String) :
    (c.declare declared).resolve = c.resolve := by
  funext schema name
  show ((c.declare declared).schema? schema).bind _ = (c.schema? schema).bind _
  rw [schema?_declare]
  split
  · next h =>
    -- the schema is new, so it has no attributes
    rw [h.2]
    rfl
  · rfl

/-- **After an insertion the new attribute is found under its name on its schema**, and all else is
found as before. -/
theorem Built.resolve_insert {c : Catalog} (h : c.Built) (schema : String) (a : Attribute)
    (other name : String) : (c.insert schema a).resolve other name =
      if schema = other ∧ a.name = name then some a else c.resolve other name := by
  show ((c.insert schema a).schema? other).bind _ = (if _ then _ else (c.schema? other).bind _)
  rw [schema?_insert]
  by_cases hschema : schema = other
  · subst hschema
    rw [if_pos rfl, Option.bind_some]
    cases hs : c.schema? schema with
    | none => simp [Schema.indexed_empty.get?_insert]
    | some s => simp [(h.indexed hs).get?_insert]
  · rw [if_neg hschema, if_neg fun he => hschema he.1]

/-- A small catalog with a relation, to show the laws at. -/
def sample : Catalog :=
  Catalog.empty
    |>.insert "Resource" ⟨"id", .identifier true, none⟩
    |>.insert "Resource" ⟨"name", .text, none⟩
    |>.insert "Resource" ⟨"application", .identifier true, some "Application"⟩
    |>.insert "Application" ⟨"kind", .enumeration ["web", "=batch"], none⟩
    |>.insert "Application" ⟨"price", .decimal, none⟩

theorem built_sample : sample.Built :=
  .insert _ _ (.insert _ _ (.insert _ _ (.insert _ _ (.insert _ _ .empty))))

/-! ### Catalogs of documents -/

theorem Built.addSchema {c c' : Catalog} {schema : String}
    {declared : List (String × Declaration)} (hc : c.Built)
    (h : c.addSchema schema declared = .ok c') : c'.Built := by
  refine of_foldlM_eq_ok (fun c₀ d c₁ h₀ hstep => ?_) (hc.declare schema) h
  obtain ⟨a, -, ha⟩ := bind_eq_ok_iff.mp hstep
  cases ha
  exact h₀.insert schema a

/-- A catalog which declarations make is built. -/
theorem built_ofDeclarations {ds : Declarations} {c : Catalog} (h : ofDeclarations ds = .ok c) :
    c.Built := by
  obtain ⟨c₁, h₁, h⟩ := bind_eq_ok_iff.mp h
  obtain ⟨-, -, h⟩ := bind_eq_ok_iff.mp h
  cases h
  exact of_foldlM_eq_ok (fun _ _ _ h₀ hstep => h₀.addSchema hstep) .empty h₁

end Catalog

end QueryFilter
