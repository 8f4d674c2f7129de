import QueryFilter.Proofs.Catalog
import QueryFilter.Proofs.Params

/-!
# What a catalog owes to the steps which built it

A built catalog comes from the empty one by a list of steps (`built_iff_run`), and what is in it can
be read off the steps without running them. A schema is there if some step names it, and then it is
the schema which its own insertions make, whatever happens to the others in between (`schema?_run`):

    (run steps).schema? s = some (Schema.ofInsertions (insertions steps s)).

What insertions make shows them in two ways (`Schema.Reflects`), which look at different ones. The
names are listed in the order of their first insertions (`Schema.names_ofInsertions`), and the
attribute of a name is the last one inserted with it (`Schema.get?_ofInsertions`). Both are
inductions on the insertions from the end, where `Schema.Indexed` tells what one insertion does.
-/

namespace QueryFilter

/-! ### Insertions into one schema -/

namespace Schema

/-- The names of the attributes, in their order. -/
def names (s : Schema) : List String := s.toList.map Attribute.name

theorem Indexed.mem_names_iff {s : Schema} (h : s.Indexed) {name : String} :
    name ∈ s.names ↔ ∃ i, s.positions[name]? = some i := by
  rw [names, List.mem_map]
  constructor
  · intro ⟨a, ha, hname⟩
    obtain ⟨i, hi⟩ := Array.mem_iff_getElem?.mp (Array.mem_toList_iff.mp ha)
    exact ⟨i, (h name i).mpr ⟨a, hi, hname⟩⟩
  · intro ⟨i, hi⟩
    obtain ⟨a, ha, hname⟩ := (h name i).mp hi
    exact ⟨a, Array.mem_toList_iff.mpr (Array.mem_of_getElem? ha), hname⟩

/-- An insertion brings its name to the end, unless the name is there. -/
theorem Indexed.names_insert {s : Schema} (h : s.Indexed) (a : Attribute) :
    (s.insert a).names = if a.name ∈ s.names then s.names else s.names ++ [a.name] := by
  unfold Schema.insert
  split
  · next i hi =>
    rw [if_pos (h.mem_names_iff.mpr ⟨i, hi⟩)]
    obtain ⟨b, hb, hname⟩ := (h a.name i).mp hi
    obtain ⟨hlt, hget⟩ := Array.getElem?_eq_some_iff.mp hb
    have hlt' : i < s.names.length := by simpa [names, toList] using hlt
    have hat : s.names[i] = a.name := by simp [names, toList, hget, hname]
    calc (s.attributes.setIfInBounds i a).toList.map Attribute.name
        = s.names.set i a.name := by rw [Array.toList_setIfInBounds, List.map_set]; rfl
      _ = s.names := by rw [← hat, List.set_getElem_self]
  · next ha =>
    have hnew : a.name ∉ s.names := by
      intro hmem
      obtain ⟨i, hi⟩ := h.mem_names_iff.mp hmem
      rw [ha] at hi
      cases hi
    rw [if_neg hnew]
    simp [names, toList]

/-- With a right index, the attributes are those which their names lead to. -/
theorem Indexed.toList_eq {s : Schema} (h : s.Indexed) :
    s.toList = s.names.filterMap s.get? := by
  have hself : ∀ a ∈ s.toList, s.get? a.name = some a :=
    fun a ha => h.get?_eq_some_iff.mpr ⟨ha, rfl⟩
  rw [names, List.filterMap_map]
  calc s.toList = s.toList.filterMap some := (List.filterMap_some ..).symm
    _ = s.toList.filterMap (s.get? ∘ Attribute.name) :=
        List.filterMap_congr fun a ha => (hself a ha).symm

/-- The schema which insertions make of the empty one. -/
def ofInsertions (inserted : List Attribute) : Schema := inserted.foldl Schema.insert {}

@[simp] theorem ofInsertions_nil : ofInsertions [] = {} := rfl

@[simp] theorem ofInsertions_concat (inserted : List Attribute) (a : Attribute) :
    ofInsertions (inserted ++ [a]) = (ofInsertions inserted).insert a :=
  List.foldl_concat ..

@[simp] theorem indexed_ofInsertions (inserted : List Attribute) : (ofInsertions inserted).Indexed := by
  induction inserted using List.reverseRecOn with
  | nil => exact indexed_empty
  | append_singleton inserted a ih =>
    rw [ofInsertions_concat]
    exact ih.insert a

/-- **The names stand in the order of their first insertions**, each of them once. -/
@[simp] theorem names_ofInsertions (inserted : List Attribute) :
    (ofInsertions inserted).names = (inserted.map Attribute.name).eraseDups := by
  induction inserted using List.reverseRecOn with
  | nil => rfl
  | append_singleton inserted a ih =>
    rw [ofInsertions_concat, (indexed_ofInsertions inserted).names_insert, ih, List.map_append,
      List.map_singleton, eraseDups_concat]
    simp only [List.mem_eraseDups]

/-- **The attribute of a name is the last one which was inserted with it.** -/
@[simp] theorem get?_ofInsertions (inserted : List Attribute) (name : String) :
    (ofInsertions inserted).get? name = inserted.findRev? fun a => a.name = name := by
  induction inserted using List.reverseRecOn with
  | nil => rfl
  | append_singleton inserted a ih =>
    rw [ofInsertions_concat, (indexed_ofInsertions inserted).get?_insert, ih,
      List.findRev?_eq_find?_reverse, List.findRev?_eq_find?_reverse, List.reverse_concat,
      List.find?_cons]
    by_cases hname : a.name = name <;> simp [hname]

/-- What a schema shows of the attributes which were inserted into it, in this order: each name
once, where it came first, and under it what came last. -/
structure Reflects (s : Schema) (inserted : List Attribute) : Prop where
  nodup : s.names.Nodup
  names_eq : s.names = (inserted.map Attribute.name).eraseDups
  get?_eq : ∀ name, s.get? name = inserted.findRev? fun a => a.name = name
  toList_eq : s.toList = s.names.filterMap s.get?
  indexed : s.Indexed
  lt_size : ∀ (name : String) (i : Nat), s.positions[name]? = some i → i < s.attributes.size

/-- **Insertions make a schema which reflects them.** -/
theorem reflects_ofInsertions (inserted : List Attribute) :
    (ofInsertions inserted).Reflects inserted where
  nodup := by
    rw [names_ofInsertions]
    exact nodup_eraseDups _
  names_eq := names_ofInsertions inserted
  get?_eq := get?_ofInsertions inserted
  toList_eq := (indexed_ofInsertions inserted).toList_eq
  indexed := indexed_ofInsertions inserted
  lt_size _ _ := (indexed_ofInsertions inserted).lt_size

end Schema

/-! ### Steps on a catalog -/

namespace Catalog

/-- The steps which build a catalog: a schema is declared, or an attribute is inserted, whether in
place or in a catalog which is handed on. -/
inductive Step where
  | declare (schema : String)
  | insert (schema : String) (a : Attribute)
deriving DecidableEq

/-- The schema which a step names. -/
def Step.schema : Step → String
  | declare schema => schema
  | insert schema _ => schema

/-- The attribute which a step inserts into a schema. -/
def Step.inserted? (schema : String) : Step → Option Attribute
  | declare _ => none
  | insert named a => if named = schema then some a else none

/-- The catalog after one step more. -/
def apply (c : Catalog) : Step → Catalog
  | .declare schema => c.declare schema
  | .insert schema a => c.insert schema a

@[simp] theorem apply_declare (c : Catalog) (schema : String) :
    c.apply (.declare schema) = c.declare schema := rfl

@[simp] theorem apply_insert (c : Catalog) (schema : String) (a : Attribute) :
    c.apply (.insert schema a) = c.insert schema a := rfl

/-- The catalog after steps from the empty one. -/
def run (steps : List Step) : Catalog := steps.foldl apply empty

/-- The attributes which steps insert into a schema, in the order of the steps. -/
def insertions (steps : List Step) (schema : String) : List Attribute :=
  steps.filterMap (Step.inserted? schema)

@[simp] theorem run_nil : run [] = empty := rfl

@[simp] theorem run_concat (steps : List Step) (step : Step) :
    run (steps ++ [step]) = (run steps).apply step :=
  List.foldl_concat ..

@[simp] theorem insertions_nil (schema : String) : insertions [] schema = [] := rfl

@[simp] theorem insertions_concat (steps : List Step) (step : Step) (schema : String) :
    insertions (steps ++ [step]) schema =
      insertions steps schema ++ (step.inserted? schema).toList := by
  rw [insertions, List.filterMap_append]
  cases h : step.inserted? schema <;> simp [h, insertions]

/-- The built catalogs are those which steps lead to. -/
theorem built_iff_run {c : Catalog} : c.Built ↔ ∃ steps, run steps = c := by
  constructor
  · intro h
    induction h with
    | empty => exact ⟨[], rfl⟩
    | declare schema _ ih =>
      obtain ⟨steps, rfl⟩ := ih
      exact ⟨steps ++ [.declare schema], run_concat ..⟩
    | insert schema a _ ih =>
      obtain ⟨steps, rfl⟩ := ih
      exact ⟨steps ++ [.insert schema a], run_concat ..⟩
  · intro ⟨steps, hrun⟩
    subst hrun
    induction steps using List.reverseRecOn with
    | nil => exact .empty
    | append_singleton steps step ih =>
      rw [run_concat]
      cases step with
      | declare schema => exact ih.declare schema
      | insert schema a => exact ih.insert schema a

/-- **A step leaves every schema alone which it does not name.** -/
theorem schema?_apply_of_ne (c : Catalog) {step : Step} {schema : String}
    (h : step.schema ≠ schema) : (c.apply step).schema? schema = c.schema? schema := by
  cases step with
  | declare declared =>
    rw [apply_declare, schema?_declare, if_neg fun he => h he.1]
  | insert named a =>
    rw [apply_insert, schema?_insert]
    exact if_neg h

/-- A schema is there after a step if it was there or the step names it. -/
theorem isSome_schema?_apply (c : Catalog) (step : Step) (schema : String) :
    ((c.apply step).schema? schema).isSome ↔
      (c.schema? schema).isSome ∨ step.schema = schema := by
  by_cases hnamed : step.schema = schema
  · subst hnamed
    simp only [or_true, iff_true]
    cases step with
    | declare declared =>
      rw [Step.schema, apply_declare, schema?_declare]
      cases h : c.schema? declared <;> simp
    | insert named a =>
      rw [Step.schema, apply_insert, schema?_insert, if_pos rfl, Option.isSome_some]
  · rw [schema?_apply_of_ne c hnamed]
    simp [hnamed]

/-- To the attributes of a schema, a step adds the one which it inserts there. -/
theorem getD_schema?_apply (c : Catalog) (step : Step) (schema : String) :
    ((c.apply step).schema? schema).getD {} =
      let before := (c.schema? schema).getD {}
      (step.inserted? schema).elim before before.insert := by
  cases step with
  | declare declared =>
    show ((c.declare declared).schema? schema).getD {} = (c.schema? schema).getD {}
    rw [schema?_declare]
    split
    · next h => rw [h.2]; rfl
    · rfl
  | insert named a =>
    rw [apply_insert, schema?_insert, Step.inserted?]
    by_cases h : named = schema
    · subst h
      simp
    · simp [h]

theorem isSome_schema?_run (steps : List Step) (schema : String) :
    ((run steps).schema? schema).isSome ↔ ∃ step ∈ steps, step.schema = schema := by
  induction steps using List.reverseRecOn with
  | nil => simp
  | append_singleton steps step ih =>
    rw [run_concat, isSome_schema?_apply, ih]
    simp [or_and_right, exists_or]

theorem getD_schema?_run (steps : List Step) (schema : String) :
    ((run steps).schema? schema).getD {} = Schema.ofInsertions (insertions steps schema) := by
  induction steps using List.reverseRecOn with
  | nil => simp
  | append_singleton steps step ih =>
    rw [run_concat, getD_schema?_apply, ih, insertions_concat]
    cases step.inserted? schema with
    | none => rw [Option.elim_none, Option.toList_none, List.append_nil]
    | some a => rw [Option.elim_some, Option.toList_some, Schema.ofInsertions_concat]

/-- **A schema is there if a step names it, and its own insertions make it.** -/
theorem schema?_run (steps : List Step) (schema : String) :
    (run steps).schema? schema =
      if ∃ step ∈ steps, step.schema = schema then
        some (Schema.ofInsertions (insertions steps schema))
      else none := by
  rw [← getD_schema?_run]
  split
  · next h =>
    obtain ⟨s, hs⟩ := Option.isSome_iff_exists.mp ((isSome_schema?_run steps schema).mpr h)
    rw [hs, Option.getD_some]
  · next h =>
    rw [← isSome_schema?_run, Option.not_isSome_iff_eq_none] at h
    exact h

theorem resolve_run (steps : List Step) (schema name : String) :
    (run steps).resolve schema name =
      (insertions steps schema).findRev? fun a => a.name = name := by
  rw [← Schema.get?_ofInsertions, ← getD_schema?_run]
  show ((run steps).schema? schema).bind _ = _
  cases (run steps).schema? schema <;> rfl

theorem mem_names (c : Catalog) (schema : String) :
    schema ∈ c.names ↔ (c.schema? schema).isSome := by
  rw [names, Std.TreeMap.mem_keys, Std.TreeMap.mem_iff_isSome_getElem?, schema?]

/-- A declaration of a schema which is there changes nothing. -/
theorem declare_of_isSome {c : Catalog} {schema : String} (h : (c.schema? schema).isSome) :
    c.declare schema = c := by
  -- the tree itself stays, not only what it answers
  have hmem : c.schemas.inner.inner.contains schema = true :=
    Std.TreeMap.mem_iff_isSome_getElem?.mpr h
  show Catalog.mk (Std.TreeMap.mk (Std.DTreeMap.mk _ _)) = c
  congr 3
  dsimp only [Std.DTreeMap.Internal.Impl.insertIfNew]
  rw [if_pos hmem]

/-- **What steps build.** A schema is there exactly when a step names it, and it reflects what the
steps insert into it; so under a name stands what was inserted last with it. To declare a schema
again changes nothing, and a step changes no schema but the one which it names. -/
theorem run_reflects_steps (steps : List Step) :
    (∀ schema, (schema ∈ (run steps).names ↔ ∃ step ∈ steps, step.schema = schema) ∧
      (((run steps).schema? schema).isSome ↔ ∃ step ∈ steps, step.schema = schema)) ∧
    (∀ (schema : String) (s : Schema), (run steps).schema? schema = some s →
      s.Reflects (insertions steps schema)) ∧
    (∀ schema name, (run steps).resolve schema name =
      (insertions steps schema).findRev? fun a => a.name = name) ∧
    (∀ schema, (∃ step ∈ steps, step.schema = schema) →
      (run steps).declare schema = run steps) ∧
    ∀ (step : Step) (schema : String), step.schema ≠ schema →
      ((run steps).apply step).schema? schema = (run steps).schema? schema := by
  refine ⟨?declared, ?schemas, resolve_run steps, ?again, ?others⟩
  case declared =>
    intro schema
    rw [mem_names, isSome_schema?_run]
    exact ⟨Iff.rfl, Iff.rfl⟩
  case schemas =>
    intro schema s hs
    rw [schema?_run] at hs
    split at hs
    · cases hs
      exact Schema.reflects_ofInsertions _
    · cases hs
  case again =>
    intro schema h
    exact declare_of_isSome ((isSome_schema?_run steps schema).mpr h)
  case others =>
    intro step schema h
    exact schema?_apply_of_ne (run steps) h

/-- Steps which go back and forth between two schemas and replace an attribute. -/
def interleaved : List Step :=
  [.declare "Resource", .insert "Resource" ⟨"name", .text, none⟩,
    .insert "Application" ⟨"price", .decimal, none⟩,
    .insert "Resource" ⟨"id", .identifier true, none⟩, .declare "Resource",
    .insert "Resource" ⟨"name", .enumeration ["a"], none⟩]

theorem run_reflects_steps_interleaved :
    (∃ s, (run interleaved).schema? "Resource" = some s ∧ s.names = ["name", "id"] ∧
      s.get? "name" = some ⟨"name", .enumeration ["a"], none⟩) ∧
    (run interleaved).declare "Application" = run interleaved ∧
    ((run interleaved).apply (.insert "Application" ⟨"name", .text, none⟩)).schema? "Resource" =
      (run interleaved).schema? "Resource" := by
  obtain ⟨hdeclared, hschemas, -, hagain, hothers⟩ := run_reflects_steps interleaved
  have hsome : ((run interleaved).schema? "Resource").isSome :=
    (hdeclared "Resource").2.mpr ⟨.declare "Resource", by decide, rfl⟩
  obtain ⟨s, hs⟩ := Option.isSome_iff_exists.mp hsome
  have hnames : s.names = ["name", "id"] := (hschemas "Resource" s hs).names_eq.trans (by decide)
  have hlast : s.get? "name" = some ⟨"name", .enumeration ["a"], none⟩ :=
    ((hschemas "Resource" s hs).get?_eq "name").trans (by decide)
  refine ⟨⟨s, hs, hnames, hlast⟩, ?_, ?_⟩
  · exact hagain "Application" ⟨.insert "Application" ⟨"price", .decimal, none⟩, by decide, rfl⟩
  · exact hothers (.insert "Application" ⟨"name", .text, none⟩) "Resource" (by decide)

end Catalog

end QueryFilter
