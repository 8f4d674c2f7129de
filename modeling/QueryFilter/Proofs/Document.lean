import Mathlib.Data.List.Sort
import Mathlib.Data.String.Basic
import QueryFilter.Proofs.Construction
import QueryFilter.Proofs.Declaration
import QueryFilter.Proofs.Validity

/-!
# The catalog of a document

The declarations of a document are its sites, listed schema by schema and name by name
(`Catalog.sites`). Names are ordered by their code points, which is the order of their bytes as well.
A catalog comes of the sites in two passes. The first one reads the types (`Site.Reads`) and the
second one validates what was read (`Site.Checks`); each stops at its own first fault, and the second
one begins only when the first is through.

What the first pass makes is a run of steps in the sense of `Catalog.run`: it declares each schema
and then inserts what its sites say. No schema and no name of a schema comes twice, so the catalog
holds the sites as they stand (`toList_ofSchemas`), and validation meets them in the same order
(`fault?_schemasOf`).
-/

namespace QueryFilter

/-! ### Lists -/

theorem findSome?_flatMap {α β γ : Type} {f : β → Option γ} {items : α → List β} (xs : List α) :
    (xs.flatMap items).findSome? f = xs.findSome? fun x => (items x).findSome? f := by
  induction xs with
  | nil => rfl
  | cons x xs ih =>
    rw [List.flatMap_cons, List.findSome?_append, ih, List.findSome?_cons]
    cases (items x).findSome? f with
    | none => rfl
    | some y => rfl

/-- Lists which stand in the order of their names are equal if they have the same members. -/
theorem eq_of_ordered {β : Type} {l l' : List (String × β)} (h : l.Pairwise fun a b => a.1 < b.1)
    (h' : l'.Pairwise fun a b => a.1 < b.1) (hmem : ∀ x, x ∈ l ↔ x ∈ l') : l = l' := by
  have hnodup {m : List (String × β)} (hm : m.Pairwise fun a b => a.1 < b.1) : m.Nodup := by
    refine hm.imp ?_
    rintro a b hlt rfl
    exact lt_irrefl _ hlt
  have hantisymm : Std.Antisymm fun a b : String × β => a.1 < b.1 :=
    ⟨fun a b hab hba => absurd (hab.trans hba) (lt_irrefl _)⟩
  exact ((List.perm_ext_iff_of_nodup (hnodup h) (hnodup h')).mpr hmem).eq_of_pairwise' h h'

/-! ### Schemas whose names are all different -/

namespace Schema

theorem Indexed.toList_insert_of_not_mem {s : Schema} (h : s.Indexed) {a : Attribute}
    (ha : a.name ∉ s.names) : (s.insert a).toList = s.toList ++ [a] := by
  unfold Schema.insert
  split
  · next i hi => exact absurd (h.mem_names_iff.mpr ⟨i, hi⟩) ha
  · exact Array.toList_push ..

/-- Attributes of different names are listed as they were inserted. -/
theorem toList_ofInsertions {inserted : List Attribute}
    (h : (inserted.map Attribute.name).Nodup) : (ofInsertions inserted).toList = inserted := by
  induction inserted using List.reverseRecOn with
  | nil => rfl
  | append_singleton inserted a ih =>
    rw [List.map_append, List.nodup_append] at h
    have hnew : a.name ∉ (ofInsertions inserted).names := by
      rw [names, ih h.1]
      exact fun hmem => h.2.2 a.name hmem a.name (by simp) rfl
    rw [ofInsertions_concat, (indexed_ofInsertions inserted).toList_insert_of_not_mem hnew, ih h.1]

end Schema

namespace Catalog

/-! ### Sites -/

/-- A declaration where it stands in a document. -/
structure Site where
  schema : String
  name : String
  declaration : Declaration

/-- The sites of one schema, in the order of their names. -/
def sitesOf (schema : String) (declared : Std.TreeMap String Declaration) : List Site :=
  declared.toList.map fun entry => ⟨schema, entry.1, entry.2⟩

/-- The sites of a document, in the order of their schemas and of their names. -/
def sites (ds : Declarations) : List Site :=
  ds.toList.flatMap fun entry => sitesOf entry.1 entry.2

theorem mem_sitesOf {schema : String} {declared : Std.TreeMap String Declaration} {x : Site} :
    x ∈ sitesOf schema declared ↔
      x.schema = schema ∧ declared[x.name]? = some x.declaration := by
  rw [sitesOf, List.mem_map]
  constructor
  · rintro ⟨⟨name, d⟩, hmem, rfl⟩
    exact ⟨rfl, Std.TreeMap.mem_toList_iff_getElem?_eq_some.mp hmem⟩
  · rintro ⟨rfl, hd⟩
    exact ⟨(x.name, x.declaration), Std.TreeMap.mem_toList_iff_getElem?_eq_some.mpr hd, rfl⟩

theorem mem_sites {ds : Declarations} {x : Site} : x ∈ sites ds ↔
    ∃ declared, ds[x.schema]? = some declared ∧ declared[x.name]? = some x.declaration := by
  rw [sites, List.mem_flatMap]
  constructor
  · rintro ⟨⟨schema, declared⟩, hmem, hx⟩
    obtain ⟨rfl, hd⟩ := mem_sitesOf.mp hx
    exact ⟨declared, Std.TreeMap.mem_toList_iff_getElem?_eq_some.mp hmem, hd⟩
  · rintro ⟨declared, hs, hd⟩
    exact ⟨(x.schema, declared), Std.TreeMap.mem_toList_iff_getElem?_eq_some.mpr hs,
      mem_sitesOf.mpr ⟨rfl, hd⟩⟩

theorem lt_of_compare {a b : String} (h : compare a b = .lt) : a < b :=
  compareOfLessAndEq_eq_lt.mp h

theorem nodup_keys (declared : Std.TreeMap String Declaration) : declared.keys.Nodup := by
  refine Std.TreeMap.distinct_keys.imp ?_
  rintro a b hne rfl
  exact hne Std.compare_self

theorem ordered_sitesOf (schema : String) (declared : Std.TreeMap String Declaration) :
    (sitesOf schema declared).Pairwise fun x y => x.name < y.name := by
  rw [sitesOf, List.pairwise_map]
  exact Std.TreeMap.ordered_keys_toList.imp lt_of_compare

/-- **Sites stand in the order of their schemas**, and on one schema in the order of their names. -/
theorem ordered_sites (ds : Declarations) : (sites ds).Pairwise fun x y =>
    x.schema < y.schema ∨ x.schema = y.schema ∧ x.name < y.name := by
  rw [sites, List.pairwise_flatMap]
  constructor
  · rintro ⟨schema, declared⟩ -
    refine (ordered_sitesOf schema declared).imp_of_mem ?_
    intro x y hx hy hlt
    exact Or.inr ⟨(mem_sitesOf.mp hx).1.trans (mem_sitesOf.mp hy).1.symm, hlt⟩
  · refine Std.TreeMap.ordered_keys_toList.imp ?_
    intro a b hlt x hx y hy
    rw [(mem_sitesOf.mp hx).1, (mem_sitesOf.mp hy).1]
    exact Or.inl (lt_of_compare hlt)

/-! ### Reading the types -/

namespace Site

/-- The attribute which a site makes. -/
def convert (x : Site) : Except SchemaFault Attribute :=
  x.declaration.toAttribute x.schema x.name

/-- How the type of a site is read. -/
inductive Reads (x : Site) : Except SchemaFault Attribute → Prop
  | known {type : ValueType} : x.declaration.Declares type →
      Reads x (.ok ⟨x.name, type, x.declaration.target⟩)
  | unknown : (∀ name ∈ Declaration.typeNames, ¬ Declaration.Spells x.declaration.type name) →
      Reads x (.error (.unsupportedType x.schema x.name x.declaration.type))

theorem convert_eq_iff {x : Site} {r : Except SchemaFault Attribute} :
    x.convert = r ↔ x.Reads r := by
  unfold convert Declaration.toAttribute
  constructor
  · rintro rfl
    cases h : x.declaration.type? with
    | none => exact .unknown (Declaration.type?_eq_none_iff.mp h)
    | some type => exact .known (Declaration.type?_eq_some_iff.mp h)
  · intro h
    cases h with
    | known htype => rw [Declaration.type?_eq_some_iff.mpr htype]
    | unknown hnone => rw [Declaration.type?_eq_none_iff.mpr hnone]

theorem Reads.unique {x : Site} {a b : Attribute} (ha : x.Reads (.ok a)) (hb : x.Reads (.ok b)) :
    a = b := by
  rw [← convert_eq_iff] at ha hb
  exact Except.ok.inj (ha.symm.trans hb)

theorem Reads.name_eq {x : Site} {a : Attribute} (h : x.Reads (.ok a)) : a.name = x.name := by
  cases h
  rfl

end Site

/-! ### The first pass -/

/-- The steps which make a schema with attributes. -/
def stepsOf (schema : String) (as : List Attribute) : List Step :=
  .declare schema :: as.map (.insert schema)

/-- The catalog of schemas with their attributes. -/
def ofSchemas (schemas : List (String × List Attribute)) : Catalog :=
  run (schemas.flatMap fun entry => stepsOf entry.1 entry.2)

/-- A schema of a document with its attributes. -/
def readSchema (entry : String × Std.TreeMap String Declaration) :
    Except SchemaFault (String × List Attribute) :=
  ((sitesOf entry.1 entry.2).mapM Site.convert).map (entry.1, ·)

theorem addSchema_eq_map (c : Catalog) (entry : String × Std.TreeMap String Declaration) :
    c.addSchema entry.1 entry.2.toList =
      (readSchema entry).map fun made => (stepsOf made.1 made.2).foldl apply c := by
  have hstep (c : Catalog) (d : String × Declaration) :
      (do return c.insert entry.1 (← d.2.toAttribute entry.1 d.1)) =
        (Site.convert ⟨entry.1, d.1, d.2⟩).map (c.insert entry.1) := by
    rw [Site.convert]
    cases d.2.toAttribute entry.1 d.1 <;> rfl
  have hbody : c.addSchema entry.1 entry.2.toList = entry.2.toList.foldlM (fun c d => do
      return c.insert entry.1 (← d.2.toAttribute entry.1 d.1)) (c.declare entry.1) :=
    rfl
  have hsites : (sitesOf entry.1 entry.2).mapM Site.convert =
      entry.2.toList.mapM fun d => Site.convert ⟨entry.1, d.1, d.2⟩ := by
    simp only [sitesOf, List.mapM_map, Function.comp_def]
  rw [hbody, foldlM_eq_map_mapM hstep, readSchema, hsites]
  cases entry.2.toList.mapM fun d => Site.convert ⟨entry.1, d.1, d.2⟩ with
  | error f => rfl
  | ok as =>
    show Except.ok (as.foldl _ _) = Except.ok ((as.map _).foldl apply (c.declare entry.1))
    rw [List.foldl_map]
    rfl

/-- **Loading reads all schemas, and then validates the catalog which they make.** -/
theorem ofDeclarations_eq_bind (ds : Declarations) :
    ofDeclarations ds = ds.toList.mapM readSchema >>= fun schemas =>
      (ofSchemas schemas).validate.map fun _ => ofSchemas schemas := by
  have hpass : ds.toList.foldlM (fun c entry => c.addSchema entry.1 entry.2.toList) empty =
      (ds.toList.mapM readSchema).map ofSchemas := by
    rw [foldlM_eq_map_mapM addSchema_eq_map]
    congr 1
    funext schemas
    rw [ofSchemas, run, List.foldl_flatMap]
  show ds.toList.foldlM (fun c entry => c.addSchema entry.1 entry.2.toList) empty >>= _ = _
  rw [hpass]
  cases ds.toList.mapM readSchema with
  | error f => rfl
  | ok schemas =>
    show ((ofSchemas schemas).validate >>= fun _ => pure (ofSchemas schemas)) = Except.map _ _
    cases (ofSchemas schemas).validate <;> rfl

/-- The schemas are read as their sites are. -/
theorem mapM_sites (ds : Declarations) : (sites ds).mapM Site.convert =
    (ds.toList.mapM readSchema).map fun schemas => schemas.flatMap Prod.snd := by
  refine mapM_flatMap (fun entry => ?_) ds.toList
  rw [readSchema]
  cases (sitesOf entry.1 entry.2).mapM Site.convert <;> rfl

/-! ### The catalog which is read -/

/-- What the sites say, as the attributes which `read` makes of them. -/
def schemasOf (ds : Declarations) (read : Site → Attribute) : List (String × List Attribute) :=
  ds.toList.map fun entry => (entry.1, (sitesOf entry.1 entry.2).map read)

theorem mapM_readSchema {ds : Declarations} {read : Site → Attribute}
    (h : ∀ x ∈ sites ds, x.convert = .ok (read x)) :
    ds.toList.mapM readSchema = .ok (schemasOf ds read) := by
  rw [mapM_eq_ok_iff, schemasOf, List.forall₂_map_right_iff, List.forall₂_same]
  intro entry hentry
  have hsites : (sitesOf entry.1 entry.2).mapM Site.convert =
      .ok ((sitesOf entry.1 entry.2).map read) := by
    rw [mapM_eq_ok_iff, List.forall₂_map_right_iff, List.forall₂_same]
    intro x hx
    exact h x (List.mem_flatMap.mpr ⟨entry, hentry, hx⟩)
  rw [readSchema, hsites]
  rfl

/-- **The first pass** stops at the first site with an unknown type, or gives all sites a type. -/
theorem ofDeclarations_cases (ds : Declarations) :
    (∃ f, FirstFault Site.Reads (sites ds) f ∧ ofDeclarations ds = .error f) ∨
    ∃ read, (∀ x ∈ sites ds, x.Reads (.ok (read x))) ∧
      ofDeclarations ds = (ofSchemas (schemasOf ds read)).validate.map
        fun _ => ofSchemas (schemasOf ds read) := by
  rw [ofDeclarations_eq_bind]
  cases hsites : (sites ds).mapM Site.convert with
  | error f =>
    refine Or.inl ⟨f, (mapM_eq_iff fun _ _ _ => Site.convert_eq_iff).mp hsites, ?_⟩
    rw [mapM_sites] at hsites
    cases hrun : ds.toList.mapM readSchema with
    | error f' =>
      rw [hrun] at hsites
      cases hsites
      rfl
    | ok schemas =>
      rw [hrun] at hsites
      cases hsites
  | ok as =>
    have hsome : Nonempty Attribute := ⟨⟨"", .text, none⟩⟩
    obtain ⟨read, hread, -⟩ := mapM_eq_ok_iff_exists_map.mp hsites
    refine Or.inr ⟨read, fun x hx => Site.convert_eq_iff.mp (hread x hx), ?_⟩
    rw [mapM_readSchema hread]
    rfl

/-! ### What the catalog holds -/

theorem insertions_stepsOf (schema : String) (as : List Attribute) (name : String) :
    insertions (stepsOf schema as) name = if schema = name then as else [] := by
  have hdeclare : Step.inserted? name (.declare schema) = none := rfl
  rw [insertions, stepsOf, List.filterMap_cons_none hdeclare, List.filterMap_map]
  by_cases hname : schema = name
  · rw [if_pos hname]
    have hall : ∀ a ∈ as, (Step.inserted? name ∘ Step.insert schema) a = some a :=
      fun a _ => if_pos hname
    rw [List.filterMap_congr hall, List.filterMap_some]
  · rw [if_neg hname]
    exact List.filterMap_eq_nil_iff.mpr fun a _ => if_neg hname

section

variable {schemas : List (String × List Attribute)}

/-- Of schemas which stand in order, each one has its own insertions only. -/
theorem insertions_of_mem (hordered : schemas.Pairwise fun a b => a.1 < b.1) {name : String}
    {as : List Attribute} (hmem : (name, as) ∈ schemas) :
    insertions (schemas.flatMap fun entry => stepsOf entry.1 entry.2) name = as := by
  have hstep : insertions (schemas.flatMap fun entry => stepsOf entry.1 entry.2) name =
      schemas.flatMap fun entry => if entry.1 = name then entry.2 else [] := by
    rw [insertions, List.filterMap_flatMap]
    exact List.flatMap_congr fun entry _ => insertions_stepsOf entry.1 entry.2 name
  rw [hstep]
  clear hstep
  induction schemas with
  | nil => exact absurd hmem List.not_mem_nil
  | cons entry schemas ih =>
    rw [List.pairwise_cons] at hordered
    rw [List.flatMap_cons]
    rcases List.mem_cons.mp hmem with rfl | hmem
    · have hothers :
          (schemas.flatMap fun other => if other.1 = name then other.2 else []) = [] := by
        rw [List.flatMap_eq_nil_iff]
        intro other hother
        exact if_neg (hordered.1 other hother).ne'
      rw [if_pos rfl, hothers, List.append_nil]
    · rw [if_neg (hordered.1 _ hmem).ne, List.nil_append]
      exact ih hordered.2 hmem

theorem schema?_ofSchemas (hordered : schemas.Pairwise fun a b => a.1 < b.1) {name : String}
    {s : Schema} : (ofSchemas schemas).schema? name = some s ↔
      ∃ as, (name, as) ∈ schemas ∧ s = Schema.ofInsertions as := by
  have hnamed : (∃ step ∈ schemas.flatMap fun entry => stepsOf entry.1 entry.2,
      step.schema = name) ↔ ∃ as, (name, as) ∈ schemas := by
    simp only [List.mem_flatMap]
    constructor
    · rintro ⟨step, ⟨entry, hentry, hstep⟩, rfl⟩
      refine ⟨entry.2, ?_⟩
      rcases List.mem_cons.mp hstep with rfl | hstep
      · exact hentry
      · obtain ⟨a, -, rfl⟩ := List.mem_map.mp hstep
        exact hentry
    · rintro ⟨as, hmem⟩
      exact ⟨.declare name, ⟨(name, as), hmem, List.mem_cons_self⟩, rfl⟩
  rw [ofSchemas, schema?_run]
  by_cases h : ∃ as, (name, as) ∈ schemas
  · rw [if_pos (hnamed.mpr h)]
    obtain ⟨as, hmem⟩ := h
    rw [insertions_of_mem hordered hmem]
    constructor
    · intro heq
      exact ⟨as, hmem, (Option.some.inj heq).symm⟩
    · rintro ⟨as', hmem', rfl⟩
      rw [← insertions_of_mem hordered hmem, ← insertions_of_mem hordered hmem']
  · rw [if_neg fun hstep => h (hnamed.mp hstep)]
    refine iff_of_false (by simp) ?_
    rintro ⟨as, hmem, -⟩
    exact h ⟨as, hmem⟩

/-- **The catalog holds the schemas as they stand.** -/
theorem toList_ofSchemas (hordered : schemas.Pairwise fun a b => a.1 < b.1)
    (hnames : ∀ entry ∈ schemas, (entry.2.map Attribute.name).Nodup) :
    (ofSchemas schemas).toList.map (fun entry => (entry.1, entry.2.toList)) = schemas := by
  refine eq_of_ordered ?_ hordered ?_
  · rw [List.pairwise_map]
    exact Std.TreeMap.ordered_keys_toList.imp lt_of_compare
  · rintro ⟨name, as⟩
    rw [List.mem_map]
    constructor
    · rintro ⟨entry, hmem, heq⟩
      have hs : (ofSchemas schemas).schema? entry.1 = some entry.2 :=
        Std.TreeMap.mem_toList_iff_getElem?_eq_some.mp hmem
      obtain ⟨inserted, hinserted, heq'⟩ := (schema?_ofSchemas hordered).mp hs
      rw [heq', Schema.toList_ofInsertions (hnames _ hinserted)] at heq
      exact heq ▸ hinserted
    · intro hmem
      have hs : (ofSchemas schemas).schema? name = some (Schema.ofInsertions as) :=
        (schema?_ofSchemas hordered).mpr ⟨as, hmem, rfl⟩
      refine ⟨(name, Schema.ofInsertions as), ?_, ?_⟩
      · exact Std.TreeMap.mem_toList_iff_getElem?_eq_some.mpr hs
      · rw [Schema.toList_ofInsertions (hnames _ hmem)]

end

section

variable {ds : Declarations} {read : Site → Attribute}
  (hread : ∀ x ∈ sites ds, x.Reads (.ok (read x)))

theorem ordered_schemasOf (ds : Declarations) (read : Site → Attribute) :
    (schemasOf ds read).Pairwise fun a b => a.1 < b.1 := by
  rw [schemasOf, List.pairwise_map]
  exact Std.TreeMap.ordered_keys_toList.imp lt_of_compare

/-- The schemas are those which the document declares, with what their sites say. -/
theorem schema?_schemasOf {name : String} {s : Schema} :
    (ofSchemas (schemasOf ds read)).schema? name = some s ↔ ∃ declared,
      ds[name]? = some declared ∧ s = Schema.ofInsertions ((sitesOf name declared).map read) := by
  rw [schema?_ofSchemas (ordered_schemasOf ds read)]
  constructor
  · rintro ⟨as, hmem, rfl⟩
    obtain ⟨⟨name, declared⟩, hentry, heq⟩ := List.mem_map.mp hmem
    cases heq
    exact ⟨declared, Std.TreeMap.mem_toList_iff_getElem?_eq_some.mp hentry, rfl⟩
  · rintro ⟨declared, hs, rfl⟩
    exact ⟨_, List.mem_map.mpr
      ⟨(name, declared), Std.TreeMap.mem_toList_iff_getElem?_eq_some.mpr hs, rfl⟩, rfl⟩

theorem exists_schema?_iff {name : String} :
    (∃ s, (ofSchemas (schemasOf ds read)).schema? name = some s) ↔ name ∈ ds := by
  rw [Std.TreeMap.mem_iff_isSome_getElem?, Option.isSome_iff_exists]
  simp only [schema?_schemasOf]
  constructor
  · rintro ⟨s, declared, hs, -⟩
    exact ⟨declared, hs⟩
  · rintro ⟨declared, hs⟩
    exact ⟨_, declared, hs, rfl⟩

include hread

theorem map_name_sitesOf {schema : String} {declared : Std.TreeMap String Declaration}
    (hs : ds[schema]? = some declared) :
    ((sitesOf schema declared).map read).map Attribute.name = declared.keys := by
  rw [← Std.TreeMap.map_fst_toList_eq_keys, sitesOf, List.map_map, List.map_map]
  refine List.map_congr_left fun entry hentry => ?_
  have hsite : (⟨schema, entry.1, entry.2⟩ : Site) ∈ sites ds :=
    mem_sites.mpr ⟨declared, hs, Std.TreeMap.mem_toList_iff_getElem?_eq_some.mp hentry⟩
  exact (hread _ hsite).name_eq

theorem toList_schemasOf :
    (ofSchemas (schemasOf ds read)).toList.map (fun entry => (entry.1, entry.2.toList)) =
      schemasOf ds read := by
  refine toList_ofSchemas (ordered_schemasOf ds read) ?_
  intro entry hentry
  obtain ⟨⟨schema, declared⟩, hmem, rfl⟩ := List.mem_map.mp hentry
  rw [map_name_sitesOf hread (Std.TreeMap.mem_toList_iff_getElem?_eq_some.mp hmem)]
  exact nodup_keys declared

/-- **Validation meets the sites in their order.** -/
theorem fault?_schemasOf : (ofSchemas (schemasOf ds read)).fault? = (sites ds).findSome? fun x =>
    (ofSchemas (schemasOf ds read)).attributeFault? x.schema (read x) := by
  let faultOf := (ofSchemas (schemasOf ds read)).attributeFault?
  calc (ofSchemas (schemasOf ds read)).fault?
      = ((ofSchemas (schemasOf ds read)).toList.map fun entry =>
          (entry.1, entry.2.toList)).findSome? fun entry =>
            entry.2.findSome? (faultOf entry.1) := by
        rw [List.findSome?_map]
        rfl
    _ = ds.toList.findSome? fun entry => ((sitesOf entry.1 entry.2).map read).findSome?
          (faultOf entry.1) := by
        rw [toList_schemasOf hread, schemasOf, List.findSome?_map]
        rfl
    _ = ds.toList.findSome? fun entry => (sitesOf entry.1 entry.2).findSome? fun x =>
          faultOf x.schema (read x) := by
        simp only [sitesOf, List.findSome?_map]
        rfl
    _ = (sites ds).findSome? fun x => faultOf x.schema (read x) := (findSome?_flatMap _).symm

end

/-! ### The second pass -/

namespace Site

/-- A site which names the type of enumerations. -/
def Enumerates (x : Site) : Prop :=
  ∃ name ∈ ["enumeration", "enum"], Declaration.Spells x.declaration.type name

/-- A site of a document which can be loaded. -/
structure WellFormed (ds : Declarations) (x : Site) : Prop where
  known : ∃ name ∈ Declaration.typeNames, Declaration.Spells x.declaration.type name
  addressable : Addressable x.name
  hasMembers : x.Enumerates → x.declaration.members ≠ []
  declared : ∀ target, x.declaration.target = some target → target ∈ ds

/-- How a site is validated: its name, then its members, then its target. -/
inductive Checks (ds : Declarations) (x : Site) : Except SchemaFault Unit → Prop
  | wellFormed : x.WellFormed ds → Checks ds x (.ok ())
  | name : ¬ Addressable x.name → Checks ds x (.error (.invalidAttributeName x.schema x.name))
  | members : Addressable x.name → x.Enumerates → x.declaration.members = [] →
      Checks ds x (.error (.emptyEnumeration x.schema x.name))
  | target {target : String} : Addressable x.name → (x.Enumerates → x.declaration.members ≠ []) →
      x.declaration.target = some target → target ∉ ds →
      Checks ds x (.error (.unknownRelationTarget x.schema x.name target))

theorem exists_reads_iff {x : Site} : (∃ a, x.Reads (.ok a)) ↔
    ∃ name ∈ Declaration.typeNames, Declaration.Spells x.declaration.type name := by
  rw [← Declaration.exists_declares_iff]
  constructor
  · rintro ⟨a, h⟩
    cases h with
    | known htype => exact ⟨_, htype⟩
  · rintro ⟨type, htype⟩
    exact ⟨_, .known htype⟩

/-- An enumeration without members is what a site of this type without members declares. -/
theorem eq_enumeration_nil_iff {x : Site} {type : ValueType} (h : x.declaration.Declares type) :
    type = .enumeration [] ↔ x.Enumerates ∧ x.declaration.members = [] := by
  constructor
  · intro htype
    cases h with
    | enumeration hname hs => exact ⟨⟨_, hname, hs⟩, ValueType.enumeration.inj htype⟩
    | _ => cases htype
  · rintro ⟨⟨name, hname, hs⟩, hmembers⟩
    have heq := (Declaration.type?_eq_some_iff.mpr h).symm.trans
      (Declaration.type?_eq_some_iff.mpr (.enumeration hname hs))
    rw [Option.some.inj heq, hmembers]

theorem exists_checks_iff {ds : Declarations} {x : Site} :
    (∃ u, x.Checks ds (.ok u)) ↔ x.WellFormed ds := by
  constructor
  · rintro ⟨u, h⟩
    cases h with
    | wellFormed h => exact h
  · intro h
    exact ⟨(), .wellFormed h⟩

section

variable {ds : Declarations} {c : Catalog} {x : Site} {a : Attribute}
  (hc : ∀ {name : String}, (∃ s, c.schema? name = some s) ↔ name ∈ ds) (ha : x.Reads (.ok a))

include hc ha

theorem valid_iff_wellFormed : a.Valid c ↔ x.WellFormed ds := by
  cases ha with
  | known htype =>
    constructor
    · rintro ⟨haddress, hmembers, hdeclared⟩
      refine ⟨exists_reads_iff.mp ⟨_, .known htype⟩, haddress, ?_, ?_⟩
      · intro henum hnil
        exact hmembers ((eq_enumeration_nil_iff htype).mpr ⟨henum, hnil⟩)
      · intro target htarget
        exact hc.mp (hdeclared target htarget)
    · rintro ⟨-, haddress, hmembers, hdeclared⟩
      refine ⟨haddress, ?_, ?_⟩
      · intro hnil
        obtain ⟨henum, hnil⟩ := (eq_enumeration_nil_iff htype).mp hnil
        exact hmembers henum hnil
      · intro target htarget
        exact hc.mpr (hdeclared target htarget)

theorem attributeFault?_eq_some_iff {f : SchemaFault} :
    c.attributeFault? x.schema a = some f ↔ x.Checks ds (.error f) := by
  have hnone {target : String} : c.schema? target = none ↔ target ∉ ds := by
    rw [← hc, ← Option.ne_none_iff_exists', not_not]
  cases ha with
  | @known type htype =>
    constructor
    · intro h
      by_cases haddress : Addressable x.name
      · have htrue := isAddressable_iff.mpr haddress
        by_cases hnil : type = .enumeration []
        · obtain ⟨henum, hmembers⟩ := (eq_enumeration_nil_iff htype).mp hnil
          simp only [attributeFault?, htrue, hnil, Bool.not_true, Bool.false_eq_true, if_false,
            if_true, Option.some.injEq] at h
          exact h ▸ .members haddress henum hmembers
        · have hmembers : x.Enumerates → x.declaration.members ≠ [] := fun henum hmembers =>
            hnil ((eq_enumeration_nil_iff htype).mpr ⟨henum, hmembers⟩)
          cases htarget : x.declaration.target with
          | none => simp [attributeFault?, htrue, hnil, htarget] at h
          | some target =>
            simp only [attributeFault?, htrue, hnil, htarget, Bool.not_true, Bool.false_eq_true,
              if_false, Option.isNone_iff_eq_none, hnone] at h
            by_cases hmem : target ∈ ds
            · simp [hmem] at h
            · rw [if_pos hmem] at h
              exact Option.some.inj h ▸ .target haddress hmembers htarget hmem
      · have hfalse := mt isAddressable_iff.mp haddress
        simp only [attributeFault?, hfalse, Bool.not_false, if_true, Option.some.injEq] at h
        exact h ▸ .name haddress
    · intro h
      cases h with
      | name hname => simp [attributeFault?, mt isAddressable_iff.mp hname]
      | members haddress henum hmembers =>
        have hnil := (eq_enumeration_nil_iff htype).mpr ⟨henum, hmembers⟩
        simp [attributeFault?, isAddressable_iff.mpr haddress, hnil]
      | target haddress hmembers htarget hmem =>
        have hnil : type ≠ .enumeration [] := fun hnil =>
          hmembers ((eq_enumeration_nil_iff htype).mp hnil).1
            ((eq_enumeration_nil_iff htype).mp hnil).2
        simp [attributeFault?, isAddressable_iff.mpr haddress, hnil, htarget, hnone, hmem]

end

end Site

/-! ### Loading -/

section

variable {ds : Declarations}

theorem validate_eq_error_iff {c : Catalog} {f : SchemaFault} :
    c.validate = .error f ↔ c.fault? = some f := by
  unfold validate
  cases c.fault? <;> simp

theorem mapM_convert_eq_error_iff {f : SchemaFault} :
    (sites ds).mapM Site.convert = .error f ↔ FirstFault Site.Reads (sites ds) f :=
  mapM_eq_iff fun _ _ _ => Site.convert_eq_iff

theorem not_firstFault_reads (h : ∀ x ∈ sites ds, ∃ a, x.Reads (.ok a)) (f : SchemaFault) :
    ¬ FirstFault Site.Reads (sites ds) f := by
  intro hfirst
  have hrun := mapM_convert_eq_error_iff.mpr hfirst
  obtain ⟨as, has⟩ := exists_mapM_eq_ok fun x hx =>
    (h x hx).imp fun a ha => Site.convert_eq_iff.mpr ha
  rw [hrun] at has
  cases has

/-- **The fault of a document** is its first unknown type, or else the first fault of validation. -/
theorem ofDeclarations_eq_error_iff {f : SchemaFault} :
    ofDeclarations ds = .error f ↔ FirstFault Site.Reads (sites ds) f ∨
      (∀ x ∈ sites ds, ∃ a, x.Reads (.ok a)) ∧ FirstFault (Site.Checks ds) (sites ds) f := by
  have hunique {f' : SchemaFault} (hf : FirstFault Site.Reads (sites ds) f)
      (hf' : FirstFault Site.Reads (sites ds) f') : f' = f := by
    rw [← mapM_convert_eq_error_iff] at hf hf'
    exact Except.error.inj (hf'.symm.trans hf)
  rcases ofDeclarations_cases ds with ⟨f', hf', h⟩ | ⟨read, hread, h⟩
  · rw [h]
    constructor
    · intro heq
      cases heq
      exact Or.inl hf'
    · rintro (hf | ⟨hknown, -⟩)
      · rw [hunique hf hf']
      · exact absurd hf' (not_firstFault_reads hknown f')
  · have hknown : ∀ x ∈ sites ds, ∃ a, x.Reads (.ok a) := fun x hx => ⟨read x, hread x hx⟩
    have hvalidate : ofDeclarations ds = .error f ↔
        (ofSchemas (schemasOf ds read)).validate = .error f := by
      rw [h]
      cases (ofSchemas (schemasOf ds read)).validate <;> simp
    rw [hvalidate, validate_eq_error_iff, fault?_schemasOf hread, List.findSome?_eq_some_iff,
      or_iff_right (not_firstFault_reads hknown f), and_iff_right hknown]
    refine exists_congr fun before => exists_congr fun x => exists_congr fun after =>
      and_congr_right fun hsites => ?_
    have hmem (y : Site) (hy : y ∈ before ∨ y = x) : y.Reads (.ok (read y)) := by
      refine hread y ?_
      rw [hsites, List.mem_append, List.mem_cons]
      exact hy.imp_right Or.inl
    rw [Site.attributeFault?_eq_some_iff exists_schema?_iff (hmem x (Or.inr rfl)), and_comm]
    refine and_congr_left' (forall_congr' fun y => forall_congr' fun hy => ?_)
    rw [attributeFault?_eq_none_iff, Site.exists_checks_iff]
    exact Site.valid_iff_wellFormed exists_schema?_iff (hmem y (Or.inl hy))

/-- **The documents which can be loaded** are those whose sites are all well-formed. -/
theorem exists_ofDeclarations_iff :
    (∃ c, ofDeclarations ds = .ok c) ↔ ∀ x ∈ sites ds, x.WellFormed ds := by
  rcases ofDeclarations_cases ds with ⟨f, hf, h⟩ | ⟨read, hread, h⟩
  · rw [h]
    refine iff_of_false (by simp) fun hwell => ?_
    exact not_firstFault_reads (fun x hx => Site.exists_reads_iff.mpr (hwell x hx).known) f hf
  · have hvalidate : (∃ c, ofDeclarations ds = .ok c) ↔
        (ofSchemas (schemasOf ds read)).fault? = none := by
      rw [h, validate]
      cases (ofSchemas (schemasOf ds read)).fault? <;> simp
    rw [hvalidate, fault?_schemasOf hread, List.findSome?_eq_none_iff]
    refine forall_congr' fun x => forall_congr' fun hx => ?_
    rw [attributeFault?_eq_none_iff]
    exact Site.valid_iff_wellFormed exists_schema?_iff (hread x hx)

/-- What a loaded catalog shows of the document: its schemas, and on each of them the attributes
which its sites make, listed in the order of their names and found under them. -/
structure Shows (c : Catalog) (ds : Declarations) : Prop where
  names_eq : c.names = ds.keys
  listed : ∀ schema declared, ds[schema]? = some declared → ∃ s, c.schema? schema = some s ∧
    List.Forall₂ (fun x a => x.Reads (.ok a)) (sitesOf schema declared) s.toList
  ordered : ∀ schema s, c.schema? schema = some s → s.names.Pairwise (· < ·)
  resolve_iff : ∀ schema name a, c.resolve schema name = some a ↔
    ∃ x ∈ sites ds, x.schema = schema ∧ x.name = name ∧ x.Reads (.ok a)

section

variable {read : Site → Attribute} (hread : ∀ x ∈ sites ds, x.Reads (.ok (read x)))

include hread

theorem toList_schema {schema : String} {declared : Std.TreeMap String Declaration}
    (hs : ds[schema]? = some declared) :
    (Schema.ofInsertions ((sitesOf schema declared).map read)).toList =
      (sitesOf schema declared).map read := by
  refine Schema.toList_ofInsertions ?_
  rw [map_name_sitesOf hread hs]
  exact nodup_keys declared

theorem names_schemasOf : (ofSchemas (schemasOf ds read)).names = ds.keys := by
  have hlist := congrArg (List.map Prod.fst) (toList_schemasOf hread)
  rw [schemasOf, List.map_map, List.map_map] at hlist
  rw [names, ← Std.TreeMap.map_fst_toList_eq_keys, ← Std.TreeMap.map_fst_toList_eq_keys]
  exact hlist

theorem resolve_schemasOf_iff {schema name : String} {a : Attribute} :
    (ofSchemas (schemasOf ds read)).resolve schema name = some a ↔
      ∃ x ∈ sites ds, x.schema = schema ∧ x.name = name ∧ x.Reads (.ok a) := by
  rw [resolve_eq_some_iff]
  constructor
  · rintro ⟨s, hs, hget⟩
    obtain ⟨declared, hdeclared, rfl⟩ := schema?_schemasOf.mp hs
    obtain ⟨ha, rfl⟩ := (Schema.indexed_ofInsertions _).get?_eq_some_iff.mp hget
    rw [toList_schema hread hdeclared] at ha
    obtain ⟨x, hx, rfl⟩ := List.mem_map.mp ha
    obtain ⟨rfl, hd⟩ := mem_sitesOf.mp hx
    have hsite : x ∈ sites ds := mem_sites.mpr ⟨declared, hdeclared, hd⟩
    exact ⟨x, hsite, rfl, (hread x hsite).name_eq.symm, hread x hsite⟩
  · rintro ⟨x, hx, rfl, rfl, ha⟩
    obtain ⟨declared, hdeclared, hd⟩ := mem_sites.mp hx
    have heq : read x = a := (hread x hx).unique ha
    refine ⟨_, schema?_schemasOf.mpr ⟨declared, hdeclared, rfl⟩, ?_⟩
    rw [(Schema.indexed_ofInsertions _).get?_eq_some_iff, toList_schema hread hdeclared]
    exact ⟨List.mem_map.mpr ⟨x, mem_sitesOf.mpr ⟨rfl, hd⟩, heq⟩, ha.name_eq⟩

theorem shows_schemasOf : (ofSchemas (schemasOf ds read)).Shows ds where
  names_eq := names_schemasOf hread
  listed := by
    intro schema declared hdeclared
    refine ⟨_, schema?_schemasOf.mpr ⟨declared, hdeclared, rfl⟩, ?_⟩
    rw [toList_schema hread hdeclared, List.forall₂_map_right_iff, List.forall₂_same]
    intro x hx
    obtain ⟨rfl, hd⟩ := mem_sitesOf.mp hx
    exact hread x (mem_sites.mpr ⟨declared, hdeclared, hd⟩)
  ordered := by
    intro schema s hs
    obtain ⟨declared, hdeclared, rfl⟩ := schema?_schemasOf.mp hs
    rw [Schema.names, toList_schema hread hdeclared, map_name_sitesOf hread hdeclared]
    exact Std.TreeMap.ordered_keys.imp lt_of_compare
  resolve_iff _ _ _ := resolve_schemasOf_iff hread

end

/-- **A loaded catalog shows its document.** -/
theorem shows_of_ofDeclarations {c : Catalog} (h : ofDeclarations ds = .ok c) : c.Shows ds := by
  rcases ofDeclarations_cases ds with ⟨f, -, hload⟩ | ⟨read, hread, hload⟩
  · rw [h] at hload
    cases hload
  · rw [h] at hload
    cases hvalid : (ofSchemas (schemasOf ds read)).validate with
    | error f =>
      rw [hvalid] at hload
      cases hload
    | ok u =>
      rw [hvalid] at hload
      cases hload
      exact shows_schemasOf hread

end

/-- **A document is loaded exactly if all its sites are well-formed, and else its fault is
determined.** What is loaded shows the document. The fault is the first unknown type of all; if all
types are known, it is the first fault of a name, of members or of a target. First is what comes
first in the order of the schemas and, on one schema, of the names. -/
theorem loads_exactly_wellFormed (ds : Declarations) :
    ((∃ c, ofDeclarations ds = .ok c) ↔ ∀ x ∈ sites ds, x.WellFormed ds) ∧
    (∀ c, ofDeclarations ds = .ok c → c.Shows ds) ∧
    (∀ f, ofDeclarations ds = .error f ↔ FirstFault Site.Reads (sites ds) f ∨
      (∀ x ∈ sites ds, ∃ a, x.Reads (.ok a)) ∧ FirstFault (Site.Checks ds) (sites ds) f) ∧
    (∀ x, x ∈ sites ds ↔
      ∃ declared, ds[x.schema]? = some declared ∧ declared[x.name]? = some x.declaration) ∧
    ((sites ds).Pairwise fun x y =>
      x.schema < y.schema ∨ x.schema = y.schema ∧ x.name < y.name) ∧
    ∀ text, (Toml.read? text).bind declarations? = some ds →
      ofDocument text = ofDeclarations ds := by
  refine ⟨exists_ofDeclarations_iff, fun c => shows_of_ofDeclarations,
    fun f => ofDeclarations_eq_error_iff, fun x => mem_sites, ordered_sites ds, ?_⟩
  intro text h
  delta ofDocument
  rw [h]

/-- The declarations of schemas which are given in any order. -/
def declarationsOf (schemas : List (String × List (String × Declaration))) : Declarations :=
  Std.TreeMap.ofList (schemas.map fun schema => (schema.1, Std.TreeMap.ofList schema.2))

/-- The law at two schemas which point at each other and one of which points at itself, and at two
documents with several faults: an unknown type behind an empty enumeration whose name has a point,
and the same enumeration before a target which is not declared. -/
theorem loads_exactly_wellFormed_mutual :
    let ds := declarationsOf [("User", [("home", ⟨"id", some "Node", [], none⟩)]),
      ("Node", [("next", ⟨"id", some "Node", [], none⟩), ("name", ⟨" Text", none, [], none⟩),
        ("owner", ⟨"id", some "User", [], none⟩)])]
    let unknown := declarationsOf
      [("Node", [("a.b", ⟨"enum", none, [], none⟩), ("c", ⟨"colour", none, [], none⟩)])]
    let faulty := declarationsOf [("User", [("home", ⟨"id", some "Nodes", [], none⟩)]),
      ("Node", [("a.b", ⟨"enum", none, [], none⟩)])]
    let text := "schemas.A.b = 'id'"
    (∃ c, ofDeclarations ds = .ok c ∧ (∀ x ∈ sites ds, x.WellFormed ds) ∧ c.Shows ds ∧
      c.resolve "Node" "name" = some ⟨"name", .text, none⟩) ∧
    (ofDeclarations unknown = .error (.unsupportedType "Node" "c" "colour") ∧
      FirstFault Site.Reads (sites unknown) (.unsupportedType "Node" "c" "colour")) ∧
    (ofDeclarations faulty = .error (.invalidAttributeName "Node" "a.b") ∧
      FirstFault (Site.Checks faulty) (sites faulty) (.invalidAttributeName "Node" "a.b")) ∧
    ofDocument text = ofDeclarations (declarationsOf [("A", [("b", ⟨"id", none, [], none⟩)])]) := by
  intro ds unknown faulty text
  obtain ⟨hloads, hshows, -, hsite, -, -⟩ := loads_exactly_wellFormed ds
  refine ⟨?loaded, ?unknown, ?faulty, ?text⟩
  case loaded =>
    obtain ⟨c, hc⟩ : ∃ c, ofDeclarations ds = .ok c := ⟨_, rfl⟩
    have hname : (⟨"Node", "name", ⟨" Text", none, [], none⟩⟩ : Site) ∈ sites ds :=
      (hsite _).mpr ⟨_, rfl, rfl⟩
    have hspells : Declaration.Spells " Text" "text" :=
      (Declaration.normalName_eq_iff_of_mem (by simp)).mp rfl
    refine ⟨c, hc, hloads.mp ⟨c, hc⟩, hshows c hc, ?_⟩
    rw [(hshows c hc).resolve_iff]
    exact ⟨_, hname, rfl, rfl, .known (.text (by simp) hspells)⟩
  case unknown =>
    obtain ⟨-, -, hfault, -⟩ := loads_exactly_wellFormed unknown
    have herror : ofDeclarations unknown = .error (.unsupportedType "Node" "c" "colour") := rfl
    refine ⟨herror, ?_⟩
    rcases (hfault _).mp herror with hfirst | ⟨-, before, x, after, -, -, hchecks⟩
    · exact hfirst
    · cases hchecks
  case faulty =>
    obtain ⟨-, -, hfault, -⟩ := loads_exactly_wellFormed faulty
    have herror : ofDeclarations faulty = .error (.invalidAttributeName "Node" "a.b") := rfl
    refine ⟨herror, ?_⟩
    rcases (hfault _).mp herror with ⟨before, x, after, -, -, hreads⟩ | ⟨-, hfirst⟩
    · cases hreads
    · exact hfirst
  case text =>
    obtain ⟨-, -, -, -, -, htext⟩ :=
      loads_exactly_wellFormed (declarationsOf [("A", [("b", ⟨"id", none, [], none⟩)])])
    have hread : Toml.read? text =
        some (.record [("schemas", .record [("A", .record [("b", .text "id")])])]) := by
      decide +kernel
    refine htext text ?_
    rw [hread]
    rfl

end Catalog

end QueryFilter
