import QueryFilter.Path
import QueryFilter.Proofs.Catalog

/-!
# Which paths resolve

`Path.resolve` walks through the segments of a path and carries along the place where it stands.
Here its answers are described by positions instead. `Path.Names` says that each segment is not
empty and names the attribute of its position, where the schema to look in is the root for the first
segment and the target of the attribute before it for the others. `Path.Refused` lists the faults:
the first position which does not go on decides, and at one position an empty segment comes before
an attribute without a target, and this before a name which is not found.

* `walk_eq_ok_iff`, `walk_eq_error_iff`: one walk, from any place.
* `resolve_eq_ok_iff`, `resolve_eq_error_iff`: the chains and the faults of a path.
* `path_of_names`: in a built catalog a chain spells the path which it came from.
* `resolve_exact`: all of this in one statement.
-/

namespace QueryFilter

namespace Path

/-! ### Segments -/

@[simp] theorem segments_ne_nil (path : String) : segments path ≠ [] :=
  Text.split_ne_nil '.' path

/-- The segments joined by points are the path. -/
@[simp] theorem intercalate_segments (path : String) : ".".intercalate (segments path) = path :=
  Text.intercalate_split '.' path

/-! ### The relation -/

/-- The schema in which the segment of a position is looked up: the start for the first segment, and
the target of the attribute before it for the others. -/
def schemaAt (start : Option String) (chain : Chain) : Nat → Option String
  | 0 => start
  | i + 1 => chain[i]?.bind Attribute.target

/-- The segments name the attributes of a chain, position by position. -/
structure Names (lookup : Lookup) (start : Option String) (segments : List String)
    (chain : Chain) : Prop where
  length_eq : chain.length = segments.length
  found : ∀ (i : Nat) (s : String), segments[i]? = some s → s ≠ "" ∧
    ∃ schema a, schemaAt start chain i = some schema ∧ chain[i]? = some a ∧
      lookup schema s = some a

/-- A chain may end here: at an attribute which is no relation, or at an identifier. -/
def EndsComparable (chain : Chain) : Prop :=
  ∃ last, chain.getLast? = some last ∧
    (last.target = none ∨ ∃ numeric, last.type = .identifier numeric)

/-- The faults of a path. In the first three the segments before `s` name a chain and `s` does not
go on from there; the last one comes when all segments name a chain. -/
inductive Refused (lookup : Lookup) (root path : String) : QueryFault → Prop
  | emptySegment {before after : List String} {chain : Chain} :
      segments path = before ++ "" :: after → Names lookup (some root) before chain →
      Refused lookup root path (.malformedPath path .emptySegment)
  | notTraversable {before after : List String} {s : String} {chain : Chain} {last : Attribute} :
      segments path = before ++ s :: after → Names lookup (some root) before chain → s ≠ "" →
      chain.getLast? = some last → last.target = none →
      Refused lookup root path (.malformedPath path (.notTraversable last.name))
  | unknownAttribute {before after : List String} {s schema : String} {chain : Chain} :
      segments path = before ++ s :: after → Names lookup (some root) before chain → s ≠ "" →
      schemaAt (some root) chain before.length = some schema → lookup schema s = none →
      Refused lookup root path (.unknownAttribute s schema)
  | needsSubAttribute {chain : Chain} {last : Attribute} :
      Names lookup (some root) (segments path) chain → chain.getLast? = some last →
      last.target ≠ none → (∀ numeric, last.type ≠ .identifier numeric) →
      Refused lookup root path (.malformedPath path (.needsSubAttribute last.name))

@[simp] theorem schemaAt_zero (start : Option String) (chain : Chain) :
    schemaAt start chain 0 = start := rfl

@[simp] theorem schemaAt_cons (start : Option String) (a : Attribute) (chain : Chain) (i : Nat) :
    schemaAt start (a :: chain) (i + 1) = schemaAt a.target chain i := by
  cases i <;> rfl

@[simp] theorem names_nil {lookup : Lookup} {start : Option String} {chain : Chain} :
    Names lookup start [] chain ↔ chain = [] := by
  refine ⟨fun h => ?_, ?_⟩
  · exact List.length_eq_zero_iff.mp h.length_eq
  · rintro rfl
    exact ⟨rfl, fun i s h => by simp at h⟩

/-- A chain for a head and a tail: the head names its first attribute, and the tail names the others
from the target of the first one. -/
theorem names_cons {lookup : Lookup} {start : Option String} {s : String} {rest : List String}
    {chain : Chain} :
    Names lookup start (s :: rest) chain ↔ s ≠ "" ∧ ∃ schema a tail, start = some schema ∧
      lookup schema s = some a ∧ chain = a :: tail ∧ Names lookup a.target rest tail := by
  refine ⟨fun h => ?_, ?_⟩
  · obtain ⟨hs, schema, a, hschema, ha, hlookup⟩ := h.found 0 s rfl
    cases chain with
    | nil => cases ha
    | cons b tail =>
      cases ha
      refine ⟨hs, schema, a, tail, hschema, hlookup, rfl, ?_, ?_⟩
      · simpa using h.length_eq
      · intro i t ht
        have hi := h.found (i + 1) t (by simpa using ht)
        rw [schemaAt_cons, List.getElem?_cons_succ] at hi
        exact hi
  · rintro ⟨hs, schema, a, tail, rfl, hlookup, rfl, htail⟩
    refine ⟨by simp [htail.length_eq], ?_⟩
    intro i t ht
    cases i with
    | zero =>
      rw [List.getElem?_cons_zero] at ht
      cases ht
      exact ⟨hs, schema, a, rfl, rfl, hlookup⟩
    | succ i =>
      rw [schemaAt_cons, List.getElem?_cons_succ]
      exact htail.found i t (by simpa using ht)

/-! ### One walk -/

/-- The schema inside which a walk stands. -/
def Place.schema? : Place → Option String
  | .inside schema => some schema
  | .behind _ => none

/-- The place behind a chain. -/
def Place.along (place : Place) (chain : Chain) : Place := chain.getLast?.elim place Place.after

@[simp] theorem Place.schema?_inside (schema : String) :
    (Place.inside schema).schema? = some schema := rfl

@[simp] theorem Place.schema?_behind (name : String) : (Place.behind name).schema? = none := rfl

@[simp] theorem Place.schema?_after (a : Attribute) : (Place.after a).schema? = a.target := by
  unfold Place.after
  split
  · next h => rw [h]; rfl
  · next h => rw [h]; rfl

@[simp] theorem Place.along_nil (place : Place) : place.along [] = place := rfl

@[simp] theorem Place.along_cons (place : Place) (a : Attribute) (chain : Chain) :
    place.along (a :: chain) = (Place.after a).along chain := by
  cases chain with
  | nil => rfl
  | cons b chain =>
    obtain ⟨last, hlast⟩ : ∃ last, (b :: chain).getLast? = some last :=
      Option.isSome_iff_exists.mp (List.getLast?_isSome.mpr (List.cons_ne_nil b chain))
    rw [Place.along, Place.along, List.getLast?_cons_cons, hlast]
    rfl

theorem Place.schema?_along {lookup : Lookup} {segs : List String} : ∀ {place : Place}
    {chain : Chain}, Names lookup place.schema? segs chain →
    (place.along chain).schema? = schemaAt place.schema? chain segs.length := by
  induction segs with
  | nil =>
    intro place chain h
    rw [names_nil.mp h, Place.along_nil, List.length_nil, schemaAt_zero]
  | cons s segs ih =>
    intro place chain h
    obtain ⟨-, _, a, tail, -, -, rfl, htail⟩ := names_cons.mp h
    rw [← Place.schema?_after] at htail
    rw [Place.along_cons, ih htail, List.length_cons, schemaAt_cons, Place.schema?_after]

theorem step_eq_ok_iff {lookup : Lookup} {path s : String} {place : Place} {a : Attribute} :
    step lookup path place s = .ok a ↔
      s ≠ "" ∧ ∃ schema, place.schema? = some schema ∧ lookup schema s = some a := by
  unfold step
  by_cases hs : s = ""
  · simp [hs]
  · cases place with
    | behind name => simp [hs]
    | inside schema => cases h : lookup schema s <;> simp [hs, h]

/-- At one position an empty segment is the first fault, then a place in no schema, then a name
which is not found. -/
theorem step_eq_error_iff {lookup : Lookup} {path s : String} {place : Place} {f : QueryFault} :
    step lookup path place s = .error f ↔
      (s = "" ∧ f = .malformedPath path .emptySegment) ∨
      (s ≠ "" ∧ ∃ name, place = .behind name ∧ f = .malformedPath path (.notTraversable name)) ∨
      (s ≠ "" ∧ ∃ schema, place = .inside schema ∧ lookup schema s = none ∧
        f = .unknownAttribute s schema) := by
  unfold step
  by_cases hs : s = ""
  · simp [hs, eq_comm]
  · cases place with
    | behind name => simp [hs, eq_comm]
    | inside schema => cases h : lookup schema s <;> simp [hs, h, eq_comm]

/-- **A walk ends well exactly along the chain which its segments name.** -/
theorem walk_eq_ok_iff {lookup : Lookup} {path : String} : ∀ {segs : List String} {place : Place}
    {chain : Chain},
    walk lookup path place segs = .ok chain ↔ Names lookup place.schema? segs chain := by
  intro segs
  induction segs with
  | nil =>
    intro place chain
    rw [names_nil]
    exact ⟨fun h => (Except.ok.inj h).symm, fun h => h ▸ rfl⟩
  | cons s rest ih =>
    intro place chain
    rw [walk, bind_eq_ok_iff, names_cons]
    constructor
    · rintro ⟨a, ha, h⟩
      obtain ⟨tail, htail, h⟩ := bind_eq_ok_iff.mp h
      obtain ⟨hs, schema, hschema, hlookup⟩ := step_eq_ok_iff.mp ha
      exact ⟨hs, schema, a, tail, hschema, hlookup, (Except.ok.inj h).symm,
        Place.schema?_after a ▸ ih.mp htail⟩
    · rintro ⟨hs, schema, a, tail, hschema, hlookup, rfl, htail⟩
      rw [← Place.schema?_after] at htail
      exact ⟨a, step_eq_ok_iff.mpr ⟨hs, schema, hschema, hlookup⟩,
        bind_eq_ok_iff.mpr ⟨tail, ih.mpr htail, rfl⟩⟩

/-- **A walk ends with the fault of the first segment which does not go on** behind the chain of the
segments before it. -/
theorem walk_eq_error_iff {lookup : Lookup} {path : String} {f : QueryFault} :
    ∀ {segs : List String} {place : Place}, walk lookup path place segs = .error f ↔
      ∃ before s after chain, segs = before ++ s :: after ∧
        Names lookup place.schema? before chain ∧
        step lookup path (place.along chain) s = .error f := by
  intro segs
  induction segs with
  | nil =>
    intro place
    constructor
    · intro h; cases h
    · rintro ⟨before, s, after, _, h, -⟩; simp at h
  | cons s rest ih =>
    intro place
    rw [walk, bind_eq_error_iff]
    constructor
    · rintro (h | ⟨a, ha, h⟩)
      · exact ⟨[], s, rest, [], rfl, names_nil.mpr rfl, h⟩
      · rcases bind_eq_error_iff.mp h with h | ⟨_, -, h⟩
        · obtain ⟨before, t, after, chain, rfl, hchain, ht⟩ := ih.mp h
          obtain ⟨hs, schema, hschema, hlookup⟩ := step_eq_ok_iff.mp ha
          refine ⟨s :: before, t, after, a :: chain, rfl, ?_, Place.along_cons .. ▸ ht⟩
          exact names_cons.mpr
            ⟨hs, schema, a, chain, hschema, hlookup, rfl, Place.schema?_after a ▸ hchain⟩
        · cases h
    · rintro ⟨before, t, after, chain, h, hchain, ht⟩
      cases before with
      | nil =>
        obtain ⟨rfl, rfl⟩ := List.cons.inj h
        rw [names_nil.mp hchain] at ht
        exact Or.inl ht
      | cons s' before =>
        obtain ⟨rfl, rfl⟩ := List.cons.inj h
        obtain ⟨hs, schema, a, tail, hschema, hlookup, rfl, htail⟩ := names_cons.mp hchain
        rw [← Place.schema?_after] at htail
        rw [Place.along_cons] at ht
        exact Or.inr ⟨a, step_eq_ok_iff.mpr ⟨hs, schema, hschema, hlookup⟩,
          bind_eq_error_iff.mpr (Or.inl (ih.mpr ⟨before, t, after, tail, rfl, htail, ht⟩))⟩

/-! ### The whole path -/

theorem isComparable_iff {a : Attribute} :
    isComparable a = true ↔ a.target = none ∨ ∃ numeric, a.type = .identifier numeric := by
  unfold isComparable Attribute.isRelation
  rw [Bool.or_eq_true, Bool.not_eq_true', Option.isSome_eq_false_iff, Option.isNone_iff_eq_none,
    decide_eq_true_iff]
  refine or_congr_right ?_
  cases a.type <;> simp [ValueType.kind]

theorem Names.ne_nil {lookup : Lookup} {start : Option String} {path : String} {chain : Chain}
    (h : Names lookup start (segments path) chain) : chain ≠ [] := by
  rintro rfl
  exact segments_ne_nil path (List.length_eq_zero_iff.mp h.length_eq.symm)

theorem schema?_along_of_names {lookup : Lookup} {root : String} {before : List String}
    {chain : Chain} (h : Names lookup (some root) before chain) :
    ((Place.inside root).along chain).schema? = schemaAt (some root) chain before.length := by
  have hplace : Names lookup (Place.inside root).schema? before chain := h
  exact Place.schema?_along hplace

/-- Behind a chain one stands in no schema exactly when its last attribute leads to none. -/
theorem along_eq_behind_iff {root name : String} {chain : Chain} :
    (Place.inside root).along chain = .behind name ↔
      ∃ last, chain.getLast? = some last ∧ last.target = none ∧ last.name = name := by
  unfold Place.along
  cases hlast : chain.getLast? with
  | none => simp
  | some last =>
    rw [Option.elim_some]
    unfold Place.after
    cases htarget : last.target with
    | none => simp [htarget]
    | some schema => simp [htarget]

theorem along_eq_inside_iff {root schema : String} {chain : Chain} :
    (Place.inside root).along chain = .inside schema ↔
      ((Place.inside root).along chain).schema? = some schema := by
  cases (Place.inside root).along chain <;> simp

/-- What is left to do behind a walk: to look at the last attribute. -/
theorem resolve_eq {lookup : Lookup} {root path : String} {chain : Chain} {last : Attribute}
    (h : walk lookup path (.inside root) (segments path) = .ok chain)
    (hlast : chain.getLast? = some last) :
    resolve lookup root path = if isComparable last then .ok chain
      else .error (.malformedPath path (.needsSubAttribute last.name)) := by
  have hterminal : chain.terminal? = some last := hlast
  simp only [resolve, h, bind, Except.bind, hterminal]
  rfl

/-- **The accepted paths.** -/
theorem resolve_eq_ok_iff {lookup : Lookup} {root path : String} {chain : Chain} :
    resolve lookup root path = .ok chain ↔
      Names lookup (some root) (segments path) chain ∧ EndsComparable chain := by
  refine ⟨fun h => ?_, ?_⟩
  · obtain ⟨chain', hwalk, -⟩ := bind_eq_ok_iff.mp h
    have hnames := walk_eq_ok_iff.mp hwalk
    obtain ⟨last, hlast⟩ := Option.isSome_iff_exists.mp (List.getLast?_isSome.mpr hnames.ne_nil)
    rw [resolve_eq hwalk hlast] at h
    split at h
    · next hc =>
      cases h
      exact ⟨hnames, last, hlast, isComparable_iff.mp hc⟩
    · cases h
  · rintro ⟨hnames, last, hlast, hc⟩
    rw [resolve_eq (walk_eq_ok_iff.mpr hnames) hlast, if_pos (isComparable_iff.mpr hc)]

/-- **The refused paths, and the fault of each.** -/
theorem resolve_eq_error_iff {lookup : Lookup} {root path : String} {f : QueryFault} :
    resolve lookup root path = .error f ↔ Refused lookup root path f := by
  refine ⟨fun h => ?_, ?_⟩
  · rcases bind_eq_error_iff.mp h with hwalk | ⟨chain, hwalk, -⟩
    · obtain ⟨before, s, after, chain, hsegs, hnames, hstep⟩ := walk_eq_error_iff.mp hwalk
      rcases step_eq_error_iff.mp hstep with ⟨rfl, rfl⟩ | ⟨hs, name, hplace, rfl⟩ |
        ⟨hs, schema, hplace, hlookup, rfl⟩
      · exact .emptySegment hsegs hnames
      · obtain ⟨last, hlast, htarget, rfl⟩ := along_eq_behind_iff.mp hplace
        exact .notTraversable hsegs hnames hs hlast htarget
      · rw [along_eq_inside_iff, schema?_along_of_names hnames] at hplace
        exact .unknownAttribute hsegs hnames hs hplace hlookup
    · have hnames := walk_eq_ok_iff.mp hwalk
      obtain ⟨last, hlast⟩ := Option.isSome_iff_exists.mp (List.getLast?_isSome.mpr hnames.ne_nil)
      rw [resolve_eq hwalk hlast] at h
      split at h
      · cases h
      · next hc =>
        cases h
        rw [isComparable_iff, not_or, not_exists] at hc
        exact .needsSubAttribute hnames hlast hc.1 hc.2
  · -- the first three faults end the walk, and the last one comes behind it
    have hwalk : ∀ {before after s chain}, segments path = before ++ s :: after →
        Names lookup (some root) before chain →
        step lookup path ((Place.inside root).along chain) s = .error f →
        resolve lookup root path = .error f := by
      intro before after s chain hsegs hnames hstep
      exact bind_eq_error_iff.mpr
        (Or.inl (walk_eq_error_iff.mpr ⟨before, s, after, chain, hsegs, hnames, hstep⟩))
    intro h
    cases h with
    | emptySegment hsegs hnames =>
      exact hwalk hsegs hnames (step_eq_error_iff.mpr (Or.inl ⟨rfl, rfl⟩))
    | notTraversable hsegs hnames hs hlast htarget =>
      have hplace : (Place.inside root).along _ = .behind _ :=
        along_eq_behind_iff.mpr ⟨_, hlast, htarget, rfl⟩
      exact hwalk hsegs hnames
        (step_eq_error_iff.mpr (Or.inr (Or.inl ⟨hs, _, hplace, rfl⟩)))
    | unknownAttribute hsegs hnames hs hschema hlookup =>
      rw [← schema?_along_of_names hnames, ← along_eq_inside_iff] at hschema
      exact hwalk hsegs hnames
        (step_eq_error_iff.mpr (Or.inr (Or.inr ⟨hs, _, hschema, hlookup, rfl⟩)))
    | needsSubAttribute hnames hlast htarget htype =>
      rw [resolve_eq (walk_eq_ok_iff.mpr hnames) hlast, if_neg]
      rw [isComparable_iff, not_or, not_exists]
      exact ⟨htarget, htype⟩

/-- Behind an attribute without a target an empty segment is still the first fault. -/
example : resolve Catalog.sample.resolve "Resource" "name..kind" =
    .error (.malformedPath "name..kind" .emptySegment) := rfl

/-! ### Paths in a built catalog -/

theorem names_of_built {c : Catalog} (hc : c.Built) {segs : List String} :
    ∀ {start : Option String} {chain : Chain}, Names c.resolve start segs chain →
      chain.names = segs := by
  induction segs with
  | nil =>
    intro start chain h
    rw [names_nil.mp h, Chain.names_nil]
  | cons s rest ih =>
    intro start chain h
    obtain ⟨-, schema, a, tail, -, hlookup, rfl, htail⟩ := names_cons.mp h
    rw [Chain.names_cons, hc.name_eq hlookup]
    exact congrArg (s :: ·) (ih htail)

/-- **In a built catalog a chain spells the path which it came from.** -/
theorem path_of_names {c : Catalog} (hc : c.Built) {start : Option String} {path : String}
    {chain : Chain} (h : Names c.resolve start (segments path) chain) : chain.path = path := by
  rw [Chain.path, names_of_built hc h, intercalate_segments]

end Path

/-! ### Keys of filters -/

namespace FilterKey

@[simp] theorem read_append_brackets (path : String) : read (path ++ "[]") = ⟨path, true⟩ := by
  have h : ['[', ']'].isSuffixOf? (path ++ "[]").toList = some path.toList := by
    rw [List.isSuffixOf?_eq_some_iff_append_eq, String.toList_append]
    rfl
  rw [read, h]
  show (⟨String.ofList path.toList, true⟩ : FilterKey) = ⟨path, true⟩
  rw [String.ofList_toList]

theorem read_of_ne {name : String} (h : ∀ path, name ≠ path ++ "[]") :
    read name = ⟨name, false⟩ := by
  cases hs : ['[', ']'].isSuffixOf? name.toList with
  | none => rw [read, hs]
  | some path =>
    rw [List.isSuffixOf?_eq_some_iff_append_eq] at hs
    refine absurd ?_ (h (String.ofList path))
    rw [← String.toList_inj, String.toList_append, String.toList_ofList]
    exact hs.symm

theorem forall_ne_append_brackets_iff {name : String} :
    (∀ path, name ≠ path ++ "[]") ↔ ¬ ['[', ']'] <:+ name.toList := by
  constructor
  · rintro h ⟨path, hpath⟩
    refine h (String.ofList path) ?_
    rw [← String.toList_inj, String.toList_append, String.toList_ofList]
    exact hpath.symm
  · rintro h path rfl
    apply h
    rw [String.toList_append]
    exact List.suffix_append path.toList _

theorem eq_append_or_ne (name : String) :
    (∃ path, name = path ++ "[]") ∨ ∀ path, name ≠ path ++ "[]" := by
  by_cases h : ∃ path, name = path ++ "[]"
  · exact Or.inl h
  · exact Or.inr (not_exists.mp h)

end FilterKey

end QueryFilter
