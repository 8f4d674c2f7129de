import Mathlib.Data.Finset.Card
import Mathlib.Data.Finset.Dedup
import QueryFilter.Proofs.Params

/-!
# Parameters which come in batches

Parameters are collected value by value, with several values for one name, or from a list of pairs,
and the ways may be mixed. Each addition supplies pairs, and it appends them in their order
(`add_eq_extend`). So a collection is what its pairs make in one go, however they were cut into
additions,

    collect first additions = ofList (first ++ additions.flatMap Addition.pairs),

and what `Params` says of flat lists holds of all collections (`collect_groups`).

No collection has a name twice or a name without values: it is `Grouped`. The grouped parameters are
also the only ones which can be collected, since each of them is made by its own pairs
(`Grouped.ofList_pairs`).
-/

namespace QueryFilter.Params

/-! ### Additions -/

/-- One addition to parameters: a value, several values of one name, or pairs. -/
inductive Addition where
  | one (name value : String)
  | several (name : String) (values : List String)
  | batch (pairs : List (String × String))

/-- The pairs which an addition supplies. -/
def Addition.pairs : Addition → List (String × String)
  | one name value => [(name, value)]
  | several name values => values.map fun value => (name, value)
  | batch pairs => pairs

/-- The parameters after an addition. -/
def add (p : Params) : Addition → Params
  | .one name value => p.append name value
  | .several name values => p.appendValues name values
  | .batch pairs => p.extend pairs

/-- The parameters which are made of a first list of pairs and collect more by additions. -/
def collect (first : List (String × String)) (additions : List Addition) : Params :=
  additions.foldl add (ofList first)

@[simp] theorem collect_nil (first : List (String × String)) : collect first [] = ofList first := rfl

@[simp] theorem collect_concat (first : List (String × String)) (additions : List Addition)
    (a : Addition) : collect first (additions ++ [a]) = (collect first additions).add a :=
  List.foldl_concat ..

@[simp] theorem extend_append (p : Params) (pairs pairs' : List (String × String)) :
    p.extend (pairs ++ pairs') = (p.extend pairs).extend pairs' :=
  List.foldl_append ..

/-- An addition appends its pairs. -/
theorem add_eq_extend (p : Params) (a : Addition) : p.add a = p.extend a.pairs := by
  cases a with
  | one name value => rfl
  | several name values =>
    show values.foldl _ p = (values.map _).foldl _ p
    rw [List.foldl_map]
  | batch pairs => rfl

/-- **A collection is what all its pairs make**, in whatever additions they came. -/
theorem collect_eq_ofList (first : List (String × String)) (additions : List Addition) :
    collect first additions = ofList (first ++ additions.flatMap Addition.pairs) := by
  induction additions using List.reverseRecOn with
  | nil => simp
  | append_singleton additions a ih =>
    rw [collect_concat, ih, add_eq_extend, List.flatMap_append, List.flatMap_singleton,
      ← List.append_assoc]
    exact (extend_append _ _ _).symm

/-! ### Grouped parameters -/

/-- Parameters in which each name stands once and has values. -/
structure Grouped (p : Params) : Prop where
  nodup : (p.entries.map Prod.fst).Nodup
  values_ne_nil : ∀ entry ∈ p.entries, entry.2 ≠ []

@[simp] theorem map_fst_entries_ofList (pairs : List (String × String)) :
    (ofList pairs).entries.map Prod.fst = names pairs := by
  rw [entries_ofList, List.map_map]
  exact List.map_id _

theorem mem_entries_ofList {pairs : List (String × String)} {entry : String × List String} :
    entry ∈ (ofList pairs).entries ↔ entry.1 ∈ names pairs ∧ entry.2 = values pairs entry.1 := by
  rw [entries_ofList, List.mem_map]
  constructor
  · rintro ⟨name, hname, rfl⟩
    exact ⟨hname, rfl⟩
  · rintro ⟨hname, hvalues⟩
    exact ⟨entry.1, hname, Prod.ext rfl hvalues.symm⟩

theorem grouped_ofList (pairs : List (String × String)) : (ofList pairs).Grouped where
  nodup := by simp
  values_ne_nil := by
    intro entry hentry
    obtain ⟨hname, hvalues⟩ := mem_entries_ofList.mp hentry
    rw [hvalues, Ne, values_eq_nil_iff, not_not]
    exact hname

/-- The pairs of parameters, group by group. -/
def pairs (p : Params) : List (String × String) :=
  p.entries.flatMap fun entry => entry.2.map fun value => (entry.1, value)

/-- A value more of the last name goes to its values. -/
theorem appendEntry_last {name value : String} {values : List String} :
    ∀ {entries : List (String × List String)}, name ∉ entries.map Prod.fst →
      appendEntry name value (entries ++ [(name, values)]) =
        entries ++ [(name, values ++ [value])] := by
  intro entries
  induction entries with
  | nil => intro _; simp [appendEntry]
  | cons entry entries ih =>
    intro h
    rw [List.map_cons, List.mem_cons, not_or] at h
    rw [List.cons_append, appendEntry, if_neg (Ne.symm h.1), ih h.2]
    rfl

/-- A new name goes to the end. -/
theorem appendEntry_new {name value : String} :
    ∀ {entries : List (String × List String)}, name ∉ entries.map Prod.fst →
      appendEntry name value entries = entries ++ [(name, [value])] := by
  intro entries
  induction entries with
  | nil => intro _; rfl
  | cons entry entries ih =>
    intro h
    rw [List.map_cons, List.mem_cons, not_or] at h
    rw [appendEntry, if_neg (Ne.symm h.1), ih h.2]
    rfl

/-- The values of a new name are one more group. -/
theorem entries_extend_group {p : Params} {name : String} (hname : name ∉ p.entries.map Prod.fst)
    {values : List String} (hvalues : values ≠ []) :
    (p.extend (values.map fun value => (name, value))).entries = p.entries ++ [(name, values)] := by
  induction values using List.reverseRecOn with
  | nil => exact absurd rfl hvalues
  | append_singleton values value ih =>
    rw [List.map_append, extend_append]
    show appendEntry name value _ = _
    by_cases h : values = []
    · subst h
      exact appendEntry_new hname
    · rw [ih h]
      exact appendEntry_last hname

/-- **Grouped parameters are made by their own pairs.** -/
theorem Grouped.ofList_pairs {p : Params} (h : p.Grouped) : ofList p.pairs = p := by
  obtain ⟨entries⟩ := p
  induction entries using List.reverseRecOn with
  | nil => rfl
  | append_singleton entries entry ih =>
    obtain ⟨hnodup, hvalues⟩ := h
    rw [List.map_append, List.nodup_append] at hnodup
    have hnew : entry.1 ∉ entries.map Prod.fst :=
      fun hmem => hnodup.2.2 entry.1 hmem entry.1 (by simp) rfl
    have hbefore : ofList (pairs ⟨entries⟩) = ⟨entries⟩ :=
      ih ⟨hnodup.1, fun e he => hvalues e (List.mem_append_left _ he)⟩
    have hentry : entry.2 ≠ [] := hvalues entry (by simp)
    rw [pairs, List.flatMap_append, List.flatMap_singleton, ofList, extend_append, ← ofList,
      ← pairs]
    show extend (ofList (pairs ⟨entries⟩)) _ = _
    rw [hbefore]
    exact congrArg Params.mk (entries_extend_group hnew hentry)

/-- The grouped parameters are those which pairs make. -/
theorem grouped_iff {p : Params} : p.Grouped ↔ ∃ pairs, ofList pairs = p := by
  constructor
  · intro h
    exact ⟨p.pairs, h.ofList_pairs⟩
  · rintro ⟨pairs, rfl⟩
    exact grouped_ofList pairs

/-! ### What a collection holds -/

theorem length_names (pairs : List (String × String)) :
    (names pairs).length = (pairs.map Prod.fst).toFinset.card := by
  rw [← List.toFinset_card_of_nodup (nodup_names pairs)]
  refine congrArg Finset.card (Finset.ext fun name => ?_)
  rw [List.mem_toFinset, List.mem_toFinset, names, List.mem_eraseDups]

theorem size_ofList (pairs : List (String × String)) :
    (ofList pairs).size = (pairs.map Prod.fst).toFinset.card := by
  rw [size, ← List.length_map Prod.fst, map_fst_entries_ofList, length_names]

theorem isEmpty_ofList {pairs : List (String × String)} :
    (ofList pairs).isEmpty = true ↔ pairs = [] := by
  have hnames : (ofList pairs).isEmpty = true ↔ names pairs = [] := by
    rw [isEmpty, List.isEmpty_iff, ← map_fst_entries_ofList, List.map_eq_nil_iff]
  rw [hnames]
  cases pairs with
  | nil => exact iff_of_true rfl rfl
  | cons pair pairs =>
    refine iff_of_false (fun h => ?_) (List.cons_ne_nil pair pairs)
    have hmem : pair.1 ∈ names (pair :: pairs) := mem_names.mpr ⟨pair.2, List.mem_cons_self⟩
    rw [h] at hmem
    exact List.not_mem_nil hmem

/-- **What is collected depends on the pairs alone, and groups them by name.** The names stand in
the order of their first occurrences, each of them once and with values; the values of a name are
those of its pairs, in their order, whether they are looked up or listed. An addition without values
changes nothing, and pairs which come in other additions make the same parameters. -/
theorem collect_groups (first : List (String × String)) (additions : List Addition) :
    let pairs := first ++ additions.flatMap Addition.pairs
    let p := collect first additions
    p.entries.map Prod.fst = (pairs.map Prod.fst).eraseDups ∧ p.Grouped ∧
    (∀ name, p.get name = (pairs.filter fun pair => pair.1 = name).map Prod.snd) ∧
    (∀ entry ∈ p.entries, p.get entry.1 = entry.2) ∧
    p.size = (pairs.map Prod.fst).toFinset.card ∧
    (p.isEmpty = true ↔ pairs = []) ∧
    (∀ name, p.add (.several name []) = p) ∧
    ∀ first' additions', first' ++ additions'.flatMap Addition.pairs = pairs →
      collect first' additions' = p := by
  intro pairs p
  have hp : p = ofList pairs := collect_eq_ofList first additions
  rw [hp]
  refine ⟨map_fst_entries_ofList pairs, grouped_ofList pairs, get_ofList pairs, ?listed,
    size_ofList pairs, isEmpty_ofList, fun name => rfl, ?cut⟩
  case listed =>
    intro entry hentry
    rw [get_ofList, (mem_entries_ofList.mp hentry).2]
  case cut =>
    intro first' additions' hpairs
    rw [collect_eq_ofList, hpairs]

/-- The law at a run in which two names take turns and one addition is empty. -/
theorem collect_groups_turns :
    let p := collect [("name", "remove")]
      [.one "id" "1", .several "page" [], .batch [("name", "update"), ("id", ">2")],
        .several "name" ["", "update"]]
    p.entries.map Prod.fst = ["name", "id"] ∧ p.get "name" = ["remove", "update", "", "update"] ∧
    ("id", ["1", ">2"]) ∈ p.entries ∧ p.get "id" = ["1", ">2"] ∧ p.get "page" = [] ∧
    p.isEmpty = false ∧
    collect [] [.batch [("name", "remove"), ("id", "1"), ("name", "update")], .one "id" ">2",
      .several "name" ["", "update"]] = p := by
  intro p
  obtain ⟨hnames, -, hget, hlisted, -, hempty, -, hcut⟩ := collect_groups [("name", "remove")]
    [.one "id" "1", .several "page" [], .batch [("name", "update"), ("id", ">2")],
      .several "name" ["", "update"]]
  have hid : ("id", ["1", ">2"]) ∈ p.entries := by decide
  refine ⟨hnames, hget "name", hid, hlisted _ hid, hget "page", ?_, hcut [] _ (by decide)⟩
  exact Bool.eq_false_iff.mpr fun h => List.cons_ne_nil _ _ (hempty.mp h)

end QueryFilter.Params
