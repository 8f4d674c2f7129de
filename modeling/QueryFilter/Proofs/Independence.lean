import QueryFilter.Proofs.Answer

/-!
# What an answer does not depend on

A request is a list of pairs, in which filters and the parameters for sorting come mixed and in any
order. This file compares the answers to two such lists.

The predicates come from the pairs which are not reserved, taken as a list of their own
(`filters_ofList_eq_entries`), and the orders from the values of two names. So neither part sees
what belongs to the other, wherever it stands (`answers_eq_of_eq_parts`).

The order in which different names arrive matters only a little. Each name makes a block of
predicates out of its own values, and the answer is these blocks in the order of the names
(`predicatesOf_ofList_eq_ok_iff`). Two lists which agree on the values of each name have the same
blocks, so one is answered exactly when the other is, and the answers are made of the same blocks in
some order (`answers_perm_of_values_eq`).
-/

namespace QueryFilter

open Answer

/-! ### The two parts of a request -/

/-- The pairs of a request whose names are not reserved. -/
def Answer.filterPairs (conventions : Conventions) (pairs : List (String × String)) :
    List (String × String) :=
  pairs.filter fun pair => ¬ IsReserved conventions pair.1

namespace Query

/-- The filters of a request are the groups of the pairs which are not reserved. -/
theorem filters_ofList_eq_entries (conventions : Conventions) (pairs : List (String × String)) :
    filters conventions (.ofList pairs) =
      (Params.ofList (filterPairs conventions pairs)).entries := by
  rw [filters, filterPairs, Params.entries_ofList_filter fun name => ¬ IsReserved conventions name]
  simp only [not_isReserved]

/-- **Filters and orders do not interfere.** Two requests with the same pairs under names which are
not reserved have the same predicates, and two requests with the same values for sorting and the
same directions have the same orders, whatever else they hold. -/
theorem answers_eq_of_eq_parts (lookup : Lookup) (conventions : Conventions) (root : String)
    (pairs pairs' : List (String × String)) :
    (filterPairs conventions pairs = filterPairs conventions pairs' →
      predicatesOf lookup conventions (.ofList pairs) root =
        predicatesOf lookup conventions (.ofList pairs') root) ∧
    (Params.values pairs conventions.sortKey = Params.values pairs' conventions.sortKey →
      Params.values pairs conventions.directionKey = Params.values pairs' conventions.directionKey →
      ordersOf lookup conventions (.ofList pairs) root =
        ordersOf lookup conventions (.ofList pairs') root) := by
  constructor
  · intro h
    rw [predicatesOf, predicatesOf, filters_ofList_eq_entries, filters_ofList_eq_entries, h]
  · intro hsort hdirection
    rw [ordersOf, ordersOf]
    simp only [Params.get_ofList, hsort, hdirection]

/-- The law at conventions which pass over the sort key, for a request whose filters come again with
other orders, and whose orders come again with other filters. -/
theorem answers_eq_of_eq_parts_mixed :
    let conventions : Conventions := { ignoredKeys := ["page", "sort"] }
    let pairs := [("page", "1"), ("name", "a"), ("sort", "name"), ("id", "7"), ("name", "b"),
      ("direction", "desc")]
    let sameFilters := [("direction", "up"), ("name", "a"), ("id", "7"), ("name", "b"), ("sort", "")]
    let sameOrders := [("sort", "name"), ("sort[]", "id"), ("direction", "desc")]
    let id : Attribute := ⟨"id", .identifier true, none⟩
    let name : Attribute := ⟨"name", .text, none⟩
    let ps : List Predicate :=
      [⟨[name], .oneOf, .many [.text "a", .text "b"]⟩, ⟨[id], .equal, .single (.integer 7)⟩]
    let os : List SortOrder := [⟨[name], .descending⟩]
    (filterPairs conventions pairs = filterPairs conventions sameFilters ∧
      predicatesOf Catalog.sample.resolve conventions (.ofList pairs) "Resource" = .ok ps ∧
      predicatesOf Catalog.sample.resolve conventions (.ofList sameFilters) "Resource" = .ok ps) ∧
    (Params.values pairs "sort" = Params.values sameOrders "sort" ∧
      Params.values pairs "direction" = Params.values sameOrders "direction" ∧
      ordersOf Catalog.sample.resolve conventions (.ofList pairs) "Resource" = .ok os ∧
      ordersOf Catalog.sample.resolve conventions (.ofList sameOrders) "Resource" = .ok os) := by
  intro conventions pairs sameFilters sameOrders id name ps os
  have hfilters : filterPairs conventions pairs = filterPairs conventions sameFilters := by decide
  have hsort : Params.values pairs "sort" = Params.values sameOrders "sort" := by decide
  have hdirection : Params.values pairs "direction" = Params.values sameOrders "direction" := by
    decide
  have hps : predicatesOf Catalog.sample.resolve conventions (.ofList pairs) "Resource" = .ok ps :=
    rfl
  have hos : ordersOf Catalog.sample.resolve conventions (.ofList pairs) "Resource" = .ok os := rfl
  refine ⟨⟨hfilters, hps, ?_⟩, hsort, hdirection, hos, ?_⟩
  · rw [← hps]
    exact ((answers_eq_of_eq_parts _ conventions _ pairs sameFilters).1 hfilters).symm
  · rw [← hos]
    exact ((answers_eq_of_eq_parts _ conventions _ pairs sameOrders).2 hsort hdirection).symm

/-! ### The blocks of an answer -/

variable {lookup : Lookup} {conventions : Conventions} {root : String}

/-- **The answer is made of the blocks of the names**: each name makes its own predicates, and they
stand behind each other in the order of the names. -/
theorem predicatesOf_ofList_eq_ok_iff {pairs : List (String × String)} {ps : List Predicate} :
    predicatesOf lookup conventions (.ofList pairs) root = .ok ps ↔
      ∃ block : String → List Predicate,
        (∀ name ∈ filterNames conventions pairs,
          Predicate.ofParameter lookup root name (Params.values pairs name) = .ok (block name)) ∧
        ps = (filterNames conventions pairs).flatMap block := by
  rw [predicatesOf, Predicate.ofParameters, filters_ofList, List.mapM_map, bind_eq_ok_iff]
  constructor
  · rintro ⟨groups, hgroups, hps⟩
    obtain ⟨block, hblock, rfl⟩ := mapM_eq_ok_iff_exists_map.mp hgroups
    exact ⟨block, hblock, (Except.ok.inj hps).symm⟩
  · rintro ⟨block, hblock, rfl⟩
    exact ⟨_, mapM_eq_ok_iff_exists_map.mpr ⟨block, hblock, rfl⟩, rfl⟩

theorem filterNames_perm {pairs pairs' : List (String × String)}
    (h : ∀ name, Params.values pairs name = Params.values pairs' name) :
    (filterNames conventions pairs).Perm (filterNames conventions pairs') :=
  (Params.names_perm h).filter _

/-- The blocks of one request are those of any other one which agrees on the values of each name. -/
theorem predicatesOf_of_values_eq {pairs pairs' : List (String × String)}
    (h : ∀ name, Params.values pairs name = Params.values pairs' name) {ps : List Predicate}
    (hps : predicatesOf lookup conventions (.ofList pairs) root = .ok ps) :
    ∃ block : String → List Predicate,
      (∀ name ∈ filterNames conventions pairs,
        Predicate.ofParameter lookup root name (Params.values pairs name) = .ok (block name)) ∧
      ps = (filterNames conventions pairs).flatMap block ∧
      predicatesOf lookup conventions (.ofList pairs') root =
        .ok ((filterNames conventions pairs').flatMap block) := by
  obtain ⟨block, hblock, hflat⟩ := predicatesOf_ofList_eq_ok_iff.mp hps
  refine ⟨block, hblock, hflat, predicatesOf_ofList_eq_ok_iff.mpr ⟨block, ?_, rfl⟩⟩
  -- a name of one list is a name of the other, with the same values and so with the same block
  intro name hname
  rw [← h name]
  exact hblock name ((filterNames_perm h).mem_iff.mpr hname)

/-- **The order of different names matters only for the order of the predicates.** If two requests
have the same values for each name, both have predicates or neither has; the predicates of one are
a permutation of those of the other, in which each name keeps its block as it is; and the orders are
the same. -/
theorem answers_perm_of_values_eq (lookup : Lookup) (conventions : Conventions) (root : String)
    (pairs pairs' : List (String × String))
    (h : ∀ name, Params.values pairs name = Params.values pairs' name) :
    ((∃ ps, predicatesOf lookup conventions (.ofList pairs) root = .ok ps) ↔
      ∃ ps, predicatesOf lookup conventions (.ofList pairs') root = .ok ps) ∧
    (∀ ps ps', predicatesOf lookup conventions (.ofList pairs) root = .ok ps →
      predicatesOf lookup conventions (.ofList pairs') root = .ok ps' →
      ps.Perm ps' ∧ (filterNames conventions pairs).Perm (filterNames conventions pairs') ∧
      ∃ block : String → List Predicate,
        (∀ name ∈ filterNames conventions pairs,
          Predicate.ofParameter lookup root name (Params.values pairs name) = .ok (block name)) ∧
        ps = (filterNames conventions pairs).flatMap block ∧
        ps' = (filterNames conventions pairs').flatMap block) ∧
    ordersOf lookup conventions (.ofList pairs) root =
      ordersOf lookup conventions (.ofList pairs') root := by
  refine ⟨⟨?_, ?_⟩, ?_, ?_⟩
  · rintro ⟨ps, hps⟩
    obtain ⟨_, -, -, hps'⟩ := predicatesOf_of_values_eq h hps
    exact ⟨_, hps'⟩
  · rintro ⟨ps', hps'⟩
    obtain ⟨_, -, -, hps⟩ := predicatesOf_of_values_eq (fun name => (h name).symm) hps'
    exact ⟨_, hps⟩
  · intro ps ps' hps hps'
    obtain ⟨block, hblock, rfl, hflat⟩ := predicatesOf_of_values_eq h hps
    rw [hflat] at hps'
    cases hps'
    have hnames : (filterNames conventions pairs).Perm (filterNames conventions pairs') :=
      filterNames_perm h
    exact ⟨hnames.flatMap_right block, hnames, block, hblock, rfl, rfl⟩
  · rw [ordersOf, ordersOf]
    simp only [Params.get_ofList, h]

/-- The law at two names with two values each, which come mixed in one request and one after the
other in the second one. -/
theorem answers_perm_of_values_eq_mixed :
    let mixed := [("name", "a"), ("id[]", ">=3"), ("sort", "id"), ("id[]", "<9"), ("name", "b")]
    let sorted := [("sort", "id"), ("id[]", ">=3"), ("id[]", "<9"), ("name", "a"), ("name", "b")]
    let id : Attribute := ⟨"id", .identifier true, none⟩
    let name : Attribute := ⟨"name", .text, none⟩
    let isOneOf : Predicate := ⟨[name], .oneOf, .many [.text "a", .text "b"]⟩
    let atLeast : Predicate := ⟨[id], .greaterOrEqual, .single (.integer 3)⟩
    let below : Predicate := ⟨[id], .less, .single (.integer 9)⟩
    let os : List SortOrder := [⟨[id], .ascending⟩]
    (∀ name, Params.values mixed name = Params.values sorted name) ∧
    predicatesOf Catalog.sample.resolve {} (.ofList mixed) "Resource" =
      .ok [isOneOf, atLeast, below] ∧
    predicatesOf Catalog.sample.resolve {} (.ofList sorted) "Resource" =
      .ok [atLeast, below, isOneOf] ∧
    [isOneOf, atLeast, below].Perm [atLeast, below, isOneOf] ∧
    ordersOf Catalog.sample.resolve {} (.ofList mixed) "Resource" = .ok os ∧
    ordersOf Catalog.sample.resolve {} (.ofList sorted) "Resource" = .ok os := by
  intro mixed sorted id name isOneOf atLeast below os
  have hvalues : ∀ name, Params.values mixed name = Params.values sorted name := by
    intro other
    by_cases hname : "name" = other
    · subst hname
      decide
    by_cases hsort : "sort" = other
    · subst hsort
      decide
    simp [Params.values, mixed, sorted, List.filter_cons, hname, hsort]
  have hmixed : predicatesOf Catalog.sample.resolve {} (.ofList mixed) "Resource" =
      .ok [isOneOf, atLeast, below] := rfl
  have hsorted : predicatesOf Catalog.sample.resolve {} (.ofList sorted) "Resource" =
      .ok [atLeast, below, isOneOf] := rfl
  have hos : ordersOf Catalog.sample.resolve {} (.ofList mixed) "Resource" = .ok os := rfl
  obtain ⟨-, hperm, horders⟩ :=
    answers_perm_of_values_eq Catalog.sample.resolve {} "Resource" mixed sorted hvalues
  refine ⟨hvalues, hmixed, hsorted, (hperm _ _ hmixed hsorted).1, hos, ?_⟩
  rw [← hos]
  exact horders.symm

end Query

end QueryFilter
