import QueryFilter.Proofs.Answer
import QueryFilter.Proofs.Condition
import QueryFilter.Proofs.Literal

/-!
# What requests are answered with

Whoever runs a query relies on its shape. `Chain.WellFormed` says that a chain goes through the
schemas of the catalog and ends at something which can be compared, and `Predicate.WellFormed` that
moreover the operand has the shape which the comparison asks for and carries values of the last
attribute's type. All answers to all requests are of this kind (`Query.answers_wellFormed`),
whatever catalog they come from.
-/

namespace QueryFilter

/-! ### Chains -/

/-- A chain goes through the schemas of a catalog: its first attribute is one of the root's, each
other one is one of those of the schema which the attribute before it leads to, and the last one can
be compared. -/
structure Chain.WellFormed (c : Catalog) (root : String) (chain : Chain) : Prop where
  ne_nil : chain ≠ []
  listed : ∀ (i : Nat) (a : Attribute), chain[i]? = some a → ∃ schema s,
    Path.schemaAt (some root) chain i = some schema ∧ c.schema? schema = some s ∧ a ∈ s.toList
  isRelation : ∀ (i : Nat) (a : Attribute), chain[i]? = some a → i + 1 < chain.length →
    a.isRelation = true
  ends : Path.EndsComparable chain

/-- That an attribute with another one behind it is a relation need not be asked for: the other one
is listed on its target. -/
theorem Chain.wellFormed_of_listed {c : Catalog} {root : String} {chain : Chain} (hne : chain ≠ [])
    (listed : ∀ (i : Nat) (a : Attribute), chain[i]? = some a → ∃ schema s,
      Path.schemaAt (some root) chain i = some schema ∧ c.schema? schema = some s ∧ a ∈ s.toList)
    (ends : Path.EndsComparable chain) : chain.WellFormed c root := by
  refine ⟨hne, listed, fun i a ha hi => ?_, ends⟩
  obtain ⟨schema, -, hschema, -⟩ := listed (i + 1) _ (List.getElem?_eq_getElem hi)
  rw [Path.schemaAt, ha, Option.bind_some] at hschema
  exact Option.isSome_iff_exists.mpr ⟨schema, hschema⟩

/-- **A path resolves to a well-formed chain.** -/
theorem Chain.wellFormed_of_resolve {c : Catalog} {root path : String} {chain : Chain}
    (h : Path.resolve c.resolve root path = .ok chain) : chain.WellFormed c root := by
  obtain ⟨hnames, hends⟩ := Path.resolve_eq_ok_iff.mp h
  refine wellFormed_of_listed hnames.ne_nil (fun i a ha => ?_) hends
  have hi : i < chain.length := (List.getElem?_eq_some_iff.mp ha).1
  have hsegment := List.getElem?_eq_getElem (hnames.length_eq ▸ hi)
  obtain ⟨-, schema, a', hschema, ha', hlookup⟩ := hnames.found i _ hsegment
  rw [ha] at ha'
  cases ha'
  obtain ⟨s, hs, hget⟩ := Catalog.resolve_eq_some_iff.mp hlookup
  exact ⟨schema, s, hschema, hs, Schema.mem_toList_of_get? hget⟩

/-! ### Predicates -/

/-- The values which an operand carries. -/
def Operand.values : Operand → List Value
  | absent => []
  | single v => [v]
  | many vs => vs

/-- A predicate is well formed: its chain is, the comparison decides how many values there are, and
they all belong to the type of the last attribute. -/
structure Predicate.WellFormed (c : Catalog) (root : String) (p : Predicate) : Prop where
  chain : p.chain.WellFormed c root
  absent_iff : p.operand = .absent ↔
    p.comparison = .present ∨ p.comparison = .notNull ∨ p.comparison = .null
  many_iff : (∃ vs, p.operand = .many vs) ↔ p.comparison = .oneOf
  single_iff : (∃ v, p.operand = .single v) ↔ p.comparison ≠ .present ∧ p.comparison ≠ .notNull ∧
    p.comparison ≠ .null ∧ p.comparison ≠ .oneOf
  two_le_length : ∀ vs, p.operand = .many vs → 2 ≤ vs.length
  inhabits : ∀ last, p.chain.getLast? = some last →
    ∀ v ∈ p.operand.values, v.Inhabits last.type

theorem Comparison.isUnary_iff {c : Comparison} :
    c.isUnary = true ↔ c = .present ∨ c = .notNull ∨ c = .null := by
  cases c <;> simp [isUnary]

namespace Predicate

variable {c : Catalog} {root : String} {chain : Chain} {comparison : Comparison}

theorem wellFormed_absent (hchain : chain.WellFormed c root) (hu : comparison.isUnary = true) :
    WellFormed c root ⟨chain, comparison, .absent⟩ := by
  have hcases := Comparison.isUnary_iff.mp hu
  refine ⟨hchain, iff_of_true rfl hcases, iff_of_false (by simp) ?_, iff_of_false (by simp) ?_,
    fun _ h => Operand.noConfusion h, fun _ _ _ h => absurd h List.not_mem_nil⟩
  · rintro rfl
    cases hu
  · rintro ⟨hp, hn, hnull, -⟩
    exact hcases.elim hp (Or.rec hn hnull)

theorem wellFormed_single (hchain : chain.WellFormed c root) (hu : comparison.isUnary = false)
    (hm : comparison ≠ .oneOf) {v : Value}
    (hv : ∀ last, chain.getLast? = some last → v.Inhabits last.type) :
    WellFormed c root ⟨chain, comparison, .single v⟩ := by
  have hcases : ¬ (comparison = .present ∨ comparison = .notNull ∨ comparison = .null) := by
    rw [← Comparison.isUnary_iff, hu]
    exact Bool.false_ne_true
  refine ⟨hchain, iff_of_false Operand.noConfusion hcases, iff_of_false (by simp) hm,
    iff_of_true ⟨v, rfl⟩ ?_, fun _ h => Operand.noConfusion h, fun last hlast w hw => ?_⟩
  · rw [not_or, not_or] at hcases
    exact ⟨hcases.1, hcases.2.1, hcases.2.2, hm⟩
  · obtain rfl := List.mem_singleton.mp hw
    exact hv last hlast

theorem wellFormed_many (hchain : chain.WellFormed c root) {vs : List Value} (hvs : 2 ≤ vs.length)
    (hv : ∀ last, chain.getLast? = some last → ∀ v ∈ vs, v.Inhabits last.type) :
    WellFormed c root ⟨chain, .oneOf, .many vs⟩ := by
  refine ⟨hchain, iff_of_false Operand.noConfusion (by simp), iff_of_true ⟨vs, rfl⟩ rfl,
    iff_of_false (by simp) (by simp), ?_, hv⟩
  intro ws h
  cases h
  exact hvs

end Predicate

/-! ### What one parameter makes -/

theorem ValueType.inhabits_of_coerce {type : ValueType} {literal : String} {v : Value}
    (h : type.coerce literal = .ok v) : v.Inhabits type :=
  inhabits_of_read? (coerce_eq_ok_iff.mp h)

theorem ValueType.inhabits_of_coerceAll {type : ValueType} {literals : List String}
    {vs : List Value} (h : type.coerceAll literals = .ok vs) : ∀ v ∈ vs, v.Inhabits type :=
  forall_mem_of_mapM_eq_ok h fun _ _ _ hv => inhabits_of_coerce hv

namespace Predicate

variable {c : Catalog} {root : String} {chain : Chain}

/-- **A raw value makes a well-formed predicate.** -/
theorem wellFormed_ofRaw (hchain : chain.WellFormed c root) {raw : String} {p : Predicate}
    (h : ofRaw chain raw = .ok p) : p.WellFormed c root := by
  cases (ofRaw_eq_iff hchain.ne_nil).mp h with
  | marker hliteral =>
    exact wellFormed_absent hchain ((Condition.literal_eq_none_iff raw).mp hliteral)
  | @literal literal last v hliteral hlast hv =>
    refine wellFormed_single hchain (Condition.isUnary_of_literal hliteral)
      (Condition.comparison_ne_oneOf raw) fun last' hlast' => ?_
    rw [hlast] at hlast'
    cases hlast'
    exact ValueType.inhabits_of_coerce (ValueType.coerce_eq_iff.mpr hv)

/-- **Several raw values make a well-formed test for membership.** -/
theorem wellFormed_ofMembers (hchain : chain.WellFormed c root) {raws : List String}
    (hraws : 2 ≤ raws.length) {p : Predicate} (h : ofMembers chain raws = .ok p) :
    p.WellFormed c root := by
  cases (ofMembers_eq_iff hchain.ne_nil).mp h with
  | @members last literals vs hlast hliterals hvs =>
    have hlength : vs.length = raws.length := hvs.length_eq.symm.trans hliterals.length_eq.symm
    refine wellFormed_many hchain (hlength ▸ hraws) fun last' hlast' => ?_
    rw [hlast] at hlast'
    cases hlast'
    exact ValueType.inhabits_of_coerceAll (ValueType.coerceAll_eq_iff.mpr hvs)

/-- **A parameter makes well-formed predicates.** -/
theorem wellFormed_ofParameter {name : String} {raws : List String} {ps : List Predicate}
    (h : ofParameter c.resolve root name raws = .ok ps) : ∀ p ∈ ps, p.WellFormed c root := by
  by_cases hraws : raws = []
  · rw [ofParameter, if_pos hraws] at h
    cases h
    exact fun p hp => absurd hp List.not_mem_nil
  obtain ⟨chain, hresolve, ⟨-, hrun⟩ | ⟨-, p, rfl, hp⟩⟩ := (ofParameter_eq_ok_iff hraws).mp h
  · have hchain := Chain.wellFormed_of_resolve hresolve
    exact forall_mem_of_mapM_eq_ok hrun fun _ _ _ hp => wellFormed_ofRaw hchain hp
  · have hchain := Chain.wellFormed_of_resolve hresolve
    intro q hq
    obtain rfl := List.mem_singleton.mp hq
    rcases hp with ⟨raw, -, hp⟩ | ⟨hlength, hp⟩
    · exact wellFormed_ofRaw hchain hp
    · exact wellFormed_ofMembers hchain hlength hp

end Predicate

/-! ### Whole requests -/

namespace Query

variable {c : Catalog} {conventions : Conventions} {params : Params} {root : String}

theorem wellFormed_predicatesOf {ps : List Predicate}
    (h : predicatesOf c.resolve conventions params root = .ok ps) :
    ∀ p ∈ ps, p.WellFormed c root :=
  Predicate.forall_mem_of_ofParameters h fun _ _ _ => Predicate.wellFormed_ofParameter

theorem wellFormed_ordersOf {os : List SortOrder}
    (h : ordersOf c.resolve conventions params root = .ok os) :
    ∀ o ∈ os, o.chain.WellFormed c root := by
  obtain ⟨directions, -, h⟩ := bind_eq_ok_iff.mp h
  obtain ⟨chains, hchains, hos⟩ := bind_eq_ok_iff.mp h
  cases hos
  have hchain : ∀ chain ∈ chains, Chain.WellFormed c root chain :=
    forall_mem_of_mapM_eq_ok hchains fun _ _ _ hc => Chain.wellFormed_of_resolve hc
  intro o ho
  obtain ⟨i, hi, rfl⟩ := List.mem_mapIdx.mp ho
  exact hchain _ (List.getElem_mem hi)

/-- **All answers are well formed**: the predicates and orders of a whole request, of either part of
it, and the predicate of a single path and value. -/
theorem answers_wellFormed (c : Catalog) (conventions : Conventions) (params : Params)
    (root path raw : String) :
    (∀ q, ofParams c.resolve conventions params root = .ok q →
      (∀ p ∈ q.predicates, p.WellFormed c root) ∧ ∀ o ∈ q.orders, o.chain.WellFormed c root) ∧
    (∀ ps, predicatesOf c.resolve conventions params root = .ok ps →
      ∀ p ∈ ps, p.WellFormed c root) ∧
    (∀ os, ordersOf c.resolve conventions params root = .ok os →
      ∀ o ∈ os, o.chain.WellFormed c root) ∧
    ∀ p, predicateOf c.resolve root path raw = .ok p → p.WellFormed c root := by
  refine ⟨fun q h => ?_, fun ps => wellFormed_predicatesOf, fun os => wellFormed_ordersOf,
    fun p h => ?_⟩
  · obtain ⟨ps, hps, h⟩ := bind_eq_ok_iff.mp h
    obtain ⟨os, hos, h⟩ := bind_eq_ok_iff.mp h
    cases h
    exact ⟨wellFormed_predicatesOf hps, wellFormed_ordersOf hos⟩
  · obtain ⟨chain, hchain, hp⟩ := bind_eq_ok_iff.mp h
    exact Predicate.wellFormed_ofRaw (Chain.wellFormed_of_resolve hchain) hp

/-- The law at a request for two kinds of applications, cheapest first. -/
theorem answers_wellFormed_cheapest :
    let params : Params := .ofList
      [("application.kind", "web"), ("sort", "application.price"), ("application.kind", "===batch")]
    let application : Attribute := ⟨"application", .identifier true, some "Application"⟩
    let kind : Attribute := ⟨"kind", .enumeration ["web", "=batch"], none⟩
    let price : Attribute := ⟨"price", .decimal, none⟩
    let isOneOf : Predicate :=
      ⟨[application, kind], .oneOf, .many [.member "web", .member "=batch"]⟩
    let cheapest : SortOrder := ⟨[application, price], .ascending⟩
    let present : Predicate := ⟨[application], .present, .absent⟩
    (ofParams Catalog.sample.resolve {} params "Resource" = .ok ⟨[isOneOf], [cheapest]⟩ ∧
      (∀ p ∈ [isOneOf], p.WellFormed Catalog.sample "Resource") ∧
      ∀ o ∈ [cheapest], o.chain.WellFormed Catalog.sample "Resource") ∧
    (predicatesOf Catalog.sample.resolve {} params "Resource" = .ok [isOneOf] ∧
      isOneOf.WellFormed Catalog.sample "Resource") ∧
    (ordersOf Catalog.sample.resolve {} params "Resource" = .ok [cheapest] ∧
      cheapest.chain.WellFormed Catalog.sample "Resource") ∧
    predicateOf Catalog.sample.resolve "Resource" "application" "∃" = .ok present ∧
      present.WellFormed Catalog.sample "Resource" := by
  intro params application kind price isOneOf cheapest present
  obtain ⟨ofWhole, ofPredicates, ofOrders, ofPredicate⟩ :=
    answers_wellFormed Catalog.sample {} params "Resource" "application" "∃"
  exact ⟨⟨rfl, ofWhole _ rfl⟩, ⟨rfl, ofPredicates _ rfl _ List.mem_cons_self⟩,
    ⟨rfl, ofOrders _ rfl _ List.mem_cons_self⟩, rfl, ofPredicate _ rfl⟩

end Query

end QueryFilter
