import QueryFilter.Proofs.RoundTrip

/-!
# The attribute which a predicate is about

Whoever runs a predicate asks for its attribute, `Predicate.attribute?`, and has no way on without
one. What a path resolves to is never empty, so every predicate which a parameter, a request or a
single path makes is about an attribute (`Query.answers_have_attribute`).

Only `Predicate.ofRaw` can be asked about a chain which no path resolved to. About the empty chain
it refuses a literal, since there is no type to read it at. A marker takes no literal, so nothing
looks at the chain, and the predicate which it makes is about no attribute
(`Predicate.marker_without_attribute`). There is no other predicate of this kind
(`Predicate.attribute?_eq_none_iff_of_ofRaw`).
-/

namespace QueryFilter

/-- **The markers are the values which start with a sign for presence**, whatever stands behind
it. -/
theorem Condition.literal_eq_none_iff_starts (raw : String) :
    (read raw).literal = none ↔ ∃ t ∈ ["∃", "!∅", "∅"], t.toList <+: raw.toList := by
  have hmarkers : ∀ t ∈ Comparison.tokens, t.2.isUnary = true ↔ t.1 ∈ ["∃", "!∅", "∅"] := by decide
  have hlongest : ∀ t ∈ Comparison.tokens, ∀ u ∈ ["∃", "!∅", "∅"],
      u.toList <+: t.1.toList → t.2.isUnary = true := by decide
  have htoken : ∀ u ∈ ["∃", "!∅", "∅"], ∃ t ∈ Comparison.tokens, t.1 = u := by decide
  rw [literal_eq_none_iff]
  rcases read_cases raw with ⟨t, ht, rest, hraw, hread, hlonger⟩ | ⟨hnone, hread⟩
  · rw [hread]
    constructor
    · intro hunary
      exact ⟨t.1, (hmarkers t ht).mp hunary, rest, hraw.symm⟩
    · rintro ⟨u, hu, hpre⟩
      obtain ⟨t', ht', rfl⟩ := htoken u hu
      exact hlongest t ht t'.1 hu (hlonger t' ht' hpre)
  · rw [hread]
    refine iff_of_false Bool.false_ne_true ?_
    rintro ⟨u, hu, hpre⟩
    obtain ⟨t, ht, rfl⟩ := htoken u hu
    exact hnone t ht hpre

namespace Predicate

/-! ### One raw value -/

theorem attribute?_eq_none_iff {p : Predicate} : p.attribute? = none ↔ p.chain = [] :=
  List.getLast?_eq_none_iff

theorem exists_attribute?_iff {p : Predicate} :
    (∃ a, p.attribute? = some a) ↔ p.chain ≠ [] := by
  rw [Ne, ← attribute?_eq_none_iff, ← Option.ne_none_iff_exists']

/-- About the empty chain a literal is refused. -/
theorem ofRaw_nil_of_literal {raw literal : String}
    (h : (Condition.read raw).literal = some literal) :
    ofRaw [] raw = .error (.malformedPath "" .noAttribute) := by
  rw [ofRaw, operandOf, h]
  rfl

/-- **A predicate without an attribute is one which a marker makes about the empty chain.** -/
theorem attribute?_eq_none_iff_of_ofRaw {chain : Chain} {raw : String} {p : Predicate}
    (h : ofRaw chain raw = .ok p) :
    p.attribute? = none ↔ chain = [] ∧ (Condition.read raw).literal = none := by
  rw [attribute?_eq_none_iff, chain_of_ofRaw h]
  refine ⟨fun hchain => ⟨hchain, ?_⟩, And.left⟩
  subst hchain
  cases hliteral : (Condition.read raw).literal with
  | none => rfl
  | some literal =>
    rw [ofRaw_nil_of_literal hliteral] at h
    cases h

/-- **A marker makes a predicate about nothing** when it is asked about the empty chain. -/
theorem marker_without_attribute :
    ofRaw [] "∃" = .ok ⟨[], .present, .absent⟩ ∧
      attribute? ⟨[], .present, .absent⟩ = none := by
  exact ⟨rfl, rfl⟩

/-! ### Parameters -/

variable {lookup : Lookup} {root : String}

theorem exists_attribute_of_resolve {path raw : String} {chain : Chain} {p : Predicate}
    (hchain : Path.resolve lookup root path = .ok chain) (h : ofRaw chain raw = .ok p) :
    ∃ a, p.attribute? = some a := by
  rw [exists_attribute?_iff, chain_of_ofRaw h]
  exact (Path.resolve_eq_ok_iff.mp hchain).1.ne_nil

theorem exists_attribute_of_ofParameter {name : String} {raws : List String} {ps : List Predicate}
    (h : ofParameter lookup root name raws = .ok ps) : ∀ p ∈ ps, ∃ a, p.attribute? = some a := by
  intro p hp
  by_cases hraws : raws = []
  · rw [ofParameter, if_pos hraws] at h
    cases h
    exact absurd hp List.not_mem_nil
  · obtain ⟨-, chain, hchain, hps⟩ := chain_of_ofParameter hraws h
    rw [exists_attribute?_iff, hps p hp]
    exact (Path.resolve_eq_ok_iff.mp hchain).1.ne_nil

theorem exists_attribute_of_ofParameters {entries : List (String × List String)}
    {ps : List Predicate} (h : ofParameters lookup root entries = .ok ps) :
    ∀ p ∈ ps, ∃ a, p.attribute? = some a :=
  forall_mem_of_ofParameters h fun _ _ _ => exists_attribute_of_ofParameter

end Predicate

/-! ### All answers -/

namespace Query

open Predicate

/-- **Every predicate is about an attribute, unless a marker makes it about the empty chain.** The
predicates of a chain which a path resolves to, of a parameter which is pushed onto a list, of
several parameters, of a request and of a single path are all about an attribute. -/
theorem answers_have_attribute (lookup : Lookup) (conventions : Conventions) (root : String) :
    (∀ chain raw p, ofRaw chain raw = .ok p → (p.attribute? = none ↔
      chain = [] ∧ ∃ t ∈ ["∃", "!∅", "∅"], t.toList <+: raw.toList)) ∧
    (∀ path chain raw p, Path.resolve lookup root path = .ok chain → ofRaw chain raw = .ok p →
      ∃ a, p.attribute? = some a) ∧
    (∀ out name raws out', push lookup root out name raws = (out', .ok ()) →
      ∃ ps, out' = out ++ ps ∧ ∀ p ∈ ps, ∃ a, p.attribute? = some a) ∧
    (∀ entries ps, ofParameters lookup root entries = .ok ps →
      ∀ p ∈ ps, ∃ a, p.attribute? = some a) ∧
    (∀ params ps, predicatesOf lookup conventions params root = .ok ps →
      ∀ p ∈ ps, ∃ a, p.attribute? = some a) ∧
    (∀ params q, ofParams lookup conventions params root = .ok q →
      ∀ p ∈ q.predicates, ∃ a, p.attribute? = some a) ∧
    ∀ path raw p, predicateOf lookup root path raw = .ok p → ∃ a, p.attribute? = some a := by
  refine ⟨?ofRaw, fun path chain raw p => exists_attribute_of_resolve, ?push,
    fun entries ps => exists_attribute_of_ofParameters,
    fun params ps => exists_attribute_of_ofParameters, ?request, ?single⟩
  case ofRaw =>
    intro chain raw p h
    rw [← Condition.literal_eq_none_iff_starts]
    exact attribute?_eq_none_iff_of_ofRaw h
  case push =>
    intro out name raws out' h
    obtain ⟨ps, hps, hout⟩ := push_eq_ok_iff.mp h
    exact ⟨ps, hout, exists_attribute_of_ofParameter hps⟩
  case request =>
    intro params q h
    obtain ⟨ps, hps, h⟩ := bind_eq_ok_iff.mp h
    obtain ⟨os, -, h⟩ := bind_eq_ok_iff.mp h
    cases h
    exact exists_attribute_of_ofParameters hps
  case single =>
    intro path raw p h
    obtain ⟨chain, hchain, hp⟩ := bind_eq_ok_iff.mp h
    exact exists_attribute_of_resolve hchain hp

/-- The law at a marker with text behind it: about a path which resolves it is about the attribute
there, and about the empty chain it is about none. -/
theorem answers_have_attribute_marker :
    let id : Attribute := ⟨"id", .identifier true, none⟩
    let isPresent : Predicate := ⟨[id], .present, .absent⟩
    let resolve := Catalog.sample.resolve
    (ofRaw [] "∃ id" = .ok ⟨[], .present, .absent⟩ ∧ attribute? ⟨[], .present, .absent⟩ = none) ∧
    (Path.resolve resolve "Resource" "id" = .ok [id] ∧ ofRaw [id] "∃ id" = .ok isPresent ∧
      ∃ a, isPresent.attribute? = some a) ∧
    (∃ ps, [isPresent, isPresent] = [isPresent] ++ ps ∧ ∀ p ∈ ps, ∃ a, p.attribute? = some a) ∧
    (predicatesOf resolve {} (.ofList [("id", "∃ id")]) "Resource" = .ok [isPresent] ∧
      ∀ p ∈ [isPresent], ∃ a, p.attribute? = some a) ∧
    predicateOf resolve "Resource" "id" "∃ id" = .ok isPresent := by
  intro id isPresent resolve
  obtain ⟨hraw, hresolve, hpush, -, hrequest, -, -⟩ := answers_have_attribute resolve {} "Resource"
  have hnone : attribute? ⟨[], .present, .absent⟩ = none :=
    (hraw [] "∃ id" ⟨[], .present, .absent⟩ rfl).mpr ⟨rfl, "∃", by simp, by decide⟩
  have hpushed : push resolve "Resource" [isPresent] "id" ["∃ id"] =
      ([isPresent, isPresent], .ok ()) := rfl
  refine ⟨⟨rfl, hnone⟩, ⟨rfl, rfl, hresolve "id" [id] "∃ id" isPresent rfl rfl⟩,
    hpush _ _ _ _ hpushed, ⟨rfl, ?_⟩, rfl⟩
  exact hrequest (.ofList [("id", "∃ id")]) [isPresent] rfl

end Query

end QueryFilter
