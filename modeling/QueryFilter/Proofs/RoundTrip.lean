import QueryFilter.Proofs.WellFormed

/-!
# Predicates written as parameters

The predicates which a parameter makes can be written as a parameter again: under the path of their
chain, with brackets if there were any (`Predicate.rawName`), and with a raw value for each of them
or for each member (`Predicate.rawValues`). The written parameter need not be the one which they
came from: `=a` and `a` are both written as `==a`, and numbers and dates come in their usual form.
But it makes the same predicates (`Predicate.push_rendered`), whatever characters stand in the
literals.

The reason is twofold. A value is read from its own text at its own type, and this text does not
make the comparison before it longer, since it is either the literal which stood behind this
comparison before or starts as a number does.
-/

namespace QueryFilter

open Answer

/-! ### One value -/

namespace Condition

theorem not_extends_of_begins {c : Comparison} {s : String} (h : Numeral.Begins s.toList) :
    ¬ Extends c s := by
  obtain ⟨x, rest, hs, hx⟩ := h
  have hne : x ≠ '=' ∧ x ≠ '>' := by
    rcases hx with hx | rfl
    · constructor
      · rintro rfl; exact absurd hx (by decide)
      · rintro rfl; exact absurd hx (by decide)
    · decide
  rw [extends_iff, hs]
  simp [hne.1, hne.2]

/-- **A comparison is read back in front of the text of its value.** -/
theorem read_symbol_append_display {raw literal : String} {type : ValueType} {v : Value}
    (h : (read raw).literal = some literal) (hv : type.read? literal = some v) :
    read ((read raw).comparison.symbol ++ v.display) =
      ⟨(read raw).comparison, some v.display⟩ := by
  refine read_symbol_append_of_literal h ?_
  rcases ValueType.display_eq_or_begins hv with hdisplay | hbegins
  · rw [hdisplay]
    exact not_extends_of_literal h
  · exact not_extends_of_begins hbegins

theorem read_equal_append (s : String) :
    read (Comparison.equal.symbol ++ s) = ⟨.equal, some s⟩ := by
  refine read_symbol_append_of_valued Comparison.noConfusion rfl ?_
  rw [extends_iff]
  simp

end Condition

/-! ### Written predicates -/

namespace Predicate

/-- The raw values which write a predicate: its comparison in front of its operand, or for a test
for membership each member behind a sign of equality. -/
def rawValues (p : Predicate) : List String :=
  match p.operand with
  | .many vs => vs.map fun v => Comparison.equal.symbol ++ v.display
  | operand => [p.comparison.symbol ++ operand.display]

/-- The name under which predicates of a chain are written in the place of another name: the path of
the chain, with brackets at its end if the other name has them. -/
def rawName (name : String) (chain : Chain) : String :=
  if "[]".toList <:+ name.toList then chain.path ++ "[]" else chain.path

/-- The path which a name is the key of, written in the place of the name, is the name. -/
theorem rawName_eq {name : String} {chain : Chain}
    (h : chain.path = (FilterKey.read name).path) : rawName name chain = name := by
  unfold rawName
  rcases FilterKey.eq_append_or_ne name with ⟨path, rfl⟩ | hname
  · rw [FilterKey.read_append_brackets] at h
    rw [if_pos (String.toList_append ▸ List.suffix_append _ _), h]
  · rw [FilterKey.read_of_ne hname] at h
    rw [if_neg ?_, h]
    rintro ⟨path, hpath⟩
    refine hname (String.ofList path) ?_
    rw [← String.toList_inj, String.toList_append, String.toList_ofList]
    exact hpath.symm

theorem chain_of_ofRaw {chain : Chain} {raw : String} {p : Predicate}
    (h : ofRaw chain raw = .ok p) : p.chain = chain := by
  obtain ⟨operand, -, h⟩ := bind_eq_ok_iff.mp h
  cases h
  rfl

theorem chain_of_ofMembers {chain : Chain} {raws : List String} {p : Predicate}
    (h : ofMembers chain raws = .ok p) : p.chain = chain := by
  obtain ⟨last, -, h⟩ := bind_eq_ok_iff.mp h
  obtain ⟨literals, -, h⟩ := bind_eq_ok_iff.mp h
  obtain ⟨members, -, h⟩ := bind_eq_ok_iff.mp h
  cases h
  rfl

/-- **The predicate of a raw value is written as a raw value** which makes it again. -/
theorem exists_rawValues_of_ofRaw {chain : Chain} (hchain : chain ≠ []) {raw : String}
    {p : Predicate} (h : ofRaw chain raw = .ok p) :
    ∃ raw', p.rawValues = [raw'] ∧ ofRaw chain raw' = .ok p := by
  cases (ofRaw_eq_iff hchain).mp h with
  | marker hliteral =>
    refine ⟨_, rfl, ?_⟩
    have hread := Condition.read_symbol_of_unary ((Condition.literal_eq_none_iff raw).mp hliteral)
    show ofRaw chain ((Condition.read raw).comparison.symbol ++ "") = _
    rw [String.append_empty, ofRaw_of_marker (by rw [hread]), hread]
  | @literal literal last v hliteral hlast hv =>
    refine ⟨_, rfl, ?_⟩
    cases hv with
    | value hv =>
      have hread := Condition.read_symbol_append_display hliteral hv
      have hcoerce : last.type.coerce v.display = .ok v :=
        ValueType.coerce_eq_iff.mpr
          (.value (ValueType.read?_display (ValueType.inhabits_of_read? hv)))
      show ofRaw chain ((Condition.read raw).comparison.symbol ++ v.display) = _
      rw [ofRaw_of_literal (by rw [hread]) hlast, hcoerce, hread]
      rfl

/-- **A test for membership is written as its members**, which make it again. -/
theorem ofMembers_rawValues {chain : Chain} (hchain : chain ≠ []) {raws : List String}
    {p : Predicate} (h : ofMembers chain raws = .ok p) :
    p.rawValues.length = raws.length ∧ ofMembers chain p.rawValues = .ok p := by
  cases (ofMembers_eq_iff hchain).mp h with
  | @members last literals vs hlast hliterals hvs =>
    have hinhabits := ValueType.inhabits_of_coerceAll (ValueType.coerceAll_eq_iff.mpr hvs)
    have hliterals' : Runs (OfMember last.type.kind)
        (vs.map fun v => Comparison.equal.symbol ++ v.display) (.ok (vs.map Value.display)) := by
      show List.Forall₂ _ (vs.map _) (vs.map _)
      rw [List.forall₂_map_left_iff, List.forall₂_map_right_iff, List.forall₂_same]
      intro v _
      exact .literal (by rw [Condition.read_equal_append])
    have hvs' : Runs (OfLiteral last.type) (vs.map Value.display) (.ok vs) := by
      show List.Forall₂ _ (vs.map _) vs
      rw [List.forall₂_map_left_iff, List.forall₂_same]
      intro v hv
      exact .value (ValueType.read?_display (hinhabits v hv))
    constructor
    · show (vs.map _).length = raws.length
      rw [List.length_map]
      exact hvs.length_eq.symm.trans hliterals.length_eq.symm
    · exact (ofMembers_eq_iff hchain).mpr (.members hlast hliterals' hvs')

/-! ### Written parameters -/

theorem mapM_ofRaw_rawValues {chain : Chain} (hchain : chain ≠ []) {raws : List String}
    {ps : List Predicate} (h : raws.mapM (ofRaw chain) = .ok ps) :
    (ps.flatMap rawValues).mapM (ofRaw chain) = .ok ps := by
  rw [mapM_eq_ok_iff] at h ⊢
  induction h with
  | nil => exact .nil
  | cons hp _ ih =>
    obtain ⟨raw', hvalues, hp'⟩ := exists_rawValues_of_ofRaw hchain hp
    rw [List.flatMap_cons, hvalues]
    exact .cons hp' ih

theorem push_nil_eq_ok_iff {lookup : Lookup} {root name : String} {raws : List String}
    {ps : List Predicate} :
    push lookup root [] name raws = (ps, .ok ()) ↔ ofParameter lookup root name raws = .ok ps := by
  rw [push_eq_ok_iff]
  simp

theorem ofParameter_rawValues {lookup : Lookup} {root name : String} {raws : List String}
    (hraws : raws ≠ []) {ps : List Predicate} (h : ofParameter lookup root name raws = .ok ps) :
    ofParameter lookup root name (ps.flatMap rawValues) = .ok ps := by
  obtain ⟨chain, hresolve, hcases⟩ := (ofParameter_eq_ok_iff hraws).mp h
  have hchain := (Path.resolve_eq_ok_iff.mp hresolve).1.ne_nil
  have hpos : 0 < raws.length := List.length_pos_iff.mpr hraws
  rcases hcases with ⟨hkey, hrun⟩ | ⟨hkey, p, rfl, ⟨raw, rfl, hp⟩ | ⟨hlength, hp⟩⟩
  · have hrun' := mapM_ofRaw_rawValues hchain hrun
    have hne : ps.flatMap rawValues ≠ [] := by
      rw [← List.length_pos_iff, ← length_of_mapM_eq_ok hrun', length_of_mapM_eq_ok hrun]
      exact hpos
    exact (ofParameter_eq_ok_iff hne).mpr ⟨chain, hresolve, Or.inl ⟨hkey, hrun'⟩⟩
  · obtain ⟨raw', hvalues, hp'⟩ := exists_rawValues_of_ofRaw hchain hp
    rw [List.flatMap_singleton, hvalues]
    exact (ofParameter_eq_ok_iff (List.cons_ne_nil raw' [])).mpr
      ⟨chain, hresolve, Or.inr ⟨hkey, p, rfl, Or.inl ⟨raw', rfl, hp'⟩⟩⟩
  · obtain ⟨hsame, hp'⟩ := ofMembers_rawValues hchain hp
    rw [List.flatMap_singleton]
    have hne : p.rawValues ≠ [] := by
      rw [← List.length_pos_iff, hsame]
      exact hpos
    exact (ofParameter_eq_ok_iff hne).mpr
      ⟨chain, hresolve, Or.inr ⟨hkey, p, rfl, Or.inr ⟨hsame ▸ hlength, hp'⟩⟩⟩

/-- A parameter with values makes at least one predicate, and all of them about the chain of its
path. -/
theorem chain_of_ofParameter {lookup : Lookup} {root name : String} {raws : List String}
    (hraws : raws ≠ []) {ps : List Predicate} (h : ofParameter lookup root name raws = .ok ps) :
    ps ≠ [] ∧ ∃ chain, Path.resolve lookup root (FilterKey.read name).path = .ok chain ∧
      ∀ p ∈ ps, p.chain = chain := by
  obtain ⟨chain, hresolve, ⟨-, hrun⟩ | ⟨-, p, rfl, hp⟩⟩ := (ofParameter_eq_ok_iff hraws).mp h
  · refine ⟨?_, chain, hresolve, forall_mem_of_mapM_eq_ok hrun fun _ _ _ => chain_of_ofRaw⟩
    rw [← List.length_pos_iff, length_of_mapM_eq_ok hrun]
    exact List.length_pos_iff.mpr hraws
  · refine ⟨List.cons_ne_nil p [], chain, hresolve, fun q hq => ?_⟩
    obtain rfl := List.mem_singleton.mp hq
    rcases hp with ⟨raw, -, hp⟩ | ⟨-, hp⟩
    · exact chain_of_ofRaw hp
    · exact chain_of_ofMembers hp

/-- **Predicates which are written as a parameter come back.** In a built catalog, if a parameter
with values makes predicates, they are all about one chain, and the parameter which is written for
them under the path of this chain makes the same predicates. -/
theorem push_rendered {c : Catalog} (hc : c.Built) {root name : String} {raws : List String}
    (hraws : raws ≠ []) {ps : List Predicate}
    (h : push c.resolve root [] name raws = (ps, .ok ())) :
    ps ≠ [] ∧ ∃ chain, (∀ p ∈ ps, p.chain = chain) ∧
      push c.resolve root [] (rawName name chain) (ps.flatMap rawValues) = (ps, .ok ()) := by
  rw [push_nil_eq_ok_iff] at h
  obtain ⟨hne, chain, hresolve, hchain⟩ := chain_of_ofParameter hraws h
  have hpath : chain.path = (FilterKey.read name).path :=
    Path.path_of_names hc (Path.resolve_eq_ok_iff.mp hresolve).1
  refine ⟨hne, chain, hchain, ?_⟩
  rw [rawName_eq hpath, push_nil_eq_ok_iff]
  exact ofParameter_rawValues hraws h

/-- The law at three values, one of which has a literal which starts like a comparison. -/
theorem push_rendered_kinds :
    let application : Attribute := ⟨"application", .identifier true, some "Application"⟩
    let kind : Attribute := ⟨"kind", .enumeration ["web", "=batch"], none⟩
    let ps : List Predicate :=
      [⟨[application, kind], .equal, .single (.member "web")⟩,
        ⟨[application, kind], .notEqual, .single (.member "=batch")⟩,
        ⟨[application, kind], .notNull, .absent⟩]
    Catalog.sample.Built ∧
    push Catalog.sample.resolve "Resource" [] "application.kind[]" ["web", "<>=batch", "!∅?"] =
      (ps, .ok ()) ∧
    rawName "application.kind[]" [application, kind] = "application.kind[]" ∧
    ps.flatMap rawValues = ["==web", "<>=batch", "!∅"] ∧
    push Catalog.sample.resolve "Resource" [] "application.kind[]" ["==web", "<>=batch", "!∅"] =
      (ps, .ok ()) := by
  intro application kind ps
  have hpush : push Catalog.sample.resolve "Resource" [] "application.kind[]"
      ["web", "<>=batch", "!∅?"] = (ps, .ok ()) := rfl
  obtain ⟨-, chain, hchain, hrendered⟩ :=
    push_rendered Catalog.built_sample (List.cons_ne_nil "web" ["<>=batch", "!∅?"]) hpush
  obtain rfl : [application, kind] = chain := hchain _ List.mem_cons_self
  have hname : rawName "application.kind[]" [application, kind] = "application.kind[]" := by decide
  have hvalues : ps.flatMap rawValues = ["==web", "<>=batch", "!∅"] := by decide
  rw [hname, hvalues] at hrendered
  exact ⟨Catalog.built_sample, hpush, hname, hvalues, hrendered⟩

end Predicate

end QueryFilter
