import Mathlib.Data.Set.List
import QueryFilter.Proofs.Pushing
import QueryFilter.Proofs.RoundTrip
import QueryFilter.Proofs.WellFormed

/-!
# One value and several of them

A raw value can be compared with a path by itself (`Query.predicateOf`), as the only value of a
parameter, as one of the values of a parameter in brackets, and as a member. The first three are the
same: a parameter in brackets is a run of single values, and one value needs no brackets.

Members go their own way. All literals are taken before the first one is read, so of two faults
another one may come first. But what comes out is the same: several values are members exactly when
each of them makes a predicate by itself and none is a marker, and the members are the operands of
these predicates (`Predicate.ofMembers_eq_ok_iff`). So all ways agree (`Query.one_and_many`).
-/

namespace QueryFilter

open Answer

namespace Predicate

/-! ### Members -/

/-- The operand which a value has alone is the literal which it has as a member, read. -/
theorem exists_ofRaw_single_iff {chain : Chain} {last : Attribute}
    (hlast : chain.getLast? = some last) {raw : String} {v : Value} :
    (∃ p, ofRaw chain raw = .ok p ∧ p.operand = .single v) ↔
      ∃ literal, memberLiteral last.type.kind raw = .ok literal ∧
        last.type.coerce literal = .ok v := by
  unfold memberLiteral
  cases h : (Condition.read raw).literal with
  | none => simp [ofRaw_of_marker h]
  | some literal =>
    rw [ofRaw_of_literal h hlast]
    cases hv : last.type.coerce literal with
    | error f => simp [hv]
    | ok w => simp [hv]

theorem map_operand_eq_iff {ps : List Predicate} {vs : List Value} :
    ps.map operand = vs.map .single ↔ List.Forall₂ (fun p v => p.operand = .single v) ps vs := by
  rw [← List.forall₂_eq_eq_eq, List.forall₂_map_left_iff, List.forall₂_map_right_iff]

/-- **The members are the operands** which the values have alone. -/
theorem ofMembers_eq_ok_iff {chain : Chain} (hchain : chain ≠ []) {raws : List String}
    {p : Predicate} :
    ofMembers chain raws = .ok p ↔
      ∃ ps vs, raws.mapM (ofRaw chain) = .ok ps ∧ ps.map operand = vs.map .single ∧
        p = ⟨chain, .oneOf, .many vs⟩ := by
  obtain ⟨last, hlast⟩ := Option.isSome_iff_exists.mp (List.getLast?_isSome.mpr hchain)
  have hrun (vs : List Value) :
      (raws.mapM (memberLiteral last.type.kind) >>= last.type.coerceAll) = .ok vs ↔
        ∃ ps, raws.mapM (ofRaw chain) = .ok ps ∧ ps.map operand = vs.map .single := by
    unfold ValueType.coerceAll
    simp only [bind_eq_ok_iff, mapM_eq_ok_iff, map_operand_eq_iff, forall₂_comp_iff,
      exists_ofRaw_single_iff hlast]
  rw [ofMembers_of_getLast? hlast]
  constructor
  · intro h
    cases hvs : raws.mapM (memberLiteral last.type.kind) >>= last.type.coerceAll with
    | error f =>
      rw [hvs] at h
      cases h
    | ok vs =>
      rw [hvs] at h
      obtain ⟨ps, hps, hoperands⟩ := (hrun vs).mp hvs
      exact ⟨ps, vs, hps, hoperands, (Except.ok.inj h).symm⟩
  · rintro ⟨ps, vs, hps, hoperands, rfl⟩
    rw [(hrun vs).mpr ⟨ps, hps, hoperands⟩]
    rfl

/-- A predicate of a value has an operand unless the value is a marker. -/
theorem isUnary_eq_false_iff_of_ofRaw {chain : Chain} (hchain : chain ≠ []) {raw : String}
    {p : Predicate} (h : ofRaw chain raw = .ok p) :
    p.comparison.isUnary = false ↔ ∃ v, p.operand = .single v := by
  cases (ofRaw_eq_iff hchain).mp h with
  | marker hliteral => simp [(Condition.literal_eq_none_iff raw).mp hliteral]
  | literal hliteral _ _ => simp [Condition.isUnary_of_literal hliteral]

/-- Predicates of values have operands altogether unless there is a marker. -/
theorem forall_isUnary_eq_false_iff {chain : Chain} (hchain : chain ≠ []) {raws : List String}
    {ps : List Predicate} (h : raws.mapM (ofRaw chain) = .ok ps) :
    (∀ p ∈ ps, p.comparison.isUnary = false) ↔ ∃ vs : List Value, ps.map operand = vs.map .single := by
  have hoperand : ∀ p ∈ ps, p.comparison.isUnary = false ↔ ∃ v, p.operand = .single v :=
    forall_mem_of_mapM_eq_ok h fun _ _ _ hp => isUnary_eq_false_iff_of_ofRaw hchain hp
  have hrange : (∃ vs : List Value, ps.map operand = vs.map .single) ↔
      ∀ p ∈ ps, ∃ v, p.operand = .single v := by
    have hmem : ps.map operand ∈ Set.range (List.map Operand.single) ↔
        ∀ x ∈ ps.map operand, x ∈ Set.range Operand.single := by
      rw [Set.range_list_map]
      rfl
    rw [List.forall_mem_map] at hmem
    simpa only [Set.mem_range, eq_comm] using hmem
  rw [hrange]
  exact forall_congr' fun p => forall_congr' fun hp => hoperand p hp

end Predicate

namespace Query

open Predicate

variable {lookup : Lookup} {root path : String}

/-! ### One value by itself -/

theorem predicateOf_of_error {f : QueryFault} (h : Path.resolve lookup root path = .error f)
    (raw : String) : predicateOf lookup root path raw = .error f := by
  rw [predicateOf, h]
  rfl

theorem predicateOf_of_ok {chain : Chain} (h : Path.resolve lookup root path = .ok chain) :
    predicateOf lookup root path = ofRaw chain := by
  funext raw
  rw [predicateOf, h]
  rfl

/-! ### The same value in a parameter -/

/-- A name in brackets takes its values one by one. Without values the path is not looked at. -/
theorem ofParameter_append_brackets (raws : List String) :
    ofParameter lookup root (path ++ "[]") raws = raws.mapM (predicateOf lookup root path) := by
  have hkey := FilterKey.read_append_brackets path
  cases raws with
  | nil => rfl
  | cons raw rest =>
    have hraws : raw :: rest ≠ [] := List.cons_ne_nil raw rest
    cases h : Path.resolve lookup root path with
    | error f =>
      rw [ofParameter_of_error hraws hkey h, List.mapM_cons, predicateOf_of_error h]
      rfl
    | ok chain => rw [ofParameter_of_independent hraws hkey h, predicateOf_of_ok h]

theorem ofParameter_singleton (hpath : ∀ other, path ≠ other ++ "[]") (raw : String) :
    ofParameter lookup root path [raw] =
      (predicateOf lookup root path raw).map fun p => [p] := by
  have hkey := FilterKey.read_of_ne hpath
  cases h : Path.resolve lookup root path with
  | error f =>
    rw [ofParameter_of_error (List.cons_ne_nil raw []) hkey h, predicateOf_of_error h]
    rfl
  | ok chain => rw [ofParameter_of_single hkey h, predicateOf_of_ok h]

/-- Several values under a name without brackets, by what the name in brackets makes of them. -/
theorem ofParameter_members_eq_ok_iff (hpath : ∀ other, path ≠ other ++ "[]") {raws : List String}
    (hraws : 1 < raws.length) {qs : List Predicate} :
    ofParameter lookup root path raws = .ok qs ↔
      ∃ chain ps vs, Path.resolve lookup root path = .ok chain ∧
        ofParameter lookup root (path ++ "[]") raws = .ok ps ∧
        ps.map operand = vs.map .single ∧ qs = [⟨chain, .oneOf, .many vs⟩] := by
  have hkey := FilterKey.read_of_ne hpath
  have hne : raws ≠ [] := List.ne_nil_of_length_pos (Nat.zero_lt_of_lt hraws)
  rw [ofParameter_append_brackets]
  cases h : Path.resolve lookup root path with
  | error f =>
    rw [ofParameter_of_error hne hkey h]
    simp
  | ok chain =>
    have hchain : chain ≠ [] := (Path.resolve_eq_ok_iff.mp h).1.ne_nil
    rw [ofParameter_of_members hraws hkey h, predicateOf_of_ok h]
    constructor
    · intro hqs
      cases hp : ofMembers chain raws with
      | error f =>
        rw [hp] at hqs
        cases hqs
      | ok p =>
        rw [hp] at hqs
        cases hqs
        obtain ⟨ps, vs, hps, hoperands, rfl⟩ := (ofMembers_eq_ok_iff hchain).mp hp
        exact ⟨chain, ps, vs, rfl, hps, hoperands, rfl⟩
    · rintro ⟨chain', ps, vs, hchain', hps, hoperands, rfl⟩
      cases hchain'
      rw [(ofMembers_eq_ok_iff hchain).mpr ⟨ps, vs, hps, hoperands, rfl⟩]
      rfl

/-- The predicates of a name in brackets have one chain, and have operands altogether unless there
is a marker. -/
theorem of_ofParameter_append_brackets {raws : List String} (hraws : raws ≠ [])
    {ps : List Predicate} (h : ofParameter lookup root (path ++ "[]") raws = .ok ps) :
    ∃ chain, Path.resolve lookup root path = .ok chain ∧ ps.length = raws.length ∧
      (∀ p ∈ ps, p.chain = chain) ∧ ((∀ p ∈ ps, p.comparison.isUnary = false) ↔
        ∃ vs : List Value, ps.map operand = vs.map .single) := by
  have hkey := FilterKey.read_append_brackets path
  cases hchain : Path.resolve lookup root path with
  | error f =>
    rw [ofParameter_of_error hraws hkey hchain] at h
    cases h
  | ok chain =>
    rw [ofParameter_of_independent hraws hkey hchain] at h
    exact ⟨chain, rfl, length_of_mapM_eq_ok h,
      forall_mem_of_mapM_eq_ok h fun _ _ _ => chain_of_ofRaw,
      forall_isUnary_eq_false_iff (Path.resolve_eq_ok_iff.mp hchain).1.ne_nil h⟩

/-- Several values make a test exactly when they make predicates one by one and none is a marker. -/
theorem exists_ofParameter_members_iff (hpath : ∀ other, path ≠ other ++ "[]")
    {raws : List String} (hraws : 1 < raws.length) :
    (∃ qs, ofParameter lookup root path raws = .ok qs) ↔
      ∃ ps, ofParameter lookup root (path ++ "[]") raws = .ok ps ∧
        ∀ p ∈ ps, p.comparison.isUnary = false := by
  have hne : raws ≠ [] := List.ne_nil_of_length_pos (Nat.zero_lt_of_lt hraws)
  constructor
  · rintro ⟨qs, hqs⟩
    obtain ⟨_, ps, vs, -, hps, hoperands, -⟩ := (ofParameter_members_eq_ok_iff hpath hraws).mp hqs
    obtain ⟨_, -, -, -, hmarkers⟩ := of_ofParameter_append_brackets hne hps
    exact ⟨ps, hps, hmarkers.mpr ⟨vs, hoperands⟩⟩
  · rintro ⟨ps, hps, hunary⟩
    obtain ⟨chain, hchain, -, -, hmarkers⟩ := of_ofParameter_append_brackets hne hps
    obtain ⟨vs, hoperands⟩ := hmarkers.mp hunary
    exact ⟨_, (ofParameter_members_eq_ok_iff hpath hraws).mpr
      ⟨chain, ps, vs, hchain, hps, hoperands, rfl⟩⟩

/-- The members of the test are the operands of the predicates. -/
theorem exists_members_of_ofParameter (hpath : ∀ other, path ≠ other ++ "[]") {raws : List String}
    (hraws : 1 < raws.length) {ps qs : List Predicate}
    (hqs : ofParameter lookup root path raws = .ok qs)
    (hps : ofParameter lookup root (path ++ "[]") raws = .ok ps) :
    ps.length = raws.length ∧ ∃ chain vs, qs = [⟨chain, .oneOf, .many vs⟩] ∧
      (∀ p ∈ ps, p.chain = chain) ∧ ps.map operand = vs.map .single := by
  have hne : raws ≠ [] := List.ne_nil_of_length_pos (Nat.zero_lt_of_lt hraws)
  obtain ⟨chain, ps', vs, hchain, hps', hoperands, rfl⟩ :=
    (ofParameter_members_eq_ok_iff hpath hraws).mp hqs
  cases hps'.symm.trans hps
  obtain ⟨chain', hchain', hlength, hchains, -⟩ := of_ofParameter_append_brackets hne hps'
  cases hchain.symm.trans hchain'
  exact ⟨hlength, chain, vs, rfl, hchains, hoperands⟩

theorem predicatesOf_singleton {conventions : Conventions} (hpath : ∀ other, path ≠ other ++ "[]")
    (hreserved : ¬ IsReserved conventions path) (raw : String) :
    predicatesOf lookup conventions (.ofList [(path, raw)]) root =
      (predicateOf lookup root path raw).map fun p => [p] := by
  have hfilters : filters conventions (.ofList [(path, raw)]) = [(path, [raw])] := by
    show List.filter _ [(path, [raw])] = _
    rw [List.filter_singleton, not_isReserved, decide_eq_true hreserved]
    rfl
  rw [predicatesOf, hfilters, ofParameters_cons, ofParameter_singleton hpath]
  cases predicateOf lookup root path raw <;> rfl

/-- **One value and several agree.** Values under a name in brackets are predicates by themselves,
one after the other up to the first fault, and so is one value under a name without brackets,
whether it is pushed onto a list or is the only parameter of a request. Several values under a name
without brackets are accepted exactly when the name in brackets accepts them and makes no marker of
any; and then they are the members, in their order, of one test of the same chain. -/
theorem one_and_many (lookup : Lookup) (conventions : Conventions) (root path : String)
    (hpath : ∀ other, path ≠ other ++ "[]") :
    (∀ out raws, push lookup root out (path ++ "[]") raws =
      extend out (raws.mapM (predicateOf lookup root path))) ∧
    (∀ out raw, push lookup root out path [raw] =
      extend out ((predicateOf lookup root path raw).map fun p => [p])) ∧
    (¬ IsReserved conventions path → ∀ raw,
      predicatesOf lookup conventions (.ofList [(path, raw)]) root =
        (predicateOf lookup root path raw).map fun p => [p]) ∧
    ∀ out raws, 1 < raws.length →
      ((∃ out', push lookup root out path raws = (out', .ok ())) ↔
        ∃ ps, push lookup root out (path ++ "[]") raws = (out ++ ps, .ok ()) ∧ ∀ p ∈ ps,
          ¬ (p.comparison = .present ∨ p.comparison = .notNull ∨ p.comparison = .null)) ∧
      ∀ out' ps, push lookup root out path raws = (out', .ok ()) →
        push lookup root out (path ++ "[]") raws = (out ++ ps, .ok ()) →
        ps.length = raws.length ∧ ∃ chain vs, out' = out ++ [⟨chain, .oneOf, .many vs⟩] ∧
          (∀ p ∈ ps, p.chain = chain) ∧ ps.map operand = vs.map .single := by
  refine ⟨fun out raws => ?_, fun out raw => ?_,
    fun hreserved raw => predicatesOf_singleton hpath hreserved raw,
    fun out raws hraws => ⟨?_, fun out' ps hout' hps => ?_⟩⟩
  · rw [push_eq_extend, ofParameter_append_brackets]
  · rw [push_eq_extend, ofParameter_singleton hpath]
  · have hpush : (∃ qs, ofParameter lookup root path raws = .ok qs) ↔
        ∃ ps, ofParameter lookup root (path ++ "[]") raws = .ok ps ∧
          ∀ p ∈ ps, p.comparison.isUnary = false :=
      exists_ofParameter_members_iff hpath hraws
    simp only [push_eq_ok_iff, ← Comparison.isUnary_iff, Bool.not_eq_true]
    simpa using hpush
  · obtain ⟨qs, hqs, rfl⟩ := push_eq_ok_iff.mp hout'
    obtain ⟨ps', hps', hsame⟩ := push_eq_ok_iff.mp hps
    cases List.append_cancel_left hsame
    obtain ⟨hlength, chain, vs, rfl, hmembers⟩ := exists_members_of_ofParameter hpath hraws hqs hps'
    exact ⟨hlength, chain, vs, rfl, hmembers⟩

/-- The law at a path with a numeric attribute: `2` under a comparison is a member like `1`, a
marker and a word are not. -/
theorem one_and_many_id :
    let id : Attribute := ⟨"id", .identifier true, none⟩
    let isOne : Predicate := ⟨[id], .equal, .single (.integer 1)⟩
    let isMore : Predicate := ⟨[id], .greater, .single (.integer 2)⟩
    let isNull : Predicate := ⟨[id], .null, .absent⟩
    let word : QueryFault := .coercion "x" .identifier
    let resolve := Catalog.sample.resolve
    (∀ other, "id" ≠ other ++ "[]") ∧ ¬ IsReserved {} "id" ∧
    push resolve "Resource" [isNull] "id[]" ["1", "x", "∅"] = ([isNull], .error word) ∧
    push resolve "Resource" [isNull] "id" ["x"] = ([isNull], .error word) ∧
    predicatesOf resolve {} (.ofList [("id", ">2")]) "Resource" = .ok [isMore] ∧
    (∃ chain vs, push resolve "Resource" [isNull] "id" ["1", ">2"] =
        ([isNull] ++ [⟨chain, .oneOf, .many vs⟩], .ok ()) ∧
      isOne.chain = chain ∧ [isOne, isMore].map operand = vs.map .single) ∧
    ¬ ∃ out, push resolve "Resource" [isNull] "id" ["1", "∅"] = (out, .ok ()) := by
  intro id isOne isMore isNull word resolve
  have hpath : ∀ other, "id" ≠ other ++ "[]" :=
    FilterKey.forall_ne_append_brackets_iff.mpr (by decide)
  have hreserved : ¬ IsReserved {} "id" := by decide
  obtain ⟨hbrackets, hsingle, hrequest, hmany⟩ := one_and_many resolve {} "Resource" "id" hpath
  refine ⟨hpath, hreserved, (hbrackets [isNull] ["1", "x", "∅"]).trans rfl,
    (hsingle [isNull] "x").trans rfl, (hrequest hreserved ">2").trans rfl, ?_, ?_⟩
  · obtain ⟨haccepted, hmembers⟩ := hmany [isNull] ["1", ">2"] (by decide)
    have hps : push resolve "Resource" [isNull] ("id" ++ "[]") ["1", ">2"] =
        ([isNull] ++ [isOne, isMore], .ok ()) := rfl
    obtain ⟨out, hout⟩ := haccepted.mpr ⟨[isOne, isMore], hps, by decide⟩
    obtain ⟨-, chain, vs, rfl, hchains, hoperands⟩ := hmembers out _ hout hps
    exact ⟨chain, vs, hout, hchains isOne (by simp), hoperands⟩
  · rw [(hmany [isNull] ["1", "∅"] (by decide)).1]
    rintro ⟨ps, hps, hmarkers⟩
    have hps' : [isNull] ++ ps = [isNull] ++ [isOne, isNull] := congrArg Prod.fst hps.symm
    rw [List.append_cancel_left hps'] at hmarkers
    exact hmarkers isNull (by simp) (by decide)

end Query

end QueryFilter
