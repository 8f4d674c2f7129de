import QueryFilter.Query
import QueryFilter.Proofs.Params
import QueryFilter.Proofs.Path

/-!
# What a request asks for

A request is a flat list of pairs. This file says which predicates it asks for, in relations over
the pairs themselves, and proves that these are the answers of `Query.predicatesOf`, which works on
the grouped parameters.

* `Answer.OfRaw`: one raw value about a chain.
* `Answer.OfMembers`: several raw values as one test for membership.
* `Answer.OfParameter`: one name with its values.
* `Answer.OfRequest`: the whole list.

A relation has one rule for each way to end, so the order of the faults can be read off: the path of
a name comes before its values; among members a marker comes before any literal which is refused;
and of several values, or names, the first one counts (`Runs`).
-/

namespace QueryFilter

namespace Answer

/-! ### One value -/

/-- What a type makes of a literal. -/
inductive OfLiteral (type : ValueType) (literal : String) : Except QueryFault Value → Prop
  | value {v : Value} : type.read? literal = some v → OfLiteral type literal (.ok v)
  | refused : type.read? literal = none →
      OfLiteral type literal (.error (.coercion literal type.kind))

/-- What a raw value makes about a chain: the comparison which it starts with, and the literal
behind it as a value of the last attribute's type. A marker has no literal and no operand. -/
inductive OfRaw (chain : Chain) (raw : String) : Except QueryFault Predicate → Prop
  | marker : (Condition.read raw).literal = none →
      OfRaw chain raw (.ok ⟨chain, (Condition.read raw).comparison, .absent⟩)
  | literal {literal : String} {last : Attribute} {v : Value} :
      (Condition.read raw).literal = some literal → chain.getLast? = some last →
      OfLiteral last.type literal (.ok v) →
      OfRaw chain raw (.ok ⟨chain, (Condition.read raw).comparison, .single v⟩)
  | refused {literal : String} {last : Attribute} {f : QueryFault} :
      (Condition.read raw).literal = some literal → chain.getLast? = some last →
      OfLiteral last.type literal (.error f) → OfRaw chain raw (.error f)

/-! ### Several values -/

/-- The literal of a raw value which is to be a member. A marker has none, and is refused as a
whole. -/
inductive OfMember (kind : Kind) (raw : String) : Except QueryFault String → Prop
  | literal {literal : String} : (Condition.read raw).literal = some literal →
      OfMember kind raw (.ok literal)
  | marker : (Condition.read raw).literal = none → OfMember kind raw (.error (.coercion raw kind))

/-- What several raw values make about a chain as one test for membership. All literals are taken
before the first one is read. -/
inductive OfMembers (chain : Chain) (raws : List String) : Except QueryFault Predicate → Prop
  | marker {last : Attribute} {f : QueryFault} : chain.getLast? = some last →
      Runs (OfMember last.type.kind) raws (.error f) → OfMembers chain raws (.error f)
  | refused {last : Attribute} {literals : List String} {f : QueryFault} :
      chain.getLast? = some last → Runs (OfMember last.type.kind) raws (.ok literals) →
      Runs (OfLiteral last.type) literals (.error f) → OfMembers chain raws (.error f)
  | members {last : Attribute} {literals : List String} {vs : List Value} :
      chain.getLast? = some last → Runs (OfMember last.type.kind) raws (.ok literals) →
      Runs (OfLiteral last.type) literals (.ok vs) →
      OfMembers chain raws (.ok ⟨chain, .oneOf, .many vs⟩)

/-! ### One name, and all of them -/

/-- What one name asks for with its values. With brackets at its end each value is a predicate of
its own; without them one value is a predicate and several are one test for membership. -/
inductive OfParameter (lookup : Lookup) (root name : String) (raws : List String) :
    Except QueryFault (List Predicate) → Prop
  | independent {path : String} {chain : Chain} {r : Except QueryFault (List Predicate)} :
      name = path ++ "[]" → Path.resolve lookup root path = .ok chain →
      Runs (OfRaw chain) raws r → OfParameter lookup root name raws r
  | independentPath {path : String} {f : QueryFault} :
      name = path ++ "[]" → Path.resolve lookup root path = .error f →
      OfParameter lookup root name raws (.error f)
  | single {raw : String} {chain : Chain} {r : Except QueryFault Predicate} :
      (∀ path, name ≠ path ++ "[]") → Path.resolve lookup root name = .ok chain →
      raws = [raw] → OfRaw chain raw r → OfParameter lookup root name raws (r.map fun p => [p])
  | members {chain : Chain} {r : Except QueryFault Predicate} :
      (∀ path, name ≠ path ++ "[]") → Path.resolve lookup root name = .ok chain →
      1 < raws.length → OfMembers chain raws r →
      OfParameter lookup root name raws (r.map fun p => [p])
  | path {f : QueryFault} :
      (∀ path, name ≠ path ++ "[]") → Path.resolve lookup root name = .error f →
      OfParameter lookup root name raws (.error f)

/-- A reserved name is exactly one of those which the conventions list. -/
def IsReserved (conventions : Conventions) (name : String) : Prop :=
  name = conventions.sortKey ∨ name = conventions.directionKey ∨ name ∈ conventions.ignoredKeys

instance (conventions : Conventions) (name : String) : Decidable (IsReserved conventions name) :=
  inferInstanceAs (Decidable (_ ∨ _ ∨ _))

/-- The names of a flat list which are not reserved, each once, in the order of their first
occurrences. -/
def filterNames (conventions : Conventions) (pairs : List (String × String)) : List String :=
  (Params.names pairs).filter fun name => ¬ IsReserved conventions name

/-- What a flat list of pairs asks for: name by name, each with all its values. -/
inductive OfRequest (lookup : Lookup) (conventions : Conventions) (root : String)
    (pairs : List (String × String)) : Except QueryFault (List Predicate) → Prop
  | fault {f : QueryFault} :
      Runs (fun name => OfParameter lookup root name (Params.values pairs name))
        (filterNames conventions pairs) (.error f) →
      OfRequest lookup conventions root pairs (.error f)
  | predicates {groups : List (List Predicate)} :
      Runs (fun name => OfParameter lookup root name (Params.values pairs name))
        (filterNames conventions pairs) (.ok groups) →
      OfRequest lookup conventions root pairs (.ok groups.flatten)

end Answer

open Answer

/-! ### The answers of the definitions -/

theorem ValueType.coerce_eq_iff {type : ValueType} {literal : String}
    {r : Except QueryFault Value} : type.coerce literal = r ↔ OfLiteral type literal r := by
  unfold ValueType.coerce
  constructor
  · rintro rfl
    cases h : type.read? literal with
    | some v => exact .value h
    | none => exact .refused h
  · rintro (h | h) <;> rw [h]

theorem ValueType.coerce_eq_ok_iff {type : ValueType} {literal : String} {v : Value} :
    type.coerce literal = .ok v ↔ type.read? literal = some v := by
  rw [coerce_eq_iff]
  constructor
  · intro h
    cases h with
    | value hread => exact hread
  · exact .value

/-- The fault names the literal and the kind of the type, and there is one unless there is a
value. -/
theorem ValueType.coerce_eq_error_iff {type : ValueType} {literal : String} {f : QueryFault} :
    type.coerce literal = .error f ↔
      f = .coercion literal type.kind ∧ ¬ ∃ v, type.coerce literal = .ok v := by
  have hnone : type.read? literal = none ↔ ¬ ∃ v, type.coerce literal = .ok v := by
    simp only [coerce_eq_ok_iff, Option.eq_none_iff_forall_ne_some, not_exists]
  rw [← hnone, coerce_eq_iff]
  constructor
  · intro h
    cases h with
    | refused hread => exact ⟨rfl, hread⟩
  · rintro ⟨rfl, hread⟩
    exact .refused hread

theorem ValueType.coerceAll_eq_iff {type : ValueType} {literals : List String}
    {r : Except QueryFault (List Value)} :
    type.coerceAll literals = r ↔ Runs (OfLiteral type) literals r :=
  mapM_eq_iff fun _ _ _ => type.coerce_eq_iff

namespace Predicate

theorem terminal_of_getLast? {chain : Chain} {last : Attribute} (h : chain.getLast? = some last) :
    terminal chain = .ok last := by
  rw [terminal, Chain.terminal?, h]

theorem ofRaw_of_marker {chain : Chain} {raw : String} (h : (Condition.read raw).literal = none) :
    ofRaw chain raw = .ok ⟨chain, (Condition.read raw).comparison, .absent⟩ := by
  rw [ofRaw, operandOf, h]
  rfl

theorem ofRaw_of_literal {chain : Chain} {raw literal : String} {last : Attribute}
    (h : (Condition.read raw).literal = some literal) (hlast : chain.getLast? = some last) :
    ofRaw chain raw = (last.type.coerce literal).map fun v =>
      ⟨chain, (Condition.read raw).comparison, .single v⟩ := by
  rw [ofRaw, operandOf, h]
  show ((terminal chain >>= fun last => last.type.coerce literal >>= fun v =>
    .ok (Operand.single v)) >>= fun operand => .ok _) = _
  rw [terminal_of_getLast? hlast]
  show ((last.type.coerce literal >>= fun v => .ok (Operand.single v)) >>= fun operand => .ok _) = _
  cases last.type.coerce literal <;> rfl

theorem ofRaw_eq_iff {chain : Chain} (hchain : chain ≠ []) {raw : String}
    {r : Except QueryFault Predicate} : ofRaw chain raw = r ↔ OfRaw chain raw r := by
  obtain ⟨last, hlast⟩ := Option.isSome_iff_exists.mp (List.getLast?_isSome.mpr hchain)
  constructor
  · rintro rfl
    cases h : (Condition.read raw).literal with
    | none =>
      rw [ofRaw_of_marker h]
      exact .marker h
    | some literal =>
      rw [ofRaw_of_literal h hlast]
      cases hv : last.type.coerce literal with
      | ok v => exact .literal h hlast (ValueType.coerce_eq_iff.mp hv)
      | error f => exact .refused h hlast (ValueType.coerce_eq_iff.mp hv)
  · rintro (h | ⟨h, hlast, hv⟩ | ⟨h, hlast, hv⟩)
    · exact ofRaw_of_marker h
    · rw [ofRaw_of_literal h hlast, ValueType.coerce_eq_iff.mpr hv]
      rfl
    · rw [ofRaw_of_literal h hlast, ValueType.coerce_eq_iff.mpr hv]
      rfl

theorem memberLiteral_eq_iff {kind : Kind} {raw : String} {r : Except QueryFault String} :
    memberLiteral kind raw = r ↔ OfMember kind raw r := by
  unfold memberLiteral
  constructor
  · rintro rfl
    cases h : (Condition.read raw).literal with
    | some literal => exact .literal h
    | none => exact .marker h
  · rintro (h | h) <;> rw [h]

theorem ofMembers_of_getLast? {chain : Chain} {last : Attribute} {raws : List String}
    (hlast : chain.getLast? = some last) :
    ofMembers chain raws = (raws.mapM (memberLiteral last.type.kind) >>= last.type.coerceAll).map
      fun vs => ⟨chain, .oneOf, .many vs⟩ := by
  rw [ofMembers, terminal_of_getLast? hlast]
  show (raws.mapM (memberLiteral last.type.kind) >>= fun literals =>
    last.type.coerceAll literals >>= fun vs => .ok _) = _
  cases raws.mapM (memberLiteral last.type.kind) with
  | error f => rfl
  | ok literals =>
    show (last.type.coerceAll literals >>= fun vs => .ok _) = (last.type.coerceAll literals).map _
    cases last.type.coerceAll literals <;> rfl

theorem ofMembers_eq_iff {chain : Chain} (hchain : chain ≠ []) {raws : List String}
    {r : Except QueryFault Predicate} : ofMembers chain raws = r ↔ OfMembers chain raws r := by
  obtain ⟨last, hlast⟩ := Option.isSome_iff_exists.mp (List.getLast?_isSome.mpr hchain)
  have hmember {r : Except QueryFault (List String)} :
      raws.mapM (memberLiteral last.type.kind) = r ↔ Runs (OfMember last.type.kind) raws r :=
    mapM_eq_iff fun _ _ _ => memberLiteral_eq_iff
  constructor
  · rintro rfl
    rw [ofMembers_of_getLast? hlast]
    cases hls : raws.mapM (memberLiteral last.type.kind) with
    | error f => exact .marker hlast (hmember.mp hls)
    | ok literals =>
      show OfMembers chain raws ((last.type.coerceAll literals).map _)
      cases hvs : last.type.coerceAll literals with
      | error f => exact .refused hlast (hmember.mp hls) (ValueType.coerceAll_eq_iff.mp hvs)
      | ok vs => exact .members hlast (hmember.mp hls) (ValueType.coerceAll_eq_iff.mp hvs)
  · have hsame {last' : Attribute} (h : chain.getLast? = some last') : last = last' :=
      Option.some.inj (hlast.symm.trans h)
    rw [ofMembers_of_getLast? hlast]
    rintro (⟨hlast', hls⟩ | ⟨hlast', hls, hvs⟩ | ⟨hlast', hls, hvs⟩)
    · obtain rfl := hsame hlast'
      rw [hmember.mpr hls]
      rfl
    · obtain rfl := hsame hlast'
      rw [hmember.mpr hls]
      show (last.type.coerceAll _).map _ = _
      rw [ValueType.coerceAll_eq_iff.mpr hvs]
      rfl
    · obtain rfl := hsame hlast'
      rw [hmember.mpr hls]
      show (last.type.coerceAll _).map _ = _
      rw [ValueType.coerceAll_eq_iff.mpr hvs]
      rfl

/-! ### One parameter -/

theorem ofParameter_of_error {lookup : Lookup} {root name path : String} {raws : List String}
    {independent : Bool} {f : QueryFault} (hraws : raws ≠ [])
    (hkey : FilterKey.read name = ⟨path, independent⟩)
    (h : Path.resolve lookup root path = .error f) :
    ofParameter lookup root name raws = .error f := by
  rw [ofParameter, if_neg hraws, hkey]
  exact bind_eq_error_iff.mpr (Or.inl h)

theorem ofParameter_of_independent {lookup : Lookup} {root name path : String} {raws : List String}
    {chain : Chain} (hraws : raws ≠ []) (hkey : FilterKey.read name = ⟨path, true⟩)
    (h : Path.resolve lookup root path = .ok chain) :
    ofParameter lookup root name raws = raws.mapM (ofRaw chain) := by
  rw [ofParameter, if_neg hraws, hkey]
  show (Path.resolve lookup root path >>= fun chain => raws.mapM (ofRaw chain)) = _
  rw [h]
  rfl

theorem ofParameter_of_single {lookup : Lookup} {root name path raw : String} {chain : Chain}
    (hkey : FilterKey.read name = ⟨path, false⟩) (h : Path.resolve lookup root path = .ok chain) :
    ofParameter lookup root name [raw] = (ofRaw chain raw).map fun p => [p] := by
  rw [ofParameter, if_neg (List.cons_ne_nil raw []), hkey]
  show (Path.resolve lookup root path >>= fun chain => ofRaw chain raw >>= fun p => .ok [p]) = _
  rw [h]
  show (ofRaw chain raw >>= fun p => .ok [p]) = _
  cases ofRaw chain raw <;> rfl

theorem ofParameter_of_members {lookup : Lookup} {root name path : String} {raws : List String}
    {chain : Chain} (hraws : 1 < raws.length) (hkey : FilterKey.read name = ⟨path, false⟩)
    (h : Path.resolve lookup root path = .ok chain) :
    ofParameter lookup root name raws = (ofMembers chain raws).map fun p => [p] := by
  match raws, hraws with
  | raw :: other :: rest, _ =>
    rw [ofParameter, if_neg (List.cons_ne_nil raw (other :: rest)), hkey]
    show (Path.resolve lookup root path >>= fun chain =>
      ofMembers chain (raw :: other :: rest) >>= fun p => .ok [p]) = _
    rw [h]
    show (ofMembers chain (raw :: other :: rest) >>= fun p => .ok [p]) = _
    cases ofMembers chain (raw :: other :: rest) <;> rfl

/-- A parameter with values makes predicates of one chain: one of each value if its name asks for
that, and otherwise a single one. -/
theorem ofParameter_eq_ok_iff {lookup : Lookup} {root name : String} {raws : List String}
    (hraws : raws ≠ []) {ps : List Predicate} :
    ofParameter lookup root name raws = .ok ps ↔
      ∃ chain, Path.resolve lookup root (FilterKey.read name).path = .ok chain ∧
        ((FilterKey.read name).independent = true ∧ raws.mapM (ofRaw chain) = .ok ps ∨
          (FilterKey.read name).independent = false ∧ ∃ p, ps = [p] ∧
            ((∃ raw, raws = [raw] ∧ ofRaw chain raw = .ok p) ∨
              1 < raws.length ∧ ofMembers chain raws = .ok p)) := by
  obtain ⟨path, independent, hkey⟩ : ∃ path independent,
      FilterKey.read name = ⟨path, independent⟩ := ⟨_, _, rfl⟩
  simp only [hkey]
  have hsingle {r : Except QueryFault Predicate} :
      r.map (fun p => [p]) = .ok ps ↔ ∃ p, ps = [p] ∧ r = .ok p := by
    cases r <;> simp [eq_comm]
  cases h : Path.resolve lookup root path with
  | error f =>
    rw [ofParameter_of_error hraws hkey h]
    simp
  | ok chain =>
    cases independent with
    | true =>
      rw [ofParameter_of_independent hraws hkey h]
      simp
    | false =>
      match raws, hraws with
      | [raw], _ =>
        rw [ofParameter_of_single hkey h, hsingle]
        simp
      | raw :: other :: rest, _ =>
        rw [ofParameter_of_members (by simp) hkey h, hsingle]
        simp

/-- **One parameter answers what its name asks for.** -/
theorem ofParameter_eq_iff {lookup : Lookup} {root name : String} {raws : List String}
    (hraws : raws ≠ []) {r : Except QueryFault (List Predicate)} :
    ofParameter lookup root name raws = r ↔ OfParameter lookup root name raws r := by
  have hchain {path : String} {chain : Chain} (h : Path.resolve lookup root path = .ok chain) :
      chain ≠ [] := (Path.resolve_eq_ok_iff.mp h).1.ne_nil
  refine ⟨?_, fun h => ?_⟩
  · rintro rfl
    rcases FilterKey.eq_append_or_ne name with ⟨path, rfl⟩ | hname
    · have hkey := FilterKey.read_append_brackets path
      cases h : Path.resolve lookup root path with
      | error f =>
        rw [ofParameter_of_error hraws hkey h]
        exact .independentPath rfl h
      | ok chain =>
        rw [ofParameter_of_independent hraws hkey h]
        exact .independent rfl h ((mapM_eq_iff fun _ _ _ => ofRaw_eq_iff (hchain h)).mp rfl)
    · have hkey := FilterKey.read_of_ne hname
      cases h : Path.resolve lookup root name with
      | error f =>
        rw [ofParameter_of_error hraws hkey h]
        exact .path hname h
      | ok chain =>
        match raws, hraws with
        | [raw], _ =>
          rw [ofParameter_of_single hkey h]
          exact .single hname h rfl ((ofRaw_eq_iff (hchain h)).mp rfl)
        | raw :: other :: rest, _ =>
          have hlength : 1 < (raw :: other :: rest).length := by simp
          rw [ofParameter_of_members hlength hkey h]
          exact .members hname h hlength ((ofMembers_eq_iff (hchain h)).mp rfl)
  · cases h with
    | independent hname h hr =>
      subst hname
      rw [ofParameter_of_independent hraws (FilterKey.read_append_brackets _) h]
      exact (mapM_eq_iff fun _ _ _ => ofRaw_eq_iff (hchain h)).mpr hr
    | independentPath hname h =>
      subst hname
      exact ofParameter_of_error hraws (FilterKey.read_append_brackets _) h
    | single hname h hraw hr =>
      subst hraw
      rw [ofParameter_of_single (FilterKey.read_of_ne hname) h, (ofRaw_eq_iff (hchain h)).mpr hr]
    | members hname h hlength hr =>
      rw [ofParameter_of_members hlength (FilterKey.read_of_ne hname) h,
        (ofMembers_eq_iff (hchain h)).mpr hr]
    | path hname h => exact ofParameter_of_error hraws (FilterKey.read_of_ne hname) h

/-! ### Lists of predicates -/

section Push

variable {lookup : Lookup} {root : String}

/-- A list with the predicates of an answer behind it. A fault adds none. -/
def extend (out : List Predicate) :
    Except QueryFault (List Predicate) → List Predicate × Except QueryFault Unit
  | .ok ps => (out ++ ps, .ok ())
  | .error f => (out, .error f)

@[simp] theorem extend_ok (out ps : List Predicate) : extend out (.ok ps) = (out ++ ps, .ok ()) :=
  rfl

@[simp] theorem extend_error (out : List Predicate) (f : QueryFault) :
    extend out (.error f) = (out, .error f) :=
  rfl

theorem push_eq_extend (out : List Predicate) (name : String) (raws : List String) :
    push lookup root out name raws = extend out (ofParameter lookup root name raws) := by
  unfold push
  cases ofParameter lookup root name raws <;> rfl

theorem push_eq_ok_iff {out out' : List Predicate} {name : String} {raws : List String} :
    push lookup root out name raws = (out', .ok ()) ↔
      ∃ ps, ofParameter lookup root name raws = .ok ps ∧ out' = out ++ ps := by
  rw [push_eq_extend]
  cases ofParameter lookup root name raws <;> simp [eq_comm]

theorem push_eq_error_iff {out out' : List Predicate} {name : String} {raws : List String}
    {f : QueryFault} :
    push lookup root out name raws = (out', .error f) ↔
      ofParameter lookup root name raws = .error f ∧ out' = out := by
  rw [push_eq_extend]
  cases ofParameter lookup root name raws <;> simp [eq_comm, and_comm]

/-- What holds of the predicates of each parameter holds of those of all of them. -/
theorem forall_mem_of_ofParameters {P : Predicate → Prop} {entries : List (String × List String)}
    {ps : List Predicate} (h : ofParameters lookup root entries = .ok ps)
    (hP : ∀ name raws qs, ofParameter lookup root name raws = .ok qs → ∀ q ∈ qs, P q) :
    ∀ p ∈ ps, P p := by
  obtain ⟨groups, hgroups, hps⟩ := bind_eq_ok_iff.mp h
  cases hps
  have hgroup : ∀ group ∈ groups, ∀ p ∈ group, P p :=
    forall_mem_of_mapM_eq_ok hgroups fun _ _ group hg => hP _ _ group hg
  intro p hp
  obtain ⟨group, hmem, hp⟩ := List.mem_flatten.mp hp
  exact hgroup group hmem p hp

end Push

end Predicate

/-! ### The whole request -/

namespace Query

theorem isReserved_iff {conventions : Conventions} {name : String} :
    conventions.isReserved name = true ↔ IsReserved conventions name := by
  simp [Conventions.isReserved, IsReserved, or_assoc]

theorem not_isReserved (conventions : Conventions) (name : String) :
    (!conventions.isReserved name) = decide (¬ IsReserved conventions name) := by
  rw [Bool.eq_iff_iff, Bool.not_eq_true', decide_eq_true_iff, ← Bool.not_eq_true, isReserved_iff]

/-- The filters of the grouped parameters, from the flat list. -/
theorem filters_ofList (conventions : Conventions) (pairs : List (String × String)) :
    filters conventions (.ofList pairs) = (filterNames conventions pairs).map fun name =>
      (name, Params.values pairs name) := by
  rw [filters, Params.entries_ofList, List.filter_map, filterNames]
  refine congrArg (List.map _) (List.filter_congr fun name _ => ?_)
  exact not_isReserved conventions name

theorem values_ne_nil_of_mem_filterNames {conventions : Conventions}
    {pairs : List (String × String)} {name : String} (h : name ∈ filterNames conventions pairs) :
    Params.values pairs name ≠ [] := by
  intro hnil
  exact Params.values_eq_nil_iff.mp hnil (List.mem_of_mem_filter h)

/-- **A request answers what its flat list of pairs asks for.** The predicates are those of the
names which are not reserved, in the order of their first occurrences, and the fault is that of the
first name which has one. -/
theorem predicatesOf_ofList_eq_iff (lookup : Lookup) (conventions : Conventions) (root : String)
    (pairs : List (String × String)) (r : Except QueryFault (List Predicate)) :
    predicatesOf lookup conventions (.ofList pairs) root = r ↔
      OfRequest lookup conventions root pairs r := by
  have hrun {r : Except QueryFault (List (List Predicate))} :
      (filterNames conventions pairs).mapM (fun name =>
        Predicate.ofParameter lookup root name (Params.values pairs name)) = r ↔
      Runs (fun name => OfParameter lookup root name (Params.values pairs name))
        (filterNames conventions pairs) r :=
    mapM_eq_iff fun name hname _ =>
      Predicate.ofParameter_eq_iff (values_ne_nil_of_mem_filterNames hname)
  rw [predicatesOf, Predicate.ofParameters, filters_ofList, List.mapM_map]
  constructor
  · rintro rfl
    show OfRequest lookup conventions root pairs ((filterNames conventions pairs).mapM (fun name =>
      Predicate.ofParameter lookup root name (Params.values pairs name)) >>= fun groups =>
        .ok groups.flatten)
    cases h : (filterNames conventions pairs).mapM (fun name =>
      Predicate.ofParameter lookup root name (Params.values pairs name)) with
    | error f => exact .fault (hrun.mp h)
    | ok groups => exact .predicates (hrun.mp h)
  · rintro (h | h)
    · exact bind_eq_error_iff.mpr (Or.inl (hrun.mpr h))
    · exact bind_eq_ok_iff.mpr ⟨_, hrun.mpr h, rfl⟩

end Query

end QueryFilter
