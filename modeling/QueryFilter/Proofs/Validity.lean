import QueryFilter.Catalog.Validity
import QueryFilter.Proofs.WellFormed

/-!
# What a valid catalog guarantees

Validation accepts a catalog exactly when each of its attributes is valid: a path can name it, its
type has values, and its target is declared (`validate_eq_ok_iff`).

For a built catalog this is what paths need. A name without points is one segment, so a path which
is joined of the names of a chain is cut into these names again (`Chain.segments_path`); and since
no name ends in brackets, neither does the path, so that a key with the path is read as the path
(`Chain.path_ne_append_brackets`). Hence every well-formed chain is what its own path resolves to,
and so the path tells it apart from all others. In the other direction, a walk never leaves the
declared schemas, because targets are declared (`declared_of_unknownAttribute`).
`path_addresses_chain` has both directions.
-/

namespace QueryFilter

/-! ### Validation -/

theorem isAddressable_iff {name : String} : isAddressable name = true ↔ Addressable name := by
  have hsuffix : ['[', ']'].isSuffixOf name.toList = false ↔ ∀ path, name ≠ path ++ "[]" := by
    rw [FilterKey.forall_ne_append_brackets_iff, ← Bool.not_eq_true, List.isSuffixOf_iff_suffix]
  simp only [isAddressable, Bool.and_eq_true, bne_iff_ne, Bool.not_eq_true',
    List.contains_eq_mem, decide_eq_false_iff_not, hsuffix]
  constructor
  · rintro ⟨⟨hempty, hpoint⟩, hbrackets⟩
    exact ⟨hempty, hpoint, hbrackets⟩
  · rintro ⟨hempty, hpoint, hbrackets⟩
    exact ⟨⟨hempty, hpoint⟩, hbrackets⟩

/-- An attribute which may stand in a catalog: a path can name it, its type has values, and its
target is declared. -/
structure Attribute.Valid (c : Catalog) (a : Attribute) : Prop where
  addressable : Addressable a.name
  hasMembers : a.type ≠ .enumeration []
  declared : ∀ target, a.target = some target → ∃ s, c.schema? target = some s

namespace Catalog

theorem attributeFault?_eq_none_iff {c : Catalog} {schema : String} {a : Attribute} :
    c.attributeFault? schema a = none ↔ a.Valid c := by
  unfold attributeFault?
  split
  · next hname =>
    refine iff_of_false (by simp) fun h => ?_
    simp [isAddressable_iff.mpr h.addressable] at hname
  next hname =>
  have haddress : Addressable a.name := isAddressable_iff.mp (by simpa using hname)
  split
  · next htype => exact iff_of_false (by simp) fun h => h.hasMembers htype
  next htype =>
  split
  · next target htarget =>
    cases hs : c.schema? target with
    | none =>
      refine iff_of_false (by simp) fun h => ?_
      obtain ⟨s, hs'⟩ := h.declared target htarget
      rw [hs] at hs'
      cases hs'
    | some s =>
      refine iff_of_true (by simp) ⟨haddress, htype, fun target' h => ?_⟩
      rw [htarget] at h
      cases h
      exact ⟨s, hs⟩
  · next htarget =>
    refine iff_of_true rfl ⟨haddress, htype, fun target h => ?_⟩
    rw [htarget] at h
    cases h

/-- **The accepted catalogs** are those whose attributes are all valid. -/
theorem validate_eq_ok_iff {c : Catalog} : c.validate = .ok () ↔
    ∀ name s, c.schema? name = some s → ∀ a ∈ s.toList, a.Valid c := by
  have hfault : c.validate = .ok () ↔ c.fault? = none := by
    unfold validate
    cases c.fault? <;> simp
  rw [hfault, fault?, List.findSome?_eq_none_iff]
  constructor
  · intro h name s hs a ha
    have hmem : (name, s) ∈ c.toList := Std.TreeMap.mem_toList_iff_getElem?_eq_some.mpr hs
    exact attributeFault?_eq_none_iff.mp (List.findSome?_eq_none_iff.mp (h _ hmem) a ha)
  · rintro h ⟨name, s⟩ hmem
    rw [List.findSome?_eq_none_iff]
    intro a ha
    have hs : c.schema? name = some s := Std.TreeMap.mem_toList_iff_getElem?_eq_some.mp hmem
    exact attributeFault?_eq_none_iff.mpr (h name s hs a ha)

end Catalog

/-! ### The path of a chain -/

namespace Chain

theorem toList_path (chain : Chain) :
    chain.path.toList = List.intercalate ['.'] (chain.names.map String.toList) := by
  rw [path, String.toList_intercalate]
  rfl

theorem forall_mem_names {chain : Chain} {P : List Char → Prop} :
    (∀ cs ∈ chain.names.map String.toList, P cs) ↔ ∀ a ∈ chain, P a.name.toList := by
  simp

/-- **A path is cut into the names which it was joined of**, if none of them has a point. -/
theorem segments_path {chain : Chain} (hne : chain ≠ []) (h : ∀ a ∈ chain, '.' ∉ a.name.toList) :
    Path.segments chain.path = chain.names := by
  have hnames : chain.names ≠ [] := by simpa using hne
  have hpoint : ∀ name ∈ chain.names, '.' ∉ name.toList := by simpa using h
  exact Text.split_intercalate hnames hpoint

theorem not_brackets_suffix_append {before after : List Char} (h : ¬ ['[', ']'] <:+ after) :
    ¬ ['[', ']'] <:+ before ++ '.' :: after := by
  intro hsuffix
  -- the shorter of two ends is an end of the longer one, and brackets hold no point
  rcases List.suffix_or_suffix_of_suffix hsuffix (List.suffix_append before ('.' :: after)) with
    hle | hge
  · rcases List.suffix_cons_iff.mp hle with heq | hle
    · cases heq
    · exact h hle
  · have hmem : '.' ∈ ['[', ']'] := hge.subset List.mem_cons_self
    simp at hmem

theorem not_brackets_suffix_intercalate {ps : List (List Char)} (hne : ps ≠ [])
    (h : ∀ p ∈ ps, ¬ ['[', ']'] <:+ p) : ¬ ['[', ']'] <:+ List.intercalate ['.'] ps := by
  induction ps with
  | nil => exact absurd rfl hne
  | cons p ps ih =>
    cases ps with
    | nil => simpa using h p List.mem_cons_self
    | cons q qs =>
      rw [List.intercalate_cons_cons, List.append_assoc]
      apply not_brackets_suffix_append
      exact ih (List.cons_ne_nil q qs) fun r hr => h r (List.mem_cons_of_mem p hr)

/-- **A path does not end in brackets**, if none of its names does. -/
theorem path_ne_append_brackets {chain : Chain} (hne : chain ≠ [])
    (h : ∀ a ∈ chain, ∀ path, a.name ≠ path ++ "[]") : ∀ path, chain.path ≠ path ++ "[]" := by
  have hnames : chain.names.map String.toList ≠ [] := by simpa using hne
  have hends : ∀ cs ∈ chain.names.map String.toList, ¬ ['[', ']'] <:+ cs :=
    forall_mem_names.mpr fun a ha => FilterKey.forall_ne_append_brackets_iff.mp (h a ha)
  rw [FilterKey.forall_ne_append_brackets_iff, toList_path]
  exact not_brackets_suffix_intercalate hnames hends

/-! ### Chains of a valid catalog -/

variable {c : Catalog} {root : String} {chain : Chain}

theorem WellFormed.valid (h : chain.WellFormed c root) (hvalid : c.validate = .ok ()) :
    ∀ a ∈ chain, a.Valid c := by
  intro a ha
  obtain ⟨i, hi⟩ := List.mem_iff_getElem?.mp ha
  obtain ⟨schema, s, -, hs, hmem⟩ := h.listed i a hi
  exact Catalog.validate_eq_ok_iff.mp hvalid schema s hs a hmem

theorem WellFormed.names (h : chain.WellFormed c root) (hc : c.Built)
    (hvalid : c.validate = .ok ()) : Path.Names c.resolve (some root) chain.names chain := by
  refine ⟨(Chain.length_names chain).symm, ?_⟩
  intro i name hname
  rw [Chain.names, List.getElem?_map, Option.map_eq_some_iff] at hname
  obtain ⟨a, ha, rfl⟩ := hname
  obtain ⟨schema, s, hschema, hs, hmem⟩ := h.listed i a ha
  have hfound : c.resolve schema a.name = some a :=
    Catalog.resolve_eq_some_iff.mpr ⟨s, hs, (hc.indexed hs).get?_eq_some_iff.mpr ⟨hmem, rfl⟩⟩
  have hempty := (h.valid hvalid a (List.mem_of_getElem? ha)).addressable.ne_empty
  exact ⟨hempty, schema, a, hschema, ha, hfound⟩

/-- **A well-formed chain is what its path resolves to.** -/
theorem WellFormed.resolve_path (h : chain.WellFormed c root) (hc : c.Built)
    (hvalid : c.validate = .ok ()) : Path.resolve c.resolve root chain.path = .ok chain := by
  have hpoint : ∀ a ∈ chain, '.' ∉ a.name.toList := fun a ha =>
    (h.valid hvalid a ha).addressable.point_not_mem
  rw [Path.resolve_eq_ok_iff, segments_path h.ne_nil hpoint]
  exact ⟨h.names hc hvalid, h.ends⟩

theorem WellFormed.read_path (h : chain.WellFormed c root) (hvalid : c.validate = .ok ()) :
    FilterKey.read chain.path = ⟨chain.path, false⟩ := by
  apply FilterKey.read_of_ne
  apply path_ne_append_brackets h.ne_nil
  intro a ha
  exact (h.valid hvalid a ha).addressable.ne_brackets

end Chain

namespace Predicate

/-- A value which makes a predicate about the chain of a key is a parameter which adds it, with
brackets or without. -/
theorem push_single {lookup : Lookup} {root name path raw : String} {independent : Bool}
    {chain : Chain} {p : Predicate} (hkey : FilterKey.read name = ⟨path, independent⟩)
    (h : Path.resolve lookup root path = .ok chain) (hp : ofRaw chain raw = .ok p)
    (out : List Predicate) : push lookup root out name [raw] = (out ++ [p], .ok ()) := by
  have hparameter : ofParameter lookup root name [raw] = .ok [p] := by
    cases independent with
    | true =>
      rw [ofParameter_of_independent (List.cons_ne_nil raw []) hkey h, mapM_eq_ok_iff]
      exact .cons hp .nil
    | false =>
      rw [ofParameter_of_single hkey h, hp]
      rfl
  rw [push, hparameter]

end Predicate

/-! ### Declared schemas -/

namespace Catalog

variable {c : Catalog} {root : String}

/-- From a declared root one only comes to declared schemas. -/
theorem declared_schemaAt (hvalid : c.validate = .ok ()) (hroot : ∃ s, c.schema? root = some s)
    {segments : List String} {chain : Chain}
    (h : Path.Names c.resolve (some root) segments chain) {i : Nat} {schema : String}
    (hschema : Path.schemaAt (some root) chain i = some schema) : ∃ s, c.schema? schema = some s := by
  cases i with
  | zero =>
    cases hschema
    exact hroot
  | succ i =>
    obtain ⟨a, ha, htarget⟩ := Option.bind_eq_some_iff.mp hschema
    have hi : i < segments.length := h.length_eq ▸ (List.getElem?_eq_some_iff.mp ha).1
    obtain ⟨-, before, a', -, ha', hfound⟩ := h.found i _ (List.getElem?_eq_getElem hi)
    rw [ha] at ha'
    cases ha'
    obtain ⟨s, hs, hget⟩ := resolve_eq_some_iff.mp hfound
    have hmem := Schema.mem_toList_of_get? hget
    exact (validate_eq_ok_iff.mp hvalid before s hs a hmem).declared schema htarget

/-- **A name which is not found is missing on a declared schema.** -/
theorem declared_of_unknownAttribute (hc : c.Built) (hvalid : c.validate = .ok ())
    (hroot : ∃ s, c.schema? root = some s) {path segment schema : String}
    (h : Path.resolve c.resolve root path = .error (.unknownAttribute segment schema)) :
    segment ∈ Path.segments path ∧
      ∃ s, c.schema? schema = some s ∧ ∀ a ∈ s.toList, a.name ≠ segment := by
  cases Path.resolve_eq_error_iff.mp h with
  | @unknownAttribute before after _ _ chain hsegs hnames _ hschema hlookup =>
    obtain ⟨s, hs⟩ := declared_schemaAt hvalid hroot hnames hschema
    refine ⟨hsegs ▸ List.mem_append_right _ List.mem_cons_self, s, hs, ?_⟩
    exact hc.resolve_eq_none_iff.mp hlookup s hs

/-- **A valid catalog can be addressed, and nothing else is reached.** The path of each well-formed
chain resolves to this chain and is a key as it stands, with brackets or without, so a single
acceptable value under it adds its predicate about the chain; different chains have different
paths; and where a name is not found from a declared root, a segment is missing on a schema which is
declared. -/
theorem path_addresses_chain (c : Catalog) (hc : c.Built) (hvalid : c.validate = .ok ())
    (root : String) :
    (∀ chain : Chain, chain.WellFormed c root →
      Path.resolve c.resolve root chain.path = .ok chain ∧
      FilterKey.read chain.path = ⟨chain.path, false⟩ ∧
      FilterKey.read (chain.path ++ "[]") = ⟨chain.path, true⟩ ∧
      ∀ raw p, Answer.OfRaw chain raw (.ok p) → p.chain = chain ∧ ∀ out,
        Predicate.push c.resolve root out chain.path [raw] = (out ++ [p], .ok ()) ∧
        Predicate.push c.resolve root out (chain.path ++ "[]") [raw] = (out ++ [p], .ok ())) ∧
    (∀ chain chain' : Chain, chain.WellFormed c root → chain'.WellFormed c root →
      chain ≠ chain' → chain.path ≠ chain'.path) ∧
    ((∃ s, c.schema? root = some s) → ∀ path segment schema,
      Path.resolve c.resolve root path = .error (.unknownAttribute segment schema) →
      segment ∈ Path.segments path ∧
        ∃ s, c.schema? schema = some s ∧ ∀ a ∈ s.toList, a.name ≠ segment) := by
  refine ⟨?_, ?_, ?_⟩
  · intro chain h
    have hresolve := h.resolve_path hc hvalid
    have hplain := h.read_path hvalid
    have hbrackets := FilterKey.read_append_brackets chain.path
    refine ⟨hresolve, hplain, hbrackets, ?_⟩
    intro raw p hp
    have hraw := (Predicate.ofRaw_eq_iff h.ne_nil).mpr hp
    refine ⟨by cases hp <;> rfl, ?_⟩
    intro out
    exact ⟨Predicate.push_single hplain hresolve hraw out,
      Predicate.push_single hbrackets hresolve hraw out⟩
  · intro chain chain' h h' hne hpath
    -- both chains are what the one path resolves to
    have hresolve := h.resolve_path hc hvalid
    rw [hpath, h'.resolve_path hc hvalid] at hresolve
    exact hne (Except.ok.inj hresolve).symm
  · intro hroot path segment schema hfault
    exact declared_of_unknownAttribute hc hvalid hroot hfault

/-- A catalog in which a schema leads to itself, with names which are single brackets. -/
def nodes : Catalog :=
  Catalog.empty
    |>.insert "Node" ⟨"parent", .identifier true, some "Node"⟩
    |>.insert "Node" ⟨"[", .text, none⟩
    |>.insert "Node" ⟨"]", .integer, none⟩

/-- The law at a chain which goes around twice and ends at a bracket. -/
theorem path_addresses_chain_nodes :
    let parent : Attribute := ⟨"parent", .identifier true, some "Node"⟩
    let bracket : Attribute := ⟨"]", .integer, none⟩
    let chain : Chain := [parent, parent, bracket]
    let p : Predicate := ⟨chain, .less, .single (.integer 9)⟩
    nodes.Built ∧ nodes.validate = .ok () ∧
    (chain.WellFormed nodes "Node" ∧ chain.path = "parent.parent.]" ∧
      Path.resolve nodes.resolve "Node" chain.path = .ok chain ∧
      FilterKey.read chain.path = ⟨chain.path, false⟩ ∧
      Answer.OfRaw chain "<9" (.ok p) ∧
      Predicate.push nodes.resolve "Node" [] "parent.parent.]" ["<9"] = ([p], .ok ()) ∧
      Predicate.push nodes.resolve "Node" [] "parent.parent.][]" ["<9"] = ([p], .ok ())) ∧
    (Chain.WellFormed nodes "Node" [parent] ∧ chain ≠ [parent] ∧
      chain.path ≠ Chain.path [parent]) ∧
    (∃ s, nodes.schema? "Node" = some s) ∧
    Path.resolve nodes.resolve "Node" "parent.[].name" = .error (.unknownAttribute "[]" "Node") ∧
    ∃ s, nodes.schema? "Node" = some s ∧ ∀ a ∈ s.toList, a.name ≠ "[]" := by
  intro parent bracket chain p
  have hbuilt : nodes.Built := .insert _ _ (.insert _ _ (.insert _ _ .empty))
  have hvalid : nodes.validate = .ok () := rfl
  have htwice : Path.resolve nodes.resolve "Node" "parent.parent.]" = .ok chain := rfl
  have honce : Path.resolve nodes.resolve "Node" "parent" = .ok [parent] := rfl
  have hchain : chain.WellFormed nodes "Node" := Chain.wellFormed_of_resolve htwice
  have hparent : Chain.WellFormed nodes "Node" [parent] := Chain.wellFormed_of_resolve honce
  have hp : Answer.OfRaw chain "<9" (.ok p) := .literal rfl rfl (.value rfl)
  have hroot : ∃ s, nodes.schema? "Node" = some s := ⟨_, rfl⟩
  have hmissing : Path.resolve nodes.resolve "Node" "parent.[].name" =
      .error (.unknownAttribute "[]" "Node") := rfl
  obtain ⟨haddress, hinjective, hdeclared⟩ := path_addresses_chain nodes hbuilt hvalid "Node"
  obtain ⟨hresolve, hread, -, hpush⟩ := haddress chain hchain
  obtain ⟨-, hout⟩ := hpush "<9" p hp
  have hne : chain ≠ [parent] := by decide
  exact ⟨hbuilt, hvalid,
    ⟨hchain, by decide, hresolve, hread, hp, (hout []).1, (hout []).2⟩,
    ⟨hparent, hne, hinjective chain [parent] hchain hparent hne⟩,
    hroot, hmissing, (hdeclared hroot _ _ _ hmissing).2⟩

end Catalog

end QueryFilter
