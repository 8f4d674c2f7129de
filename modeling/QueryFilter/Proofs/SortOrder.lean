import QueryFilter.Query
import QueryFilter.Proofs.Catalog
import QueryFilter.Proofs.FirstFault
import QueryFilter.Proofs.Text

/-!
# Which orders a request asks for

Sort values and direction values are cut into items, and each of the two lists of items has its own
way to be wrong. This file says what the two lists ask for without running anything.

* `Answer.Items`: the items of raw values. A separator cuts each value into pieces which do not have
  it, and joined by it they are the value again; so the items are determined (`items_iff`).
* `Answer.Directs`: the direction of a token.
* `Answer.OfSorting`: what directions and fields ask for, with one rule for each way to end.

Blank fields are dropped before the fields are counted, so a field's place in the list of directions
is its place among the fields which stay.

Whatever the raw values are, only their items count (`ofRaws_eq_of_items_eq`). A value which joins
two others by the separator has the items of both, since a cut at the joint loses nothing
(`Text.split_joined`); so it does not matter how a request groups its items into values.
-/

namespace QueryFilter

namespace Answer

/-! ### Items -/

/-- The pieces into which a separator cuts a value. -/
def Cut (c : Char) (raw : String) (pieces : List String) : Prop :=
  pieces ≠ [] ∧ (∀ p ∈ pieces, c ∉ p.toList) ∧ (String.singleton c).intercalate pieces = raw

/-- The items of raw values, one after another. -/
inductive Items : Option Char → List String → List String → Prop
  | whole (raws : List String) : Items none raws raws
  | cut {c : Char} {raws : List String} {groups : List (List String)} :
      List.Forall₂ (Cut c) raws groups → Items (some c) raws groups.flatten

/-! ### Directions -/

/-- A token spells a word if it has the letters of the word, small or capital. -/
def Spells (token word : String) : Prop :=
  List.Forall₂ (fun c w => c = w ∨ c = w.toUpper) token.toList word.toList

/-- The direction which a token names. -/
inductive Directs (token : String) : Direction → Prop
  | ascending : Spells token "asc" → Directs token .ascending
  | descending : Spells token "desc" → Directs token .descending

/-- The direction of the field in a place. The tokens are repeated if there are too few of them. -/
inductive DirectsAt (tokens : List String) (place : Nat) : Direction → Prop
  | none : tokens = [] → DirectsAt tokens place .ascending
  | token {token : String} {d : Direction} : tokens[place % tokens.length]? = some token →
      Directs token d → DirectsAt tokens place d

/-! ### Orders -/

/-- What direction tokens and fields ask for. The first token which names no direction is the fault,
whatever the fields are; behind the tokens, the first field which does not resolve; and without a
fault there is one order for each field. -/
inductive OfSorting (lookup : Lookup) (root : String) (tokens fields : List String) :
    Except QueryFault (List SortOrder) → Prop
  | direction {before after : List String} {token : String} :
      tokens = before ++ token :: after → (∀ t ∈ before, ∃ d, Directs t d) →
      (∀ d, ¬ Directs token d) →
      OfSorting lookup root tokens fields (.error (.invalidDirection token))
  | field {before after : List String} {field : String} {f : QueryFault} :
      (∀ t ∈ tokens, ∃ d, Directs t d) → fields = before ++ field :: after →
      (∀ x ∈ before, ∃ chain, Path.resolve lookup root x = .ok chain) →
      Path.resolve lookup root field = .error f → OfSorting lookup root tokens fields (.error f)
  | orders {os : List SortOrder} :
      (∀ t ∈ tokens, ∃ d, Directs t d) → os.length = fields.length →
      (∀ (i : Nat) (field : String) (o : SortOrder), fields[i]? = some field → os[i]? = some o →
        Path.resolve lookup root field = .ok o.chain ∧ DirectsAt tokens i o.direction) →
      OfSorting lookup root tokens fields (.ok os)

end Answer

open Answer

/-! ### The items are determined -/

theorem cut_iff {c : Char} {raw : String} {ps : List String} :
    Cut c raw ps ↔ Text.split c raw = ps := by
  constructor
  · rintro ⟨hne, hps, rfl⟩
    exact Text.split_intercalate hne hps
  · rintro rfl
    exact ⟨Text.split_ne_nil c raw, fun _ hp => Text.not_mem_of_mem_split hp,
      Text.intercalate_split c raw⟩

/-- **The items of raw values are determined by them.** -/
theorem items_iff {separator : Option Char} {raws xs : List String} :
    Items separator raws xs ↔ SortOrder.items separator raws = xs := by
  have hgroups {c : Char} : List.Forall₂ (Cut c) raws (raws.map (Text.split c)) := by
    rw [List.forall₂_map_right_iff, List.forall₂_same]
    exact fun raw _ => cut_iff.mpr rfl
  constructor
  · intro h
    cases h with
    | whole => rw [SortOrder.items_none]
    | @cut c _ groups h =>
      have hcut : raws.map (Text.split c) = groups := by
        rw [← List.forall₂_eq_eq_eq, List.forall₂_map_left_iff]
        exact h.imp fun _ _ => cut_iff.mp
      rw [SortOrder.items_some, List.flatMap, hcut]
  · rintro rfl
    cases separator with
    | none => exact .whole raws
    | some c => exact .cut hgroups

/-! ### What a token is read as -/

theorem spells_iff {token word : String} (h : ∀ w ∈ word.toList, w.isLower) :
    Spells token word ↔ String.ofList (token.toList.map Char.toLower) = word := by
  rw [← String.toList_inj, String.toList_ofList, ← List.forall₂_eq_eq_eq,
    List.forall₂_map_left_iff]
  exact forall₂_congr_of_mem fun c _ w hw => (Text.toLower_eq_iff (h w hw)).symm

theorem directs_iff {token : String} {d : Direction} :
    Directs token d ↔ Direction.read? token = some d := by
  have hasc : Spells token "asc" ↔ String.ofList (token.toList.map Char.toLower) = "asc" :=
    spells_iff (by simp)
  have hdesc : Spells token "desc" ↔ String.ofList (token.toList.map Char.toLower) = "desc" :=
    spells_iff (by simp)
  unfold Direction.read?
  generalize String.ofList (token.toList.map Char.toLower) = lower at *
  constructor
  · intro h
    cases h with
    | ascending h => simp [hasc.mp h]
    | descending h => simp [hdesc.mp h]
  · intro h
    split at h
    · cases h
      exact .ascending (hasc.mpr rfl)
    · cases h
      exact .descending (hdesc.mpr rfl)
    · cases h

theorem readDirection_eq_ok_iff {token : String} {d : Direction} :
    SortOrder.readDirection token = .ok d ↔ Directs token d := by
  rw [directs_iff, SortOrder.readDirection]
  cases Direction.read? token <;> simp

theorem readDirection_eq_error_iff {token : String} {f : QueryFault} :
    SortOrder.readDirection token = .error f ↔
      f = .invalidDirection token ∧ ∀ d, ¬ Directs token d := by
  simp only [directs_iff, SortOrder.readDirection]
  cases Direction.read? token <;> simp [eq_comm]

theorem Answer.Directs.unique {token : String} {d d' : Direction} (h : Directs token d)
    (h' : Directs token d') : d = d' := by
  rw [directs_iff] at h h'
  exact Option.some.inj (h.symm.trans h')

theorem Answer.DirectsAt.unique {tokens : List String} {place : Nat} {d d' : Direction}
    (h : DirectsAt tokens place d) (h' : DirectsAt tokens place d') : d = d' := by
  cases h with
  | none hnil =>
    cases h' with
    | none => rfl
    | token ht => simp [hnil] at ht
  | token ht hd =>
    cases h' with
    | none hnil => simp [hnil] at ht
    | token ht' hd' =>
      rw [ht] at ht'
      cases ht'
      exact hd.unique hd'

/-- The direction which a run takes for a place is the one which the tokens have there. -/
theorem directsAt_directionAt {tokens : List String} {ds : List Direction}
    (h : tokens.mapM SortOrder.readDirection = .ok ds) (place : Nat) :
    DirectsAt tokens place (SortOrder.directionAt ds place) := by
  have hlength : ds.length = tokens.length := length_of_mapM_eq_ok h
  rw [SortOrder.directionAt, hlength]
  cases htoken : tokens[place % tokens.length]? with
  | none =>
    -- only without tokens there is none in this place
    have hnil : tokens = [] := by
      by_contra hne
      have hlt := Nat.mod_lt place (List.length_pos_iff.mpr hne)
      rw [List.getElem?_eq_none_iff] at htoken
      omega
    subst hnil
    rw [List.length_eq_zero_iff.mp hlength]
    exact .none rfl
  | some token =>
    obtain ⟨d, hd, hread⟩ := exists_getElem?_of_mapM_eq_ok h htoken
    rw [hd, Option.getD_some]
    exact .token htoken (readDirection_eq_ok_iff.mp hread)

/-! ### The run over tokens and fields -/

namespace SortOrder

theorem directed_iff {tokens : List String} :
    (∀ t ∈ tokens, ∃ d, Directs t d) ↔ ∃ ds, tokens.mapM readDirection = .ok ds := by
  simp only [← readDirection_eq_ok_iff]
  exact ⟨exists_mapM_eq_ok, fun ⟨_, hds⟩ => exists_eq_ok_of_mapM_eq_ok hds⟩

theorem mapM_readDirection_eq_error_iff {tokens : List String} {f : QueryFault} :
    tokens.mapM readDirection = .error f ↔ ∃ before token after,
      tokens = before ++ token :: after ∧ (∀ t ∈ before, ∃ d, Directs t d) ∧
        f = .invalidDirection token ∧ ∀ d, ¬ Directs token d := by
  simp only [mapM_eq_error_iff, FirstFault, readDirection_eq_ok_iff, readDirection_eq_error_iff]

/-- Fields which resolve, place by place, to the chains of orders. -/
theorem mapM_resolve_eq_ok_iff {lookup : Lookup} {root : String} {fields : List String}
    {os : List SortOrder} :
    fields.mapM (Path.resolve lookup root) = .ok (os.map SortOrder.chain) ↔
      os.length = fields.length ∧ ∀ (i : Nat) (field : String) (o : SortOrder),
        fields[i]? = some field → os[i]? = some o →
          Path.resolve lookup root field = .ok o.chain := by
  rw [mapM_eq_ok_iff, List.forall₂_map_right_iff, List.forall₂_iff_get]
  refine and_congr eq_comm ⟨fun h i field o hi ho => ?_, fun h i hi ho => ?_⟩
  · obtain ⟨hlt, rfl⟩ := List.getElem?_eq_some_iff.mp hi
    obtain ⟨hlt', rfl⟩ := List.getElem?_eq_some_iff.mp ho
    exact h i hlt hlt'
  · exact h i _ _ (List.getElem?_eq_getElem hi) (List.getElem?_eq_getElem ho)

/-- The orders which direction tokens and fields make, behind the cutting. -/
def ofItems (lookup : Lookup) (root : String) (tokens fields : List String) :
    Except QueryFault (List SortOrder) := do
  let ds ← tokens.mapM readDirection
  let chains ← fields.mapM (Path.resolve lookup root)
  return chains.mapIdx fun i chain => ⟨chain, directionAt ds i⟩

theorem ofRaws_eq (lookup : Lookup) (root : String) (separator : Option Char)
    (sort directions : List String) : ofRaws lookup root separator sort directions =
      ofItems lookup root (items separator directions)
        ((items separator sort).filter (· ≠ "")) := rfl

theorem ofItems_eq_error_iff {lookup : Lookup} {root : String} {tokens fields : List String}
    {f : QueryFault} : ofItems lookup root tokens fields = .error f ↔
      OfSorting lookup root tokens fields (.error f) := by
  rw [ofItems, bind_eq_error_iff]
  constructor
  · rintro (h | ⟨ds, hds, h⟩)
    · obtain ⟨before, token, after, htokens, hbefore, rfl, hnone⟩ :=
        mapM_readDirection_eq_error_iff.mp h
      exact .direction htokens hbefore hnone
    · rcases bind_eq_error_iff.mp h with h | ⟨chains, -, h⟩
      · obtain ⟨before, field, after, hfields, hbefore, hfield⟩ := mapM_eq_error_iff.mp h
        exact .field (directed_iff.mpr ⟨ds, hds⟩) hfields hbefore hfield
      · cases h
  · intro h
    cases h with
    | direction htokens hbefore hnone =>
      exact Or.inl (mapM_readDirection_eq_error_iff.mpr ⟨_, _, _, htokens, hbefore, rfl, hnone⟩)
    | field hall hfields hbefore hfield =>
      obtain ⟨ds, hds⟩ := directed_iff.mp hall
      refine Or.inr ⟨ds, hds, bind_eq_error_iff.mpr (Or.inl ?_)⟩
      exact mapM_eq_error_iff.mpr ⟨_, _, _, hfields, hbefore, hfield⟩

theorem ofItems_eq_ok_iff {lookup : Lookup} {root : String} {tokens fields : List String}
    {os : List SortOrder} : ofItems lookup root tokens fields = .ok os ↔
      OfSorting lookup root tokens fields (.ok os) := by
  rw [ofItems, bind_eq_ok_iff]
  constructor
  · intro ⟨ds, hds, h⟩
    obtain ⟨chains, hchains, h⟩ := bind_eq_ok_iff.mp h
    cases h
    refine .orders (directed_iff.mpr ⟨ds, hds⟩) ?_ fun i field o hi ho => ?_
    · rw [List.length_mapIdx]
      exact length_of_mapM_eq_ok hchains
    · obtain ⟨chain, hchain, hresolve⟩ := exists_getElem?_of_mapM_eq_ok hchains hi
      rw [List.getElem?_mapIdx, hchain] at ho
      cases ho
      exact ⟨hresolve, directsAt_directionAt hds i⟩
  · intro h
    cases h with
    | orders hall hlength hos =>
      obtain ⟨ds, hds⟩ := directed_iff.mp hall
      have hchains : fields.mapM (Path.resolve lookup root) = .ok (os.map SortOrder.chain) :=
        mapM_resolve_eq_ok_iff.mpr ⟨hlength, fun i field o hi ho => (hos i field o hi ho).1⟩
      refine ⟨ds, hds, bind_eq_ok_iff.mpr ⟨_, hchains, congrArg Except.ok ?_⟩⟩
      apply List.ext_getElem (by simp)
      intro i _ ho
      have hi : i < fields.length := hlength ▸ ho
      obtain ⟨-, hdirects⟩ :=
        hos i _ _ (List.getElem?_eq_getElem hi) (List.getElem?_eq_getElem ho)
      rw [List.getElem_mapIdx, List.getElem_map, (directsAt_directionAt hds i).unique hdirects]

theorem ofItems_eq_iff {lookup : Lookup} {root : String} {tokens fields : List String}
    {r : Except QueryFault (List SortOrder)} :
    ofItems lookup root tokens fields = r ↔ OfSorting lookup root tokens fields r := by
  cases r with
  | error f => exact ofItems_eq_error_iff
  | ok os => exact ofItems_eq_ok_iff

/-- **Whatever the raw values are, only their items count**, and empty fields do not. -/
theorem ofRaws_eq_of_items_eq {lookup : Lookup} {root : String} {separator separator' : Option Char}
    {sort sort' directions directions' : List String}
    (hsort : (items separator sort).filter (· ≠ "") = (items separator' sort').filter (· ≠ ""))
    (hdirections : items separator directions = items separator' directions') :
    ofRaws lookup root separator sort directions =
      ofRaws lookup root separator' sort' directions' := by
  rw [ofRaws_eq, ofRaws_eq, hsort, hdirections]

/-- What raw values make is what their items ask for. -/
theorem ofRaws_eq_iff {lookup : Lookup} {root : String} {separator : Option Char}
    {sort directions : List String} {r : Except QueryFault (List SortOrder)} :
    ofRaws lookup root separator sort directions = r ↔
      ∃ tokens fields, Items separator directions tokens ∧ Items separator sort fields ∧
        OfSorting lookup root tokens (fields.filter (· ≠ "")) r := by
  rw [ofRaws_eq, ofItems_eq_iff]
  constructor
  · intro h
    exact ⟨_, _, items_iff.mpr rfl, items_iff.mpr rfl, h⟩
  · intro ⟨tokens, fields, htokens, hfields, h⟩
    rw [items_iff.mp htokens, items_iff.mp hfields]
    exact h

/-- **What sorting asks for.** The answer is that of the items under the two names: the first
direction which is none, whatever the fields are; else the first field which does not resolve; else
one order for each field, in the direction of its place. A blank field more moves nothing. -/
theorem ofRaws_exact (lookup : Lookup) (root : String) (separator : Option Char)
    (sort directions : List String) :
    (∀ r, ofRaws lookup root separator sort directions = r ↔
      ∃ tokens fields, Items separator directions tokens ∧ Items separator sort fields ∧
        OfSorting lookup root tokens (fields.filter (· ≠ "")) r) ∧
    ∀ (sort' before after : List String), Items separator sort (before ++ "" :: after) →
      Items separator sort' (before ++ after) →
      ofRaws lookup root separator sort directions =
        ofRaws lookup root separator sort' directions := by
  refine ⟨fun r => ofRaws_eq_iff, ?_⟩
  intro sort' before after hsort hsort'
  refine ofRaws_eq_of_items_eq ?_ rfl
  rw [items_iff.mp hsort, items_iff.mp hsort']
  simp

theorem ofRaws_exact_blank :
    let lookup := Catalog.sample.resolve
    let os : List SortOrder :=
      [⟨[⟨"name", .text, none⟩], .descending⟩, ⟨[⟨"id", .identifier true, none⟩], .ascending⟩]
    ofRaws lookup "Resource" (some ',') ["name,,id"] ["desc,ASC"] =
      ofRaws lookup "Resource" (some ',') ["name,id"] ["desc,ASC"] ∧
    ∃ tokens fields, Items (some ',') ["desc,ASC"] tokens ∧ Items (some ',') ["name,,id"] fields ∧
      OfSorting lookup "Resource" tokens (fields.filter (· ≠ "")) (.ok os) := by
  intro lookup os
  have hexact := ofRaws_exact lookup "Resource" (some ',') ["name,,id"] ["desc,ASC"]
  constructor
  · exact hexact.2 ["name,id"] ["name"] ["id"] (items_iff.mpr (by decide))
      (items_iff.mpr (by decide))
  · exact (hexact.1 (.ok os)).mp (by decide +kernel)

end SortOrder

/-! ### Joined and repeated values -/

namespace Answer

/-- Two values of a name which stand side by side are joined to one by a character, and nothing else
changes. -/
inductive Joined (c : Char) (name : String) : Params → Params → Prop
  | join (entries rest : List (String × List String)) (before after : List String) (a b : String) :
      Joined c name ⟨entries ++ (name, before ++ a :: b :: after) :: rest⟩
        ⟨entries ++ (name, before ++ (a ++ String.singleton c ++ b) :: after) :: rest⟩

end Answer

namespace Query

/-- A join changes no list of items. -/
theorem items_get_of_joined {c : Char} {name : String} {p p' : Params} (h : Joined c name p p')
    (key : String) :
    SortOrder.items (some c) (p.get key) = SortOrder.items (some c) (p'.get key) := by
  cases h with
  | join entries rest before after a b =>
    have hsplit : (before ++ a :: b :: after).flatMap (Text.split c) =
        (before ++ (a ++ String.singleton c ++ b) :: after).flatMap (Text.split c) := by
      simp only [List.flatMap_append, List.flatMap_cons, Text.split_joined, List.append_assoc]
    simp only [SortOrder.items_some, Params.get, List.lookup_append, List.lookup_cons]
    -- the values of the name are looked up, or those of another entry
    cases entries.lookup key with
    | some values => rfl
    | none =>
      cases key == name with
      | true => exact hsplit
      | false => rfl

/-- Orders under any separator which cuts the values of other parameters into the same items. -/
theorem ordersOf_eq_of_items_eq {lookup : Lookup} {root : String} {conventions : Conventions}
    {p p' : Params} {separator : Option Char}
    (hsort : SortOrder.items conventions.listSeparator (p.get conventions.sortKey) =
      SortOrder.items separator (p'.get conventions.sortKey))
    (hdirections : SortOrder.items conventions.listSeparator (p.get conventions.directionKey) =
      SortOrder.items separator (p'.get conventions.directionKey)) :
    ordersOf lookup conventions p root =
      ordersOf lookup { conventions with listSeparator := separator } p' root :=
  SortOrder.ofRaws_eq_of_items_eq (congrArg _ hsort) hdirections

/-- **Joined and repeated values ask for the same.** With a separator, the answer is what the items
under the two names ask for, and nothing but the items counts: to join two values which stand side
by side under a name, or to part them again, changes no answer, and neither does any other way to
group the items. Without a separator, the items as values have the same answer. -/
theorem ordersOf_joined (lookup : Lookup) (root : String) (conventions : Conventions) (c : Char)
    (hc : conventions.listSeparator = some c) :
    (∀ (p : Params) (r : Except QueryFault (List SortOrder)),
      ordersOf lookup conventions p root = r ↔ ∃ tokens fields,
        Items (some c) (p.get conventions.directionKey) tokens ∧
        Items (some c) (p.get conventions.sortKey) fields ∧
        OfSorting lookup root tokens (fields.filter (· ≠ "")) r) ∧
    (∀ (name : String) (p p' : Params), Joined c name p p' →
      ordersOf lookup conventions p root = ordersOf lookup conventions p' root) ∧
    (∀ (p p' : Params) (fields tokens : List String),
      Items (some c) (p.get conventions.sortKey) fields →
      Items (some c) (p.get conventions.directionKey) tokens →
      Items (some c) (p'.get conventions.sortKey) fields →
      Items (some c) (p'.get conventions.directionKey) tokens →
      ordersOf lookup conventions p root = ordersOf lookup conventions p' root) ∧
    ∀ (p p' : Params),
      Items (some c) (p.get conventions.sortKey) (p'.get conventions.sortKey) →
      Items (some c) (p.get conventions.directionKey) (p'.get conventions.directionKey) →
      ordersOf lookup conventions p root =
        ordersOf lookup { conventions with listSeparator := none } p' root := by
  obtain ⟨sortKey, directionKey, ignoredKeys, separator⟩ := conventions
  cases hc
  refine ⟨fun p r => SortOrder.ofRaws_eq_iff, ?joined, ?grouped, ?parted⟩
  case joined =>
    intro name p p' h
    exact ordersOf_eq_of_items_eq (items_get_of_joined h sortKey)
      (items_get_of_joined h directionKey)
  case grouped =>
    intro p p' fields tokens hf ht hf' ht'
    have hsort := (items_iff.mp hf).trans (items_iff.mp hf').symm
    have hdirections := (items_iff.mp ht).trans (items_iff.mp ht').symm
    exact ordersOf_eq_of_items_eq hsort hdirections
  case parted =>
    intro p p' hf ht
    exact ordersOf_eq_of_items_eq (items_iff.mp hf) (items_iff.mp ht)

/-- Four items, of which two are blank, in three groupings and one by one. -/
theorem ordersOf_joined_blank :
    let sorted (values : List String) : Params := ⟨[("sort", values), ("direction", ["desc"])]⟩
    let answer (values : List String) :=
      ordersOf Catalog.sample.resolve {} (sorted values) "Resource"
    answer ["name,", ",id"] = answer ["name,,,id"] ∧
      answer ["name,,,id"] = answer ["name", ",,id"] ∧
      answer ["name,,,id"] = ordersOf Catalog.sample.resolve { listSeparator := none }
        (sorted ["name", "", "", "id"]) "Resource" := by
  intro sorted answer
  obtain ⟨-, hjoined, hgrouped, hsplit⟩ :=
    ordersOf_joined Catalog.sample.resolve "Resource" {} ',' rfl
  refine ⟨hjoined "sort" _ _ (.join [] _ [] [] "name," ",id"), ?_, ?_⟩
  · exact hgrouped _ _ ["name", "", "", "id"] ["desc"] (items_iff.mpr (by decide))
      (items_iff.mpr (by decide)) (items_iff.mpr (by decide)) (items_iff.mpr (by decide))
  · exact hsplit _ _ (items_iff.mpr (by decide)) (items_iff.mpr (by decide))

end Query

end QueryFilter
