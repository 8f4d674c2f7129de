import QueryFilter.Proofs.Json
import QueryFilter.Proofs.WellFormed

/-!
# What the text of a query tells

Whoever runs a query may get it as a JSON text. The text leaves out the types and targets of the
attributes; all else can be read off it. Two queries which requests are answered with have one text
exactly when their predicates and orders are `Alike`, one by one: they have the same attribute
names, the same comparisons, operands and directions (`Query.compact_toData_eq_iff`).

This rests on what answers hold. Their doubles are finite, so that no two of them share the text
`null`, and their dates have years of four digits, so that a date is read from its text.
-/

namespace QueryFilter

open Json

/-- Two lists are written alike if they are as long and their items are written alike. -/
theorem map_eq_map_iff_forall₂ {α β : Type} {f : α → β} {R : α → α → Prop} {xs ys : List α}
    (h : ∀ x ∈ xs, ∀ y ∈ ys, f x = f y ↔ R x y) :
    xs.map f = ys.map f ↔ List.Forall₂ R xs ys := by
  rw [← List.forall₂_eq_eq_eq, List.forall₂_map_left_iff, List.forall₂_map_right_iff]
  exact forall₂_congr_of_mem h

/-! ### Values and operands -/

theorem Date.display_inj {d d' : Date} (h₀ : 0 ≤ d.year) (h₁ : d.year ≤ 9999) (h₀' : 0 ≤ d'.year)
    (h₁' : d'.year ≤ 9999) (h : d.display = d'.display) : d = d' := by
  have hread := congrArg Date.read? (String.ofList_inj.mp h)
  rw [read?_write h₀ h₁, read?_write h₀' h₁'] at hread
  exact Option.some.inj hread

namespace Value

theorem representable_toData {v : Value} {type : ValueType} (h : v.Inhabits type) :
    Representable v.toData := by
  cases h <;> simp [toData]

/-- The tag tells the kind of a value, and the content tells the value. -/
theorem toData_inj {v v' : Value} {type type' : ValueType} (h : v.Inhabits type)
    (h' : v'.Inhabits type') (heq : v.toData = v'.toData) : v = v' := by
  cases v with
  | text s =>
    cases v' with
    | text s' => simpa [toData] using heq
    | _ => simp [toData] at heq
  | integer n =>
    cases v' with
    | integer n' => simpa [toData] using heq
    | _ => simp [toData] at heq
  | decimal x =>
    cases v' with
    | decimal x' => simpa [toData] using heq
    | _ => simp [toData] at heq
  | boolean b =>
    cases v' with
    | boolean b' => simpa [toData] using heq
    | _ => simp [toData] at heq
  | date d =>
    cases v' with
    | date d' =>
      cases h with
      | date h₀ h₁ =>
        cases h' with
        | date h₀' h₁' =>
          have hdisplay : d.display = d'.display := by simpa [toData] using heq
          rw [Date.display_inj h₀ h₁ h₀' h₁' hdisplay]
    | _ => simp [toData] at heq
  | member s =>
    cases v' with
    | member s' => simpa [toData] using heq
    | _ => simp [toData] at heq

end Value

namespace Operand

/-- All values of an operand belong to types. -/
def Typed (o : Operand) : Prop := ∀ v ∈ o.values, ∃ type, v.Inhabits type

theorem representable_toData {o : Operand} (h : o.Typed) : Representable o.toData := by
  have hvalues : ∀ v ∈ o.values, Representable v.toData := by
    intro v hv
    obtain ⟨type, hv⟩ := h v hv
    exact Value.representable_toData hv
  cases o with
  | absent => simp [toData]
  | single v => simpa [toData, values] using hvalues
  | many vs => simpa [toData, values] using hvalues

/-- No operand is written with a tag, and none as a list, but for a single value and for several
ones. -/
theorem toData_inj {o o' : Operand} (h : o.Typed) (h' : o'.Typed) (heq : o.toData = o'.toData) :
    o = o' := by
  cases o with
  | absent =>
    cases o' with
    | absent => rfl
    | single v' => cases v' <;> simp [toData, Value.toData] at heq
    | many vs' => simp [toData] at heq
  | single v =>
    cases o' with
    | absent => cases v <;> simp [toData, Value.toData] at heq
    | single v' =>
      obtain ⟨type, hv⟩ := h v List.mem_cons_self
      obtain ⟨type', hv'⟩ := h' v' List.mem_cons_self
      rw [Value.toData_inj hv hv' heq]
    | many vs' => cases v <;> simp [toData, Value.toData] at heq
  | many vs =>
    cases o' with
    | absent => simp [toData] at heq
    | single v' => cases v' <;> simp [toData, Value.toData] at heq
    | many vs' =>
      have hmap : vs.map Value.toData = vs'.map Value.toData := by simpa [toData] using heq
      have hsame : List.Forall₂ Eq vs vs' := by
        refine (map_eq_map_iff_forall₂ fun v hv v' hv' => ?_).mp hmap
        obtain ⟨type, hv⟩ := h v hv
        obtain ⟨type', hv'⟩ := h' v' hv'
        exact ⟨Value.toData_inj hv hv', fun heq => heq ▸ rfl⟩
      rw [List.forall₂_eq_eq_eq] at hsame
      rw [hsame]

end Operand

/-! ### Predicates and orders -/

theorem Comparison.symbol_inj {c c' : Comparison} (h : c.symbol = c'.symbol) : c = c' := by
  cases c <;> cases c' <;> first | rfl | exact absurd h (by decide)

theorem Direction.toData_inj {d d' : Direction} (h : d.toData = d'.toData) : d = d' := by
  cases d <;> cases d' <;> simp [toData] at h ⊢

theorem Chain.toData_eq_iff {chain chain' : Chain} :
    chain.toData = chain'.toData ↔ chain.names = chain'.names := by
  have htext : ∀ s s' : String, Data.text s = Data.text s' → s = s' := fun _ _ h => Data.text.inj h
  rw [toData, toData, Data.list.injEq, List.map_inj_right htext]

/-- Two predicates compare attributes of the same names in the same way with the same operand. -/
structure Predicate.Alike (p p' : Predicate) : Prop where
  names : p.chain.names = p'.chain.names
  comparison : p.comparison = p'.comparison
  operand : p.operand = p'.operand

/-- Two orders go by attributes of the same names in the same direction. -/
structure SortOrder.Alike (o o' : SortOrder) : Prop where
  names : o.chain.names = o'.chain.names
  direction : o.direction = o'.direction

theorem Predicate.toData_eq_iff {p p' : Predicate} (h : p.operand.Typed) (h' : p'.operand.Typed) :
    p.toData = p'.toData ↔ p.Alike p' := by
  constructor
  · intro heq
    simp only [toData, Comparison.toData, Data.record.injEq, List.cons.injEq, Prod.mk.injEq,
      Data.text.injEq, true_and, and_true] at heq
    obtain ⟨hnames, hsymbol, hoperand⟩ := heq
    exact ⟨Chain.toData_eq_iff.mp hnames, Comparison.symbol_inj hsymbol,
      Operand.toData_inj h h' hoperand⟩
  · intro halike
    rw [toData, toData, Chain.toData_eq_iff.mpr halike.names, halike.comparison, halike.operand]

theorem SortOrder.toData_eq_iff {o o' : SortOrder} : o.toData = o'.toData ↔ o.Alike o' := by
  constructor
  · intro heq
    simp only [toData, Data.record.injEq, List.cons.injEq, Prod.mk.injEq, true_and, and_true] at heq
    exact ⟨Chain.toData_eq_iff.mp heq.1, Direction.toData_inj heq.2⟩
  · intro halike
    rw [toData, toData, Chain.toData_eq_iff.mpr halike.names, halike.direction]

/-! ### Queries -/

@[simp] theorem Chain.representable_toData (chain : Chain) : Representable chain.toData := by
  simp [toData]

@[simp] theorem Direction.representable_toData (d : Direction) : Representable d.toData := by
  cases d <;> simp [toData]

theorem Predicate.representable_toData {p : Predicate} (h : p.operand.Typed) :
    Representable p.toData := by
  simp [toData, Comparison.toData, Operand.representable_toData h]

@[simp] theorem SortOrder.representable_toData (o : SortOrder) : Representable o.toData := by
  simp [toData]

namespace Query

theorem representable_toData {q : Query} (h : ∀ p ∈ q.predicates, p.operand.Typed) :
    Representable q.toData := by
  have hpredicates : ∀ p ∈ q.predicates, Representable p.toData :=
    fun p hp => Predicate.representable_toData (h p hp)
  simpa [toData] using hpredicates

/-- The data of queries agree position by position, or not at all. -/
theorem toData_eq_iff {q q' : Query} (h : ∀ p ∈ q.predicates, p.operand.Typed)
    (h' : ∀ p ∈ q'.predicates, p.operand.Typed) : q.toData = q'.toData ↔
      List.Forall₂ Predicate.Alike q.predicates q'.predicates ∧
        List.Forall₂ SortOrder.Alike q.orders q'.orders := by
  have hpredicates : q.predicates.map Predicate.toData = q'.predicates.map Predicate.toData ↔
      List.Forall₂ Predicate.Alike q.predicates q'.predicates :=
    map_eq_map_iff_forall₂ fun p hp p' hp' => Predicate.toData_eq_iff (h p hp) (h' p' hp')
  have horders : q.orders.map SortOrder.toData = q'.orders.map SortOrder.toData ↔
      List.Forall₂ SortOrder.Alike q.orders q'.orders :=
    map_eq_map_iff_forall₂ fun _ _ _ _ => SortOrder.toData_eq_iff
  rw [← hpredicates, ← horders]
  simp [toData]

/-- What a request is answered with carries values of types. -/
theorem typed_of_ofParams {c : Catalog} {conventions : Conventions} {params : Params}
    {root : String} {q : Query} (h : ofParams c.resolve conventions params root = .ok q) :
    ∀ p ∈ q.predicates, p.operand.Typed := by
  obtain ⟨ps, hps, h⟩ := bind_eq_ok_iff.mp h
  obtain ⟨os, -, h⟩ := bind_eq_ok_iff.mp h
  cases h
  intro p hp v hv
  have hwell := wellFormed_predicatesOf hps p hp
  obtain ⟨last, hlast⟩ := Option.isSome_iff_exists.mp (List.getLast?_isSome.mpr hwell.chain.ne_nil)
  exact ⟨last.type, hwell.inhabits last hlast v hv⟩

/-- **The text of a query is unambiguous.** The answers to two requests, over whatever catalogs,
have one text exactly when they are alike position by position. -/
theorem compact_toData_eq_iff {c c' : Catalog} {conventions conventions' : Conventions}
    {params params' : Params} {root root' : String} {q q' : Query}
    (h : ofParams c.resolve conventions params root = .ok q)
    (h' : ofParams c'.resolve conventions' params' root' = .ok q') :
    Json.compact q.toData = Json.compact q'.toData ↔
      List.Forall₂ Predicate.Alike q.predicates q'.predicates ∧
        List.Forall₂ SortOrder.Alike q.orders q'.orders := by
  have hq := typed_of_ofParams h
  have hq' := typed_of_ofParams h'
  rw [← toData_eq_iff hq hq']
  constructor
  · intro heq
    exact eq_of_compact_eq (representable_toData hq) (representable_toData hq') heq
  · intro heq
    rw [heq]

/-- The law at two catalogs which give other types and targets to the same names, for a text with a
quote, a backslash and a line break, a double, and an absent operand. -/
theorem compact_toData_eq_iff_retyped :
    let parent : Attribute := ⟨"parent", .identifier true, some "Node"⟩
    let label : Attribute := ⟨"label", .text, none⟩
    let weight : Attribute := ⟨"weight", .decimal, none⟩
    let nodes := Catalog.empty |>.insert "Node" parent |>.insert "Node" label
      |>.insert "Node" weight
    let parent' : Attribute := ⟨"parent", .text, some "Group"⟩
    let label' : Attribute := ⟨"label", .identifier false, none⟩
    let items := Catalog.empty |>.insert "Item" parent' |>.insert "Group" label'
      |>.insert "Item" weight
    let params : Params := .ofList [("parent.label", "\x22a\\\n"), ("weight[]", ">=1.50"),
      ("sort", "weight"), ("weight[]", "∅")]
    let params' : Params := .ofList [("parent.label[]", "=\x22a\\\n"), ("weight[]", ">=15e-1"),
      ("weight[]", "∅?"), ("by", "weight"), ("way", "Asc")]
    let oneAndAHalf : Binary64.Finite := ⟨false, 6755399441055744, 1022, by decide⟩
    let rest : List Predicate :=
      [⟨[weight], .greaterOrEqual, .single (.decimal (.finite oneAndAHalf))⟩,
        ⟨[weight], .null, .absent⟩]
    let q : Query := ⟨⟨[parent, label], .equal, .single (.text "\x22a\\\n")⟩ :: rest,
      [⟨[weight], .ascending⟩]⟩
    let q' : Query := ⟨⟨[parent', label'], .equal, .single (.text "\x22a\\\n")⟩ :: rest,
      [⟨[weight], .ascending⟩]⟩
    ofParams nodes.resolve {} params "Node" = .ok q ∧
    ofParams items.resolve { sortKey := "by", directionKey := "way" } params' "Item" = .ok q' ∧
    q ≠ q' ∧ Json.compact q.toData = Json.compact q'.toData ∧
    List.Forall₂ Predicate.Alike q.predicates q'.predicates ∧
      List.Forall₂ SortOrder.Alike q.orders q'.orders := by
  intro parent label weight nodes parent' label' items params params' oneAndAHalf rest q q'
  have hq : ofParams nodes.resolve {} params "Node" = .ok q := by decide +kernel
  have hq' : ofParams items.resolve { sortKey := "by", directionKey := "way" } params' "Item" =
      .ok q' := by decide +kernel
  have htext : Json.compact q.toData = Json.compact q'.toData := rfl
  exact ⟨hq, hq', by decide, htext, (compact_toData_eq_iff hq hq').mp htext⟩

end Query

end QueryFilter
