import Mathlib.Data.List.Forall2

/-!
# Runs which stop at the first fault

Most readings of a request go through a list and stop at the first item which is refused. In the
definitions such a run is `List.mapM` in `Except`; here it is described from outside, over a
relation `R` between the items and their results. A run ends well exactly when every item is
accepted, and then its result has the items' results in their order; it ends with a fault exactly
when this is the fault of the first refused item. `Runs` says both, and `mapM_eq_iff` that
`List.mapM` does this and nothing else.
-/

namespace QueryFilter

variable {α β ε : Type}

/-! ### One step -/

@[simp] theorem map_ok (f : α → β) (a : α) : (Except.ok a : Except ε α).map f = .ok (f a) := rfl

@[simp] theorem map_error (f : α → β) (e : ε) : (Except.error e : Except ε α).map f = .error e :=
  rfl

theorem bind_eq_ok_iff {x : Except ε α} {f : α → Except ε β} {b : β} :
    x >>= f = .ok b ↔ ∃ a, x = .ok a ∧ f a = .ok b := by
  cases x with
  | error e =>
    constructor
    · intro h; cases h
    · rintro ⟨a, h, -⟩; cases h
  | ok a =>
    constructor
    · intro h; exact ⟨a, rfl, h⟩
    · rintro ⟨a', h, hf⟩; cases h; exact hf

theorem bind_eq_error_iff {x : Except ε α} {f : α → Except ε β} {e : ε} :
    x >>= f = .error e ↔ x = .error e ∨ ∃ a, x = .ok a ∧ f a = .error e := by
  cases x with
  | error e' =>
    constructor
    · intro h; cases h; exact Or.inl rfl
    · rintro (h | ⟨a, h, -⟩)
      · cases h; rfl
      · cases h
  | ok a =>
    constructor
    · intro h; exact Or.inr ⟨a, rfl, h⟩
    · rintro (h | ⟨a', h, hf⟩)
      · cases h
      · cases h; exact hf

/-! ### A whole run -/

/-- The first item of a list which is not accepted is refused with this fault. -/
def FirstFault (R : α → Except ε β → Prop) (xs : List α) (e : ε) : Prop :=
  ∃ before x after, xs = before ++ x :: after ∧ (∀ y ∈ before, ∃ b, R y (.ok b)) ∧ R x (.error e)

/-- How a run over a list ends, when `R` says how one item ends. -/
def Runs (R : α → Except ε β → Prop) (xs : List α) : Except ε (List β) → Prop
  | .ok ys => List.Forall₂ (fun x y => R x (.ok y)) xs ys
  | .error e => FirstFault R xs e

@[simp] theorem not_firstFault_nil {R : α → Except ε β → Prop} {e : ε} : ¬ FirstFault R [] e := by
  rintro ⟨before, x, after, h, -, -⟩
  simp at h

/-- The first refused item is the head, or the head is accepted and it is in the tail. -/
theorem firstFault_cons {R : α → Except ε β → Prop} {x : α} {xs : List α} {e : ε} :
    FirstFault R (x :: xs) e ↔ R x (.error e) ∨ ∃ b, R x (.ok b) ∧ FirstFault R xs e := by
  constructor
  · rintro ⟨before, y, after, h, hb, hy⟩
    cases before with
    | nil =>
      obtain ⟨rfl, rfl⟩ := List.cons.inj h
      exact Or.inl hy
    | cons z before =>
      obtain ⟨rfl, rfl⟩ := List.cons.inj h
      obtain ⟨b, hx⟩ := hb x List.mem_cons_self
      exact Or.inr ⟨b, hx, before, y, after, rfl, fun w hw => hb w (List.mem_cons_of_mem _ hw), hy⟩
  · rintro (hx | ⟨b, hx, before, y, after, rfl, hb, hy⟩)
    · exact ⟨[], x, xs, rfl, fun _ h => absurd h List.not_mem_nil, hx⟩
    · refine ⟨x :: before, y, after, rfl, fun w hw => ?_, hy⟩
      rcases List.mem_cons.mp hw with rfl | hw
      · exact ⟨b, hx⟩
      · exact hb w hw

theorem mapM_eq_ok_iff {f : α → Except ε β} : ∀ {xs : List α} {ys : List β},
    xs.mapM f = .ok ys ↔ List.Forall₂ (fun x y => f x = .ok y) xs ys := by
  intro xs
  induction xs with
  | nil =>
    intro ys
    rw [List.mapM_nil, List.forall₂_nil_left_iff]
    exact ⟨fun h => (Except.ok.inj h).symm, fun h => h ▸ rfl⟩
  | cons x xs ih =>
    intro ys
    rw [List.mapM_cons, bind_eq_ok_iff, List.forall₂_cons_left_iff]
    constructor
    · rintro ⟨y, hy, h⟩
      obtain ⟨zs, hzs, h⟩ := bind_eq_ok_iff.mp h
      exact ⟨y, zs, hy, ih.mp hzs, (Except.ok.inj h).symm⟩
    · rintro ⟨y, zs, hy, hzs, rfl⟩
      exact ⟨y, hy, bind_eq_ok_iff.mpr ⟨zs, ih.mpr hzs, rfl⟩⟩

theorem mapM_eq_error_iff {f : α → Except ε β} : ∀ {xs : List α} {e : ε},
    xs.mapM f = .error e ↔ FirstFault (fun x r => f x = r) xs e := by
  intro xs
  induction xs with
  | nil =>
    intro e
    constructor
    · intro h; cases h
    · intro h; exact absurd h not_firstFault_nil
  | cons x xs ih =>
    intro e
    rw [List.mapM_cons, bind_eq_error_iff, firstFault_cons]
    refine or_congr_right (exists_congr fun b => and_congr_right fun _ => ?_)
    rw [bind_eq_error_iff, ih]
    constructor
    · rintro (h | ⟨_, -, h⟩)
      · exact h
      · cases h
    · exact Or.inl

/-- A relation of two lists looks at their own elements only. -/
theorem forall₂_congr_of_mem {R S : α → β → Prop} {xs : List α} {ys : List β}
    (h : ∀ x ∈ xs, ∀ y ∈ ys, R x y ↔ S x y) : List.Forall₂ R xs ys ↔ List.Forall₂ S xs ys := by
  induction xs generalizing ys with
  | nil => simp
  | cons x xs ih =>
    cases ys with
    | nil => simp
    | cons y ys =>
      have hhead := h x List.mem_cons_self y List.mem_cons_self
      have htail := ih fun a ha b hb =>
        h a (List.mem_cons_of_mem x ha) b (List.mem_cons_of_mem y hb)
      rw [List.forall₂_cons, List.forall₂_cons, hhead, htail]

/-- Two relations of lists one after the other relate the elements one after the other. -/
theorem forall₂_comp_iff {γ : Type} {R : α → β → Prop} {S : β → γ → Prop} {xs : List α}
    {zs : List γ} :
    (∃ ys, List.Forall₂ R xs ys ∧ List.Forall₂ S ys zs) ↔
      List.Forall₂ (fun x z => ∃ y, R x y ∧ S y z) xs zs := by
  constructor
  · rintro ⟨ys, hR, hS⟩
    induction hR generalizing zs with
    | nil =>
      cases hS
      exact .nil
    | cons hxy _ ih =>
      cases hS with
      | cons hyz hS => exact .cons ⟨_, hxy, hyz⟩ (ih hS)
  · intro h
    induction h with
    | nil => exact ⟨[], .nil, .nil⟩
    | cons hxz _ ih =>
      obtain ⟨y, hxy, hyz⟩ := hxz
      obtain ⟨ys, hR, hS⟩ := ih
      exact ⟨y :: ys, .cons hxy hR, .cons hyz hS⟩

theorem runs_congr {R S : α → Except ε β → Prop} {xs : List α} {r : Except ε (List β)}
    (h : ∀ x ∈ xs, ∀ r, R x r ↔ S x r) : Runs R xs r ↔ Runs S xs r := by
  cases r with
  | ok ys => exact forall₂_congr_of_mem fun x hx y _ => h x hx (.ok y)
  | error e =>
    refine exists_congr fun before => exists_congr fun x => exists_congr fun after =>
      and_congr_right fun hxs => ?_
    subst hxs
    refine and_congr (forall_congr' fun y => forall_congr' fun hy => exists_congr fun b => ?_) ?_
    · exact h y (List.mem_append_left _ hy) _
    · exact h x (List.mem_append_right _ List.mem_cons_self) _

/-- **A run over a list is described by what happens to its items.** -/
theorem mapM_eq_iff {f : α → Except ε β} {R : α → Except ε β → Prop} {xs : List α}
    {r : Except ε (List β)} (h : ∀ x ∈ xs, ∀ r, f x = r ↔ R x r) :
    xs.mapM f = r ↔ Runs R xs r := by
  rw [← runs_congr h]
  cases r with
  | ok ys => exact mapM_eq_ok_iff
  | error e => exact mapM_eq_error_iff

/-- What every accepted item's result has, every result of the run has. -/
theorem forall_mem_of_mapM_eq_ok {f : α → Except ε β} {P : β → Prop} {xs : List α} {ys : List β}
    (h : xs.mapM f = .ok ys) (hP : ∀ x ∈ xs, ∀ y, f x = .ok y → P y) : ∀ y ∈ ys, P y := by
  have hrun := mapM_eq_ok_iff.mp h
  clear h
  induction hrun with
  | nil => intro y hy; exact absurd hy List.not_mem_nil
  | @cons x y xs ys hxy _ ih =>
    intro z hz
    rcases List.mem_cons.mp hz with rfl | hz
    · exact hP x List.mem_cons_self z hxy
    · exact ih (fun w hw => hP w (List.mem_cons_of_mem x hw)) z hz

theorem exists_eq_ok_of_mapM_eq_ok {f : α → Except ε β} {xs : List α} {ys : List β}
    (h : xs.mapM f = .ok ys) : ∀ x ∈ xs, ∃ y, f x = .ok y := by
  have hrun := mapM_eq_ok_iff.mp h
  clear h
  induction hrun with
  | nil => intro x hx; exact absurd hx List.not_mem_nil
  | @cons x y xs ys hxy _ ih =>
    intro z hz
    rcases List.mem_cons.mp hz with rfl | hz
    · exact ⟨y, hxy⟩
    · exact ih z hz

/-- A run ends well exactly when every item has a result, and its result is then a function of the
items. -/
theorem mapM_eq_ok_iff_exists_map [Nonempty β] {f : α → Except ε β} {xs : List α} {ys : List β} :
    xs.mapM f = .ok ys ↔ ∃ g : α → β, (∀ x ∈ xs, f x = .ok (g x)) ∧ ys = xs.map g := by
  have hmap {g : α → β} (hg : ∀ x ∈ xs, f x = .ok (g x)) : xs.mapM f = .ok (xs.map g) := by
    rw [mapM_eq_ok_iff, List.forall₂_map_right_iff, List.forall₂_same]
    exact hg
  constructor
  · intro h
    choose! g hg using exists_eq_ok_of_mapM_eq_ok h
    refine ⟨g, hg, ?_⟩
    rw [hmap hg] at h
    exact (Except.ok.inj h).symm
  · rintro ⟨g, hg, rfl⟩
    exact hmap hg

/-- A run over accepted items ends well. -/
theorem exists_mapM_eq_ok {f : α → Except ε β} {xs : List α} (h : ∀ x ∈ xs, ∃ y, f x = .ok y) :
    ∃ ys, xs.mapM f = .ok ys := by
  induction xs with
  | nil => exact ⟨[], rfl⟩
  | cons x xs ih =>
    rw [List.forall_mem_cons] at h
    obtain ⟨y, hy⟩ := h.1
    obtain ⟨ys, hys⟩ := ih h.2
    exact ⟨y :: ys, by rw [List.mapM_cons, hy, hys]; rfl⟩

/-- The result of an item stands in the item's place. -/
theorem exists_getElem?_of_mapM_eq_ok {f : α → Except ε β} {xs : List α} {ys : List β}
    (h : xs.mapM f = .ok ys) : ∀ {i : Nat} {x : α}, xs[i]? = some x →
      ∃ y, ys[i]? = some y ∧ f x = .ok y := by
  have hrun := mapM_eq_ok_iff.mp h
  clear h
  induction hrun with
  | nil => intro i x hx; simp at hx
  | @cons z y xs ys hzy _ ih =>
    intro i x hx
    cases i with
    | zero =>
      cases hx
      exact ⟨y, rfl, hzy⟩
    | succ i => exact ih hx

theorem length_of_mapM_eq_ok {f : α → Except ε β} {xs : List α} {ys : List β}
    (h : xs.mapM f = .ok ys) : ys.length = xs.length :=
  (mapM_eq_ok_iff.mp h).length_eq.symm

/-- A run which carries something along keeps what each of its steps keeps. -/
theorem of_foldlM_eq_ok {f : β → α → Except ε β} {P : β → Prop}
    (hstep : ∀ b x b', P b → f b x = .ok b' → P b') : ∀ {xs : List α} {b b' : β},
    P b → xs.foldlM f b = .ok b' → P b' := by
  intro xs
  induction xs with
  | nil =>
    intro b b' hb h
    cases h
    exact hb
  | cons x xs ih =>
    intro b b' hb h
    rw [List.foldlM_cons, bind_eq_ok_iff] at h
    obtain ⟨c, hc, h⟩ := h
    exact ih (hstep b x c hb hc) h

/-! ### Runs of runs -/

/-- A run which carries something along, but whose steps do not look at it, is a run over the
items. -/
theorem foldlM_eq_map_mapM {γ : Type} {step : γ → α → Except ε γ} {f : α → Except ε β}
    {g : γ → β → γ} (h : ∀ c x, step c x = (f x).map (g c)) :
    ∀ (xs : List α) (c : γ), xs.foldlM step c = (xs.mapM f).map fun ys => ys.foldl g c := by
  intro xs
  induction xs with
  | nil => intro c; rfl
  | cons x xs ih =>
    intro c
    rw [List.foldlM_cons, List.mapM_cons, h]
    cases f x with
    | error e => rfl
    | ok y =>
      show xs.foldlM step (g c y) = Except.map _ (xs.mapM f >>= _)
      rw [ih]
      cases xs.mapM f with
      | error e => rfl
      | ok ys => rfl

/-- A run of runs is a run over all items. -/
theorem mapM_flatMap {γ δ : Type} {f : β → Except ε γ} {items : α → List β} {row : α → Except ε δ}
    {out : δ → List γ} (h : ∀ x, (items x).mapM f = (row x).map out) (xs : List α) :
    (xs.flatMap items).mapM f = (xs.mapM row).map fun rows => rows.flatMap out := by
  induction xs with
  | nil => rfl
  | cons x xs ih =>
    rw [List.flatMap_cons, List.mapM_append, List.mapM_cons, h, ih]
    cases row x with
    | error e => rfl
    | ok y =>
      cases xs.mapM row with
      | error e => rfl
      | ok ys => rfl

end QueryFilter
