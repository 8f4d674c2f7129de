import QueryFilter.Query
import QueryFilter.Proofs.Catalog

/-!
# Catalogs which grow

A lookup extends another one if it finds everything which the other one finds, and finds the same
there. A catalog grows to an extension when a schema is declared and when an attribute comes under a
new name (`extends_declare`, `extends_insert`).

Requests survive this: what was answered is answered in the same way, and what was refused is
refused for the same cause, unless the cause was that a name was not found. `Survives` says this of
one answer before and one answer after. It passes through each step which goes on with an answer
(`Survives.bind`) and through each run over a list (`Survives.mapM`), so that all of it comes from
one segment of a path, which is the only place where a request meets the lookup
(`survives_step`). `answers_survive` is the result for whole requests.
-/

namespace QueryFilter

/-- A lookup which finds all that another one finds, as the same attributes. -/
def Lookup.Extends (larger lookup : Lookup) : Prop :=
  ∀ schema name a, lookup schema name = some a → larger schema name = some a

/-- The second answer is the first one, or the first one is that a name was not found. -/
structure Survives {α : Type} (before after : Except QueryFault α) : Prop where
  ok : ∀ x, before = .ok x → after = .ok x
  error : ∀ f, before = .error f → (∀ segment schema, f ≠ .unknownAttribute segment schema) →
    after = .error f

/-! ### Growing catalogs -/

namespace Catalog

theorem extends_declare (c : Catalog) (name : String) :
    (c.declare name).resolve.Extends c.resolve := by
  intro schema attributeName a ha
  rw [resolve_declare]
  exact ha

theorem extends_insert {c : Catalog} (hc : c.Built) {schema : String} {a : Attribute}
    (hnew : c.resolve schema a.name = none) : (c.insert schema a).resolve.Extends c.resolve := by
  intro other name b hb
  rw [hc.resolve_insert, if_neg]
  · exact hb
  · rintro ⟨rfl, rfl⟩
    rw [hnew] at hb
    cases hb

end Catalog

/-! ### Answers which go on -/

namespace Survives

variable {α β : Type}

theorem refl (r : Except QueryFault α) : Survives r r := ⟨fun _ h => h, fun _ h _ => h⟩

theorem of_unknownAttribute (segment schema : String) (r : Except QueryFault α) :
    Survives (.error (.unknownAttribute segment schema)) r := by
  refine ⟨fun x h => ?_, fun f h hf => ?_⟩
  · cases h
  · cases h
    exact absurd rfl (hf segment schema)

/-- **What goes on with an answer survives** if the answer does and all that may follow it. -/
theorem bind {r r' : Except QueryFault α} {f f' : α → Except QueryFault β} (hr : Survives r r')
    (hf : ∀ a, Survives (f a) (f' a)) : Survives (r >>= f) (r' >>= f') := by
  cases r with
  | ok a =>
    rw [hr.ok a rfl]
    exact hf a
  | error e =>
    -- nothing follows, so the fault of the whole is the fault of `r`
    refine ⟨fun x h => ?_, fun e' h he' => ?_⟩
    · cases h
    · cases h
      rw [hr.error e rfl he']
      rfl

/-- **A run over a list survives** if each of its items does. -/
theorem mapM {f f' : α → Except QueryFault β} (h : ∀ x, Survives (f x) (f' x)) (xs : List α) :
    Survives (xs.mapM f) (xs.mapM f') := by
  induction xs with
  | nil => exact refl _
  | cons x xs ih =>
    rw [List.mapM_cons, List.mapM_cons]
    apply bind (h x)
    intro y
    apply bind ih
    intro ys
    exact refl _

end Survives

/-! ### Paths -/

variable {lookup larger : Lookup}

namespace Path

/-- **One segment survives**: only a name which was not found may be found now. -/
theorem survives_step (h : larger.Extends lookup) (path : String) (place : Place)
    (segment : String) :
    Survives (step lookup path place segment) (step larger path place segment) := by
  unfold step
  by_cases hs : segment = ""
  · rw [if_pos hs, if_pos hs]
    exact .refl _
  rw [if_neg hs, if_neg hs]
  cases place with
  | behind name => exact .refl _
  | inside schema =>
    cases ha : lookup schema segment with
    | none =>
      simp only [ha]
      exact .of_unknownAttribute segment schema _
    | some a =>
      simp only [ha, h schema segment a ha]
      exact .refl _

theorem survives_walk (h : larger.Extends lookup) (path : String) : ∀ (place : Place)
    (segs : List String), Survives (walk lookup path place segs) (walk larger path place segs) := by
  intro place segs
  induction segs generalizing place with
  | nil => exact .refl _
  | cons segment rest ih =>
    apply Survives.bind (survives_step h path place segment)
    intro a
    apply Survives.bind (ih (.after a))
    intro chain
    exact .refl _

/-- **A path survives.** -/
theorem survives_resolve (h : larger.Extends lookup) (root path : String) :
    Survives (resolve lookup root path) (resolve larger root path) := by
  apply Survives.bind (survives_walk h path (.inside root) (segments path))
  intro chain
  exact .refl _

end Path

/-! ### Requests -/

theorem Predicate.survives_ofParameter (h : larger.Extends lookup) (root name : String)
    (raws : List String) :
    Survives (ofParameter lookup root name raws) (ofParameter larger root name raws) := by
  unfold ofParameter
  by_cases hraws : raws = []
  · rw [if_pos hraws, if_pos hraws]
    exact .refl _
  rw [if_neg hraws, if_neg hraws]
  apply Survives.bind (Path.survives_resolve h root (FilterKey.read name).path)
  -- behind the chain nothing is looked up any more
  intro chain
  exact .refl _

theorem Predicate.survives_ofParameters (h : larger.Extends lookup) (root : String)
    (entries : List (String × List String)) :
    Survives (ofParameters lookup root entries) (ofParameters larger root entries) := by
  apply Survives.bind
  · apply Survives.mapM
    intro entry
    exact survives_ofParameter h root entry.1 entry.2
  · intro groups
    exact .refl _

theorem SortOrder.survives_ofRaws (h : larger.Extends lookup) (root : String)
    (separator : Option Char) (sort directions : List String) :
    Survives (ofRaws lookup root separator sort directions)
      (ofRaws larger root separator sort directions) := by
  apply Survives.bind (.refl _)
  intro ds
  apply Survives.bind
  · apply Survives.mapM
    intro field
    exact Path.survives_resolve h root field
  · intro chains
    exact .refl _

namespace Query

/-- **A larger catalog breaks no request.** Declaring a schema makes a catalog larger, and so does an
attribute under a name which its schema does not have. Whenever one lookup extends another one, all
answers over the smaller one survive: those to whole requests, to either part of them, and to a
single path and value. -/
theorem answers_survive :
    (∀ (c : Catalog) (name : String), (c.declare name).resolve.Extends c.resolve) ∧
    (∀ (c : Catalog), c.Built → ∀ (schema : String) (a : Attribute),
      c.resolve schema a.name = none → (c.insert schema a).resolve.Extends c.resolve) ∧
    ∀ (lookup larger : Lookup), larger.Extends lookup →
      ∀ (conventions : Conventions) (params : Params) (root path raw : String),
        Survives (ofParams lookup conventions params root)
          (ofParams larger conventions params root) ∧
        Survives (predicatesOf lookup conventions params root)
          (predicatesOf larger conventions params root) ∧
        Survives (ordersOf lookup conventions params root)
          (ordersOf larger conventions params root) ∧
        Survives (predicateOf lookup root path raw) (predicateOf larger root path raw) := by
  refine ⟨Catalog.extends_declare, ?_, ?_⟩
  · intro c hc schema a hnew
    exact Catalog.extends_insert hc hnew
  intro lookup larger h conventions params root path raw
  have hpredicates : Survives (predicatesOf lookup conventions params root)
      (predicatesOf larger conventions params root) :=
    Predicate.survives_ofParameters h root (filters conventions params)
  have horders : Survives (ordersOf lookup conventions params root)
      (ordersOf larger conventions params root) :=
    SortOrder.survives_ofRaws h root conventions.listSeparator _ _
  refine ⟨?_, hpredicates, horders, ?_⟩
  · apply Survives.bind hpredicates
    intro ps
    apply Survives.bind horders
    intro os
    exact .refl _
  · apply Survives.bind (Path.survives_resolve h root path)
    intro chain
    exact .refl _

/-- The law at a catalog which gets one more attribute, for a request which is answered and one
which is refused. -/
theorem answers_survive_created :
    let created : Attribute := ⟨"created", .date, none⟩
    let larger := Catalog.sample.insert "Resource" created
    let params : Params := .ofList [("application.kind[]", "=batch"), ("sort", "name")]
    let application : Attribute := ⟨"application", .identifier true, some "Application"⟩
    let kind : Attribute := ⟨"kind", .enumeration ["web", "=batch"], none⟩
    let answer : Except QueryFault Query := .error (.coercion "batch" .enumeration)
    let isUnknown : Predicate := ⟨[application, kind], .null, .absent⟩
    (Catalog.sample.declare "Owner").resolve.Extends Catalog.sample.resolve ∧
    (Catalog.sample.Built ∧ Catalog.sample.resolve "Resource" "created" = none ∧
      larger.resolve.Extends Catalog.sample.resolve) ∧
    (ofParams Catalog.sample.resolve {} params "Resource" = answer ∧
      ofParams larger.resolve {} params "Resource" = answer) ∧
    predicateOf Catalog.sample.resolve "Resource" "application.kind" "∅" = .ok isUnknown ∧
      predicateOf larger.resolve "Resource" "application.kind" "∅" = .ok isUnknown := by
  intro created larger params application kind answer isUnknown
  obtain ⟨hdeclare, hinsert, hsurvive⟩ := answers_survive
  have hnew : Catalog.sample.resolve "Resource" "created" = none := rfl
  have hlarger : larger.resolve.Extends Catalog.sample.resolve :=
    hinsert Catalog.sample Catalog.built_sample "Resource" created hnew
  obtain ⟨hwhole, -, -, hone⟩ :=
    hsurvive _ _ hlarger {} params "Resource" "application.kind" "∅"
  refine ⟨hdeclare Catalog.sample "Owner", ⟨Catalog.built_sample, hnew, hlarger⟩, ⟨rfl, ?_⟩, rfl, ?_⟩
  · apply hwhole.error _ rfl
    intro segment schema h
    cases h
  · exact hone.ok _ rfl

end Query

end QueryFilter
