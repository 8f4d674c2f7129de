import Mathlib.Data.List.Infix
import QueryFilter.Condition

/-!
# How conditions are read and written

`Condition.read` tries the tokens of the table one after the other. Since a token stands before
every token which it extends (`Comparison.tokens_pairwise`), the first hit is the longest one
(`Condition.read_cases`), and the rest of this file follows from that: a marker is read without a
literal and everything else with one, and a comparison which is written in front of a literal is
read back, unless the literal extends it to a longer token (`Condition.read_symbol_append`). The
literal behind a token never does (`Condition.not_extends_of_literal`). `Condition.Writes` says what
a value writes without a search through the table, and `Condition.read_unambiguous` sums up.
-/

namespace QueryFilter

namespace Comparison

/-- No token is the beginning of a later one. -/
theorem tokens_pairwise : tokens.Pairwise fun t u => ¬ t.1.toList <+: u.1.toList := by decide

theorem symbol_mem_tokens {c : Comparison} (h : c ≠ .oneOf) : (c.symbol, c) ∈ tokens := by
  cases c with
  | oneOf => exact absurd rfl h
  | _ => decide

theorem ne_oneOf_of_mem_tokens : ∀ t ∈ tokens, t.2 ≠ .oneOf := by decide

theorem eq_of_mem_tokens : ∀ t ∈ tokens, ∀ u ∈ tokens, t.1.toList = u.1.toList → t.2 = u.2 := by
  decide

/-- Only equality has a second token. -/
theorem eq_symbol_of_mem_tokens : ∀ t ∈ tokens, t.1 = t.2.symbol ∨ t.2 = .equal := by decide

end Comparison

namespace Condition

open Comparison

/-! ### The longest token -/

/-- **The longest token counts**, and the whole value if it starts with none. -/
theorem read_cases (raw : String) :
    (∃ t ∈ tokens, ∃ rest, raw.toList = t.1.toList ++ rest ∧ read raw = ofToken t.2 rest ∧
      ∀ u ∈ tokens, u.1.toList <+: raw.toList → u.1.toList <+: t.1.toList) ∨
    (∀ t ∈ tokens, ¬ t.1.toList <+: raw.toList) ∧ read raw = ⟨.equal, some raw⟩ := by
  have hread : read raw = (tokens.findSome? fun t =>
      (t.1.toList.isPrefixOf? raw.toList).map (ofToken t.2)).getD ⟨.equal, some raw⟩ := rfl
  cases h : tokens.findSome? fun t =>
      (t.1.toList.isPrefixOf? raw.toList).map (ofToken t.2) with
  | none =>
    right
    refine ⟨fun t ht hpre => ?_, by rw [hread, h]; rfl⟩
    obtain ⟨rest, hrest⟩ := hpre
    have hnone : (t.1.toList.isPrefixOf? raw.toList).map (ofToken t.2) = none :=
      List.findSome?_eq_none_iff.mp h t ht
    rw [List.isPrefixOf?_eq_some_iff_append_eq.mpr hrest] at hnone
    cases hnone
  | some condition =>
    left
    obtain ⟨before, t, after, hsplit, ht, hbefore⟩ := List.findSome?_eq_some_iff.mp h
    obtain ⟨rest, hrest, rfl⟩ := Option.map_eq_some_iff.mp ht
    rw [List.isPrefixOf?_eq_some_iff_append_eq] at hrest
    refine ⟨t, hsplit ▸ List.mem_append_right _ List.mem_cons_self, rest, hrest.symm,
      by rw [hread, h]; rfl, fun u hu hpre => ?_⟩
    rw [hsplit] at hu
    rcases List.mem_append.mp hu with hu | hu
    · -- a token before the hit would have been the hit
      obtain ⟨rest', hrest'⟩ := hpre
      have hnone : (u.1.toList.isPrefixOf? raw.toList).map (ofToken u.2) = none := hbefore u hu
      rw [List.isPrefixOf?_eq_some_iff_append_eq.mpr hrest'] at hnone
      cases hnone
    · rcases List.mem_cons.mp hu with rfl | hu
      · exact List.prefix_rfl
      · have hpair := tokens_pairwise
        rw [hsplit] at hpair
        have hnot := (List.pairwise_cons.mp (List.pairwise_append.mp hpair).2.1).1 u hu
        exact (List.prefix_or_prefix_of_prefix hpre ⟨rest, hrest⟩).resolve_right hnot

/-- A value has no literal exactly when it is a marker. -/
theorem literal_eq_none_iff (raw : String) :
    (read raw).literal = none ↔ (read raw).comparison.isUnary = true := by
  rcases read_cases raw with ⟨t, -, rest, -, h, -⟩ | ⟨-, h⟩
  · rw [h, ofToken]
    cases t.2.isUnary <;> simp
  · rw [h]
    simp [isUnary]

/-- No value asks for membership by itself. -/
theorem comparison_ne_oneOf (raw : String) : (read raw).comparison ≠ .oneOf := by
  rcases read_cases raw with ⟨t, ht, rest, -, h, -⟩ | ⟨-, h⟩
  · rw [h]
    exact ne_oneOf_of_mem_tokens t ht
  · rw [h]
    exact Comparison.noConfusion

/-! ### Written conditions -/

/-- A comparison and the text behind it make a longer token together. -/
def Extends (c : Comparison) (s : String) : Prop :=
  ∃ t ∈ tokens, t.1.toList <+: (c.symbol ++ s).toList ∧ ¬ t.1.toList <+: c.symbol.toList

theorem extends_iff {c : Comparison} {s : String} :
    Extends c s ↔ c = .greater ∧ s.toList.head? = some '=' ∨
      c = .less ∧ (s.toList.head? = some '=' ∨ s.toList.head? = some '>') := by
  unfold Extends
  simp only [String.toList_append]
  generalize s.toList = cs
  cases cs with
  | nil => cases c <;> simp [tokens, symbol]
  | cons x xs => cases c <;> simp [tokens, symbol, eq_comm]

/-- **A written comparison is read back**, unless the text behind it makes a longer token. -/
theorem read_symbol_append {c : Comparison} (hc : c ≠ .oneOf) {s : String} (h : ¬ Extends c s) :
    read (c.symbol ++ s) = ofToken c s.toList := by
  have hsymbol : c.symbol.toList <+: (c.symbol ++ s).toList :=
    ⟨s.toList, String.toList_append.symm⟩
  rcases read_cases (c.symbol ++ s) with ⟨t, ht, rest, hraw, hread, hlongest⟩ | ⟨hnone, -⟩
  · have hle := hlongest _ (symbol_mem_tokens hc) hsymbol
    have hge : t.1.toList <+: c.symbol.toList := by
      by_contra hnot
      exact h ⟨t, ht, ⟨rest, hraw.symm⟩, hnot⟩
    have heq : c.symbol.toList = t.1.toList :=
      hle.eq_of_length (Nat.le_antisymm hle.length_le hge.length_le)
    rw [String.toList_append, heq, List.append_cancel_left_eq] at hraw
    have hcomparison : c = t.2 := eq_of_mem_tokens _ (symbol_mem_tokens hc) t ht heq
    rw [hread, hraw, hcomparison]
  · exact absurd hsymbol (hnone _ (symbol_mem_tokens hc))

theorem read_symbol_append_of_valued {c : Comparison} (hc : c ≠ .oneOf) (hu : c.isUnary = false)
    {s : String} (h : ¬ Extends c s) : read (c.symbol ++ s) = ⟨c, some s⟩ := by
  rw [read_symbol_append hc h, ofToken, hu]
  simp

theorem read_symbol_of_unary {c : Comparison} (hu : c.isUnary = true) :
    read c.symbol = ⟨c, none⟩ := by
  match c, hu with
  | .present, _ => rfl
  | .notNull, _ => rfl
  | .null, _ => rfl

theorem isUnary_of_literal {raw literal : String} (h : (read raw).literal = some literal) :
    (read raw).comparison.isUnary = false := by
  rw [← Bool.not_eq_true, ← literal_eq_none_iff, h]
  exact Option.some_ne_none literal

/-- The literal behind a token does not make it longer. -/
theorem not_extends_of_literal {raw literal : String} (h : (read raw).literal = some literal) :
    ¬ Extends (read raw).comparison literal := by
  rcases read_cases raw with ⟨t, ht, rest, hraw, hread, hlongest⟩ | ⟨-, hread⟩
  · rw [hread, ofToken] at h ⊢
    simp only at h ⊢
    split at h
    · cases h
    · obtain rfl := Option.some.inj h
      rcases eq_symbol_of_mem_tokens t ht with hsymbol | hequal
      · rintro ⟨u, hu, hpre, hnot⟩
        rw [String.toList_append, String.toList_ofList, ← hsymbol, ← hraw] at hpre
        rw [← hsymbol] at hnot
        exact hnot (hlongest u hu hpre)
      · rw [extends_iff, hequal]
        simp
  · rw [hread, extends_iff]
    simp

/-- **A value is read again with another literal** behind the same comparison, if the literal does
not make it longer. -/
theorem read_symbol_append_of_literal {raw literal s : String}
    (h : (read raw).literal = some literal) (hs : ¬ Extends (read raw).comparison s) :
    read ((read raw).comparison.symbol ++ s) = ⟨(read raw).comparison, some s⟩ :=
  read_symbol_append_of_valued (comparison_ne_oneOf raw) (isUnary_of_literal h) hs

/-- Behind a text which does make it longer, the comparison is not the one which is read. -/
theorem read_symbol_append_iff {c : Comparison} (hc : c ≠ .oneOf) (hu : c.isUnary = false)
    {s : String} : read (c.symbol ++ s) = ⟨c, some s⟩ ↔ ¬ Extends c s := by
  refine ⟨?_, read_symbol_append_of_valued hc hu⟩
  rintro h ⟨t, ht, hpre, hnot⟩
  rcases read_cases (c.symbol ++ s) with ⟨u, -, rest, hraw, hread, hlongest⟩ | ⟨hnone, -⟩
  · rw [h, ofToken] at hread
    obtain ⟨-, hliteral⟩ := Condition.mk.inj hread
    split at hliteral
    · cases hliteral
    · -- the text behind the token which counts is `s`, so that token is the symbol
      have hs : s = String.ofList rest := Option.some.inj hliteral
      rw [String.toList_append, hs, String.toList_ofList, List.append_cancel_right_eq] at hraw
      exact hnot (hraw ▸ hlongest t ht hpre)
  · exact hnone t ht hpre

/-! ### What a value writes -/

/-- A token of the table which a value starts with, and the text behind it; no token which the value
starts with is longer. -/
structure Token (raw : String) (t : String × Comparison) (rest : String) : Prop where
  mem : t ∈ tokens
  eq_append : raw = t.1 ++ rest
  longest : ∀ u ∈ tokens, u.1.toList <+: raw.toList → u.1.length ≤ t.1.length

/-- What a raw value writes: the comparison of its longest token, with the text behind the token
unless that is a marker. A value which starts with no token is a literal as a whole. -/
inductive Writes (raw : String) : Condition → Prop
  | valued {t : String × Comparison} {rest : String} : Token raw t rest → t.2.isUnary = false →
      Writes raw ⟨t.2, some rest⟩
  | marker {t : String × Comparison} {rest : String} : Token raw t rest → t.2.isUnary = true →
      Writes raw ⟨t.2, none⟩
  | bare : (∀ t ∈ tokens, ¬ t.1.toList <+: raw.toList) → Writes raw ⟨.equal, some raw⟩

theorem read_of_token {raw rest : String} {t : String × Comparison} (h : Token raw t rest) :
    read raw = ofToken t.2 rest.toList := by
  have hraw : raw.toList = t.1.toList ++ rest.toList := by rw [h.eq_append, String.toList_append]
  have hpre : t.1.toList <+: raw.toList := ⟨rest.toList, hraw.symm⟩
  rcases read_cases raw with ⟨u, hu, rest', hraw', hread, hlongest⟩ | ⟨hnone, -⟩
  · have hlength : u.1.toList.length ≤ t.1.toList.length := by
      rw [String.length_toList, String.length_toList]
      exact h.longest u hu ⟨rest', hraw'.symm⟩
    have htoken : t.1.toList = u.1.toList :=
      (hlongest t h.mem hpre).eq_of_length_le hlength
    rw [hraw, htoken, List.append_cancel_left_eq] at hraw'
    rw [hread, ← hraw', eq_of_mem_tokens t h.mem u hu htoken]
  · exact absurd hpre (hnone t h.mem)

/-- **A value is read as what it writes.** -/
theorem read_eq_iff {raw : String} {k : Condition} : read raw = k ↔ Writes raw k := by
  constructor
  · rintro rfl
    rcases read_cases raw with ⟨t, ht, rest, hraw, hread, hlongest⟩ | ⟨hnone, hread⟩
    · have htoken : Token raw t (String.ofList rest) := by
        refine ⟨ht, ?_, ?_⟩
        · rw [← String.toList_inj, String.toList_append, String.toList_ofList, hraw]
        · intro u hu hpre
          rw [← String.length_toList, ← String.length_toList]
          exact (hlongest u hu hpre).length_le
      rw [hread, ofToken]
      by_cases hunary : t.2.isUnary = true
      · rw [if_pos hunary]
        exact .marker htoken hunary
      · rw [if_neg hunary]
        exact .valued htoken (Bool.not_eq_true _ ▸ hunary)
    · rw [hread]
      exact .bare hnone
  · rintro (⟨htoken, hunary⟩ | ⟨htoken, hunary⟩ | hnone)
    · rw [read_of_token htoken, ofToken, hunary]
      simp
    · rw [read_of_token htoken, ofToken, hunary]
      simp
    · rcases read_cases raw with ⟨t, ht, rest, hraw, -, -⟩ | ⟨-, hread⟩
      · exact absurd ⟨rest, hraw.symm⟩ (hnone t ht)
      · exact hread

/-- **Reading is unambiguous.** A value is read by its longest token. A comparison which takes a
literal is read back in front of every literal, except for `>` in front of `=` and for `<` in front
of `=` or `>`, and it always is in front of a literal which was read behind it. Membership is never
read. -/
theorem read_unambiguous :
    (∀ raw k, read raw = k ↔ Writes raw k) ∧
    (∀ c : Comparison, c.isUnary = false → c ≠ .oneOf → ∀ s : String,
      read (c.symbol ++ s) = ⟨c, some s⟩ ↔
        ¬ (c = .greater ∧ s.toList.head? = some '=') ∧
        ¬ (c = .less ∧ (s.toList.head? = some '=' ∨ s.toList.head? = some '>'))) ∧
    (∀ raw c l, read raw = ⟨c, some l⟩ → read (c.symbol ++ l) = ⟨c, some l⟩) ∧
    ∀ raw, (read raw).comparison ≠ .oneOf := by
  refine ⟨fun raw k => read_eq_iff, ?_, ?_, comparison_ne_oneOf⟩
  · intro c hu hc s
    rw [read_symbol_append_iff hc hu, extends_iff, not_or]
  · intro raw c l h
    have hliteral : (read raw).literal = some l := by rw [h]
    have hread := read_symbol_append_of_literal hliteral (not_extends_of_literal hliteral)
    rw [h] at hread
    exact hread

/-- The law at `<>>5`, whose token is longer than `<`; at `<` in front of `>5`, which is that value;
and at `=a`, which is read again as `==a`. -/
theorem read_unambiguous_notEqual :
    (Writes "<>>5" ⟨.notEqual, some ">5"⟩ ∧ read "<>>5" = ⟨.notEqual, some ">5"⟩) ∧
    (Comparison.less.isUnary = false ∧ Comparison.less ≠ .oneOf ∧
      read (Comparison.less.symbol ++ ">>5") ≠ ⟨.less, some ">>5"⟩ ∧
      read (Comparison.less.symbol ++ "5") = ⟨.less, some "5"⟩) ∧
    (read "=a" = ⟨.equal, some "a"⟩ ∧
      read (Comparison.equal.symbol ++ "a") = ⟨.equal, some "a"⟩) ∧
    (read "*a").comparison ≠ .oneOf := by
  obtain ⟨hwrites, hsymbol, hagain, honeOf⟩ := read_unambiguous
  have htoken : Writes "<>>5" ⟨.notEqual, some ">5"⟩ :=
    .valued (t := ("<>", .notEqual)) ⟨by decide, rfl, by decide⟩ rfl
  have hless := hsymbol .less rfl (by decide)
  have hread : read "=a" = ⟨.equal, some "a"⟩ := rfl
  refine ⟨⟨htoken, (hwrites _ _).mpr htoken⟩, ⟨rfl, by decide, ?_, ?_⟩, ⟨hread, ?_⟩, honeOf _⟩
  · rw [Ne, hless]
    decide
  · rw [hless]
    decide
  · exact hagain _ _ _ hread

end Condition

end QueryFilter
