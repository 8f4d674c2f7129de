import Mathlib.Data.List.Basic
import Mathlib.Data.List.Induction
import QueryFilter.Params

/-!
# Parameters and the pairs which they come from

A request arrives as a flat list of pairs, and `Params` groups it by name while it comes in. Here
the groups are computed from the flat list itself: the names in the order of their first
occurrences, and for each name its values in the order of the list. `entries_ofList` says that
appending the pairs one by one comes to the same,

    (ofList pairs).entries = (names pairs).map fun name => (name, values pairs name).

One append is `appendEntry_map`: on entries which are a function of their names, it changes the
function at one name, or adds the name at the end.

So what the groups are can be asked of the flat list. Taking some names out of the list takes their
groups out and moves no other one (`entries_ofList_filter`), a look-up sees the values of its name
and nothing else (`get_ofList`), and lists with the same values for each name have the same names in
some order (`names_perm`).
-/

namespace QueryFilter

section

variable {α : Type} [DecidableEq α]

/-- An element more goes to the end of those without repetition, unless it is there. -/
theorem eraseDups_concat (l : List α) (a : α) :
    (l ++ [a]).eraseDups = if a ∈ l then l.eraseDups else l.eraseDups ++ [a] := by
  rw [List.eraseDups_append]
  by_cases h : a ∈ l
  · have hgone : [a].removeAll l = [] := by simp [List.removeAll, h]
    rw [if_pos h, hgone, List.eraseDups_nil, List.append_nil]
  · have hstays : [a].removeAll l = [a] := by simp [List.removeAll, h]
    rw [if_neg h, hstays]
    rfl

theorem nodup_eraseDups (l : List α) : l.eraseDups.Nodup := by
  induction l using List.reverseRecOn with
  | nil => exact List.nodup_nil
  | append_singleton l a ih =>
    rw [eraseDups_concat]
    split
    · exact ih
    · next h =>
      rw [List.nodup_append]
      refine ⟨ih, List.pairwise_singleton _ _, fun b hb c hc hbc => h ?_⟩
      rw [List.mem_singleton.mp hc] at hbc
      exact List.mem_eraseDups.mp (hbc ▸ hb)

end

namespace Params

/-! ### The flat list -/

/-- The names of a list of pairs, each once, in the order of their first occurrences. -/
def names (pairs : List (String × String)) : List String := (pairs.map Prod.fst).eraseDups

/-- The values which a list of pairs has for a name, in its order. -/
def values (pairs : List (String × String)) (name : String) : List String :=
  (pairs.filter fun pair => pair.1 = name).map Prod.snd

theorem mem_names {pairs : List (String × String)} {name : String} :
    name ∈ names pairs ↔ ∃ value, (name, value) ∈ pairs := by
  rw [names, List.mem_eraseDups, List.mem_map]
  constructor
  · rintro ⟨⟨_, value⟩, h, rfl⟩
    exact ⟨value, h⟩
  · rintro ⟨value, h⟩
    exact ⟨(name, value), h, rfl⟩

@[simp] theorem names_nil : names [] = [] := rfl

/-- A pair more brings its name to the end, unless the name is there. -/
theorem names_concat (pairs : List (String × String)) (name value : String) :
    names (pairs ++ [(name, value)]) =
      if name ∈ names pairs then names pairs else names pairs ++ [name] := by
  rw [names, List.map_append, List.map_singleton, eraseDups_concat]
  simp only [names, List.mem_eraseDups]

@[simp] theorem nodup_names (pairs : List (String × String)) : (names pairs).Nodup :=
  nodup_eraseDups _

/-- A pair more brings its value to the end of those of its name. -/
theorem values_concat (pairs : List (String × String)) (name value other : String) :
    values (pairs ++ [(name, value)]) other =
      if other = name then values pairs other ++ [value] else values pairs other := by
  rw [values, List.filter_append, List.map_append]
  by_cases h : other = name
  · simp [values, h]
  · simp [values, h, Ne.symm h]

/-- A name which does not occur has no values, and every other one has some. -/
theorem values_eq_nil_iff {pairs : List (String × String)} {name : String} :
    values pairs name = [] ↔ name ∉ names pairs := by
  rw [values, List.map_eq_nil_iff, List.filter_eq_nil_iff, mem_names, not_exists]
  constructor
  · intro h value hmem
    exact h (name, value) hmem (decide_eq_true rfl)
  · rintro h ⟨n, value⟩ hmem hn
    rw [decide_eq_true_iff] at hn
    exact h value (hn ▸ hmem)

/-! ### Grouping -/

/-- One append, on entries which are a function of their names. -/
theorem appendEntry_map (name value : String) (f : String → List String) : ∀ {ns : List String},
    ns.Nodup → appendEntry name value (ns.map fun n => (n, f n)) =
      if name ∈ ns then ns.map fun n => (n, if n = name then f n ++ [value] else f n)
      else ns.map (fun n => (n, f n)) ++ [(name, [value])] := by
  intro ns
  induction ns with
  | nil => intro _; rfl
  | cons n ns ih =>
    intro hnd
    obtain ⟨hn, hns⟩ := List.nodup_cons.mp hnd
    rw [List.map_cons, appendEntry]
    by_cases h : n = name
    · subst h
      rw [if_pos rfl, if_pos List.mem_cons_self, List.map_cons, if_pos rfl]
      refine congrArg (_ :: ·) (List.map_congr_left fun m hm => ?_)
      rw [if_neg]
      rintro rfl
      exact hn hm
    · rw [if_neg h, ih hns]
      by_cases hmem : name ∈ ns
      · rw [if_pos hmem, if_pos (List.mem_cons_of_mem n hmem), List.map_cons, if_neg h]
      · rw [if_neg hmem, if_neg (List.not_mem_cons_of_ne_of_not_mem (Ne.symm h) hmem)]
        rfl

@[simp] theorem ofList_nil : ofList [] = {} := rfl

@[simp] theorem ofList_concat (pairs : List (String × String)) (pair : String × String) :
    ofList (pairs ++ [pair]) = (ofList pairs).append pair.1 pair.2 := by
  rw [ofList, extend, List.foldl_append]
  rfl

/-- **The groups of a request are those of its flat list.** -/
theorem entries_ofList (pairs : List (String × String)) :
    (ofList pairs).entries = (names pairs).map fun name => (name, values pairs name) := by
  induction pairs using List.reverseRecOn with
  | nil => simp
  | append_singleton pairs pair ih =>
    obtain ⟨name, value⟩ := pair
    rw [ofList_concat, append, ih, appendEntry_map _ _ _ (nodup_names pairs), names_concat]
    simp only [values_concat]
    split
    · rfl
    · next h =>
      -- the new name has no earlier values, and no earlier name is the new one
      rw [List.map_append, List.map_singleton, if_pos rfl, values_eq_nil_iff.mpr h]
      refine congrArg (· ++ _) (List.map_congr_left fun n hn => ?_)
      rw [if_neg]
      rintro rfl
      exact h hn

/-! ### Parts of the list -/

/-- Pairs of other names may be taken out without a change to the order of those which stay. -/
theorem names_filter (p : String → Bool) (pairs : List (String × String)) :
    names (pairs.filter fun pair => p pair.1) = (names pairs).filter p := by
  induction pairs using List.reverseRecOn with
  | nil => simp
  | append_singleton pairs pair ih =>
    obtain ⟨name, value⟩ := pair
    rw [List.filter_append, names_concat]
    -- the last pair stays, and then its name is new on both sides or on neither, or it is taken out
    by_cases hp : p name
    · have hstays : [(name, value)].filter (fun pair => p pair.1) = [(name, value)] := by simp [hp]
      have hmem : name ∈ (names pairs).filter p ↔ name ∈ names pairs := by simp [hp]
      rw [hstays, names_concat, ih]
      simp only [hmem]
      split
      · rfl
      · simp [List.filter_append, hp]
    · have hgone : [(name, value)].filter (fun pair => p pair.1) = [] := by simp [hp]
      rw [hgone, List.append_nil, ih]
      split
      · rfl
      · simp [List.filter_append, hp]

theorem values_filter {p : String → Bool} (pairs : List (String × String)) {name : String}
    (hp : p name = true) : values (pairs.filter fun pair => p pair.1) name = values pairs name := by
  rw [values, List.filter_filter, values]
  refine congrArg _ (List.filter_congr fun pair _ => ?_)
  by_cases h : pair.1 = name
  · simp [h, hp]
  · simp [h]

/-- **Grouping commutes with taking names out.** -/
theorem entries_ofList_filter (p : String → Bool) (pairs : List (String × String)) :
    (ofList (pairs.filter fun pair => p pair.1)).entries =
      (ofList pairs).entries.filter fun entry => p entry.1 := by
  rw [entries_ofList, entries_ofList, names_filter, List.filter_map]
  refine List.map_congr_left fun name hname => ?_
  rw [values_filter pairs (List.mem_filter.mp hname).2]

/-- **The values of a name are those which the list has for it.** -/
@[simp] theorem get_ofList (pairs : List (String × String)) (name : String) :
    (ofList pairs).get name = values pairs name := by
  rw [get, entries_ofList]
  by_cases h : name ∈ names pairs
  · rw [List.lookup_graph (values pairs) h, Option.getD_some]
  · have hnone : ((names pairs).map fun n => (n, values pairs n)).lookup name = none := by
      rw [List.lookup_eq_none_iff]
      intro entry hentry
      obtain ⟨n, hn, rfl⟩ := List.mem_map.mp hentry
      rw [bne_iff_ne]
      rintro rfl
      exact h hn
    rw [hnone, values_eq_nil_iff.mpr h, Option.getD_none]

theorem names_perm {pairs pairs' : List (String × String)}
    (h : ∀ name, values pairs name = values pairs' name) : (names pairs).Perm (names pairs') := by
  rw [List.perm_ext_iff_of_nodup (nodup_names pairs) (nodup_names pairs')]
  intro name
  rw [← not_iff_not, ← values_eq_nil_iff, ← values_eq_nil_iff, h name]

end Params

end QueryFilter
