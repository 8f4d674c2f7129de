import Mathlib.Data.List.TakeWhile
import QueryFilter.Command.Run
import QueryFilter.Proofs.Collecting
import QueryFilter.Proofs.FirstFault

/-!
# The parameters of a command line

An entry is an assignment `name=value`. It is cut at its first equals sign, so a name without one is
read back from its assignment, whatever the value holds: that a value starts with `=` or with
another comparison does no harm. `ReadsEntry` has one rule for each way in which an entry is read,
and the reading of entries stops at the first which is refused.

Hence assignments write all parameters which can be collected (`buildParams_assignments`), and the
switches `--sort` and `--direction` are only other ways to write assignments behind the entries:

    buildParams c entries sort direction =
      buildParams c (entries ++ flagEntries c sort direction) [] []

The rest follows the two sides of this equation through a whole command line, first when two lines
ask for them under the same settings (`answer_eq_of_read`), and then for the lines which write each
of them with its own switch (`answer_parseArguments`).
-/

namespace QueryFilter.Command

/-! ### Entries -/

/-- The text which assigns a value to a name. -/
def assignment (name value : String) : String := name ++ "=" ++ value

/-- A name which assignments can write. -/
structure Assignable (name : String) : Prop where
  ne_empty : name ≠ ""
  equals_not_mem : '=' ∉ name.toList

/-- How an entry is read. -/
inductive ReadsEntry : String → Except Fault (String × String) → Prop
  | assignment {name value : String} : Assignable name →
      ReadsEntry (assignment name value) (.ok (name, value))
  | withoutValue {entry : String} : '=' ∉ entry.toList →
      ReadsEntry entry (.error (.parameterWithoutValue entry))
  | withoutName {value : String} :
      ReadsEntry (Command.assignment "" value)
        (.error (.parameterWithoutName (Command.assignment "" value)))

@[simp] theorem toList_assignment (name value : String) :
    (assignment name value).toList = name.toList ++ '=' :: value.toList := by
  simp [assignment]

section

variable {name : List Char} (h : '=' ∉ name) (value : List Char)

include h

theorem forall_ne_equals : ∀ c ∈ name, decide (c ≠ '=') = true := by
  intro c hc
  exact decide_eq_true fun heq => h (heq ▸ hc)

/-- What stands before the first equals sign. -/
theorem takeWhile_ne_equals : (name ++ '=' :: value).takeWhile (· ≠ '=') = name := by
  rw [List.takeWhile_append_of_pos (forall_ne_equals h), List.takeWhile_cons_of_neg (by simp),
    List.append_nil]

theorem dropWhile_ne_equals : (name ++ '=' :: value).dropWhile (· ≠ '=') = '=' :: value := by
  rw [List.dropWhile_append_of_pos (forall_ne_equals h), List.dropWhile_cons_of_neg (by simp)]

end

theorem readEntry_assignment {name : String} (h : '=' ∉ name.toList) (value : String) :
    readEntry (assignment name value) =
      if name = "" then .error (.parameterWithoutName (assignment name value))
      else .ok (name, value) := by
  simp only [readEntry, toList_assignment, dropWhile_ne_equals h, takeWhile_ne_equals h,
    String.ofList_toList, String.toList_eq_nil_iff]

theorem readEntry_of_not_mem {entry : String} (h : '=' ∉ entry.toList) :
    readEntry entry = .error (.parameterWithoutValue entry) := by
  have hdrop : entry.toList.dropWhile (· ≠ '=') = [] :=
    List.dropWhile_eq_nil_iff.mpr (forall_ne_equals h)
  simp only [readEntry, hdrop]

/-- An entry with an equals sign is an assignment to what stands before the first one. -/
theorem exists_assignment {entry : String} (h : '=' ∈ entry.toList) :
    ∃ name value, entry = assignment name value ∧ '=' ∉ name.toList := by
  obtain ⟨name, value, heq, hname⟩ := List.eq_append_cons_of_mem h
  refine ⟨String.ofList name, String.ofList value, ?_, by simpa using hname⟩
  apply String.toList_inj.mp
  rw [heq, toList_assignment, String.toList_ofList, String.toList_ofList]

theorem readEntry_eq_iff {entry : String} {r : Except Fault (String × String)} :
    readEntry entry = r ↔ ReadsEntry entry r := by
  constructor
  · rintro rfl
    by_cases hmem : '=' ∈ entry.toList
    · obtain ⟨name, value, rfl, hname⟩ := exists_assignment hmem
      rw [readEntry_assignment hname]
      by_cases hempty : name = ""
      · subst hempty
        exact .withoutName
      · rw [if_neg hempty]
        exact .assignment ⟨hempty, hname⟩
    · rw [readEntry_of_not_mem hmem]
      exact .withoutValue hmem
  · intro h
    cases h with
    | assignment hname => rw [readEntry_assignment hname.equals_not_mem, if_neg hname.ne_empty]
    | withoutValue hmem => exact readEntry_of_not_mem hmem
    | withoutName => rw [readEntry_assignment (by simp), if_pos rfl]

/-- **The refused entries** are those without an equals sign and those which start with one. -/
theorem exists_error_iff {entry : String} :
    (∃ f, ReadsEntry entry (.error f)) ↔ '=' ∉ entry.toList ∨ entry.toList.head? = some '=' := by
  constructor
  · rintro ⟨f, h⟩
    cases h with
    | withoutValue hmem => exact Or.inl hmem
    | withoutName => exact Or.inr (by simp)
  · rintro (hmem | hhead)
    · exact ⟨_, .withoutValue hmem⟩
    · obtain ⟨value, heq⟩ := List.head?_eq_some_iff.mp hhead
      have hentry : entry = assignment "" (String.ofList value) := by
        apply String.toList_inj.mp
        simp [heq]
      rw [hentry]
      exact ⟨_, .withoutName⟩

/-! ### All entries -/

variable {conventions : Conventions}

/-- Assignments are read back. -/
theorem mapM_readEntry_assignments {pairs : List (String × String)}
    (h : ∀ pair ∈ pairs, Assignable pair.1) :
    (pairs.map fun pair => assignment pair.1 pair.2).mapM readEntry = .ok pairs := by
  rw [mapM_eq_ok_iff, List.forall₂_map_left_iff, List.forall₂_same]
  intro pair hpair
  exact readEntry_eq_iff.mpr (.assignment (h pair hpair))

theorem buildParams_eq_bind (entries sort direction : List String) :
    buildParams conventions entries sort direction = entries.mapM readEntry >>= fun pairs =>
      .ok (.ofList (pairs ++ sort.map (conventions.sortKey, ·)
        ++ direction.map (conventions.directionKey, ·))) :=
  rfl

theorem buildParams_of_ok {entries : List String} {pairs : List (String × String)}
    (h : entries.mapM readEntry = .ok pairs) :
    buildParams conventions entries [] [] = .ok (.ofList pairs) := by
  rw [buildParams_eq_bind, h]
  show Except.ok (Params.ofList (pairs ++ [] ++ [])) = _
  rw [List.append_nil, List.append_nil]

/-- **Assignments write all parameters whose names they can write.** -/
theorem buildParams_assignments {p : Params} (hp : p.Grouped)
    (h : ∀ entry ∈ p.entries, Assignable entry.1) :
    buildParams conventions (p.pairs.map fun pair => assignment pair.1 pair.2) [] [] = .ok p := by
  have hpairs : ∀ pair ∈ p.pairs, Assignable pair.1 := by
    intro pair hpair
    obtain ⟨entry, hentry, hvalue⟩ := List.mem_flatMap.mp hpair
    obtain ⟨value, -, rfl⟩ := List.mem_map.mp hvalue
    exact h entry hentry
  rw [buildParams_of_ok (mapM_readEntry_assignments hpairs), hp.ofList_pairs]

/-- The assignments which sort values and directions stand for. -/
def flagEntries (conventions : Conventions) (sort direction : List String) : List String :=
  sort.map (assignment conventions.sortKey) ++ direction.map (assignment conventions.directionKey)

theorem mapM_readEntry_flagEntries (hsort : Assignable conventions.sortKey)
    (hdirection : Assignable conventions.directionKey) (sort direction : List String) :
    (flagEntries conventions sort direction).mapM readEntry =
      .ok (sort.map (conventions.sortKey, ·) ++ direction.map (conventions.directionKey, ·)) := by
  have hpairs : ∀ pair ∈ sort.map (conventions.sortKey, ·)
      ++ direction.map (conventions.directionKey, ·), Assignable pair.1 := by
    intro pair hpair
    rcases List.mem_append.mp hpair with hpair | hpair
    · obtain ⟨value, -, rfl⟩ := List.mem_map.mp hpair
      exact hsort
    · obtain ⟨value, -, rfl⟩ := List.mem_map.mp hpair
      exact hdirection
  have hrun := mapM_readEntry_assignments hpairs
  rw [List.map_append, List.map_map, List.map_map] at hrun
  exact hrun

/-- **The sort values and directions are entries behind the others**, whether these are all read or
not. -/
theorem buildParams_flagEntries (hsort : Assignable conventions.sortKey)
    (hdirection : Assignable conventions.directionKey) (entries sort direction : List String) :
    buildParams conventions entries sort direction =
      buildParams conventions (entries ++ flagEntries conventions sort direction) [] [] := by
  rw [buildParams_eq_bind, buildParams_eq_bind, List.mapM_append,
    mapM_readEntry_flagEntries hsort hdirection]
  cases entries.mapM readEntry with
  | error f => rfl
  | ok pairs =>
    show Except.ok _ = Except.ok _
    rw [List.map_nil, List.map_nil, List.append_nil, List.append_nil, List.append_assoc]

theorem buildParams_eq_error_iff {entries sort direction : List String} {f : Fault} :
    buildParams conventions entries sort direction = .error f ↔
      FirstFault ReadsEntry entries f := by
  have hrun : entries.mapM readEntry = .error f ↔ FirstFault ReadsEntry entries f :=
    mapM_eq_iff fun _ _ _ => readEntry_eq_iff
  rw [buildParams_eq_bind, bind_eq_error_iff, hrun]
  refine or_iff_left ?_
  rintro ⟨pairs, -, h⟩
  cases h

theorem exists_buildParams_eq_error_iff {entries sort direction : List String} :
    (∃ f, buildParams conventions entries sort direction = .error f) ↔
      ∃ entry ∈ entries, ∃ f, ReadsEntry entry (.error f) := by
  simp only [buildParams_eq_error_iff]
  constructor
  · rintro ⟨f, before, entry, after, rfl, -, hentry⟩
    exact ⟨entry, List.mem_append_right _ List.mem_cons_self, f, hentry⟩
  · rintro ⟨entry, hmem, f, hentry⟩
    cases hrun : entries.mapM readEntry with
    | error f' => exact ⟨f', (mapM_eq_iff fun _ _ _ => readEntry_eq_iff).mp hrun⟩
    | ok pairs =>
      obtain ⟨pair, hpair⟩ := exists_eq_ok_of_mapM_eq_ok hrun entry hmem
      rw [readEntry_eq_iff.mpr hentry] at hpair
      cases hpair

/-! ### Long switches -/

/-- The arguments which give values to long switches. -/
def longSwitches (pairs : List (String × String)) : List String :=
  pairs.map fun pair => assignment ("--" ++ pair.1) pair.2

theorem longParts?_assignment {name : String} (h : Assignable name) (value : String) :
    longParts? (assignment ("--" ++ name) value) = some (name, some value) := by
  obtain ⟨c, cs, hcs⟩ := List.exists_cons_of_ne_nil fun hnil =>
    h.ne_empty (String.toList_eq_nil_iff.mp hnil)
  have hname : '=' ∉ c :: cs := hcs ▸ h.equals_not_mem
  have htake := takeWhile_ne_equals hname value.toList
  have hdrop := dropWhile_ne_equals hname value.toList
  have htext : (assignment ("--" ++ name) value).toList =
      '-' :: '-' :: c :: (cs ++ '=' :: value.toList) := by
    simp [hcs]
  rw [List.cons_append] at htake hdrop
  simp only [longParts?, htext, htake, hdrop, String.ofList_toList]
  rw [← hcs, String.ofList_toList]

@[simp] theorem assignment_ne_hyphens (name value : String) : assignment name value ≠ "--" := by
  intro h
  have hmem : '=' ∈ (assignment name value).toList := by simp
  rw [h] at hmem
  simp at hmem

namespace Grammar

variable {g : Grammar} {r r' : Reading} {s : Switch}

theorem readArgument_assignment {name : String} (hname : Assignable name)
    (hs : g.named? name = some s) (value : String) :
    g.readArgument r .fresh (assignment ("--" ++ name) value) = readLong r s (some value) := by
  simp only [readArgument, if_neg (assignment_ne_hyphens _ _), longParts?_assignment hname, hs,
    Bool.false_eq_true, if_false]

/-- A switch which is given its value is read, and reading goes on behind it. -/
theorem readFrom_assignment (hg : g.commands = []) {name value : String} (hname : Assignable name)
    (hs : g.named? name = some s) (htakes : s.takesValue = true) (hgive : r.give s value = .ok r')
    (args : List String) :
    g.readFrom r .fresh (assignment ("--" ++ name) value :: args) = g.readFrom r' .fresh args := by
  have hcommand : g.isCommand .fresh (assignment ("--" ++ name) value) = false := by
    simp [isCommand, hg]
  rw [readFrom, hcommand, readArgument_assignment hname hs, readLong, if_pos htakes, hgive]
  rfl

/-- The name of a switch which takes any value, and again and again. -/
structure Repeats (g : Grammar) (name : String) : Prop where
  assignable : Assignable name
  named : ∃ letter, g.named? name = some { name, letter, arity := .repeated }

/-- **Repeated switches give all their values.** -/
theorem readFrom_longSwitches (hg : g.commands = []) :
    ∀ {pairs : List (String × String)} {r : Reading}, (∀ pair ∈ pairs, g.Repeats pair.1) →
      g.readFrom r .fresh (longSwitches pairs) =
        .ok ({ r with values := r.values ++ pairs }, none) := by
  intro pairs
  induction pairs with
  | nil =>
    intro r _
    rw [List.append_nil]
    rfl
  | cons pair pairs ih =>
    intro r h
    rw [List.forall_mem_cons] at h
    obtain ⟨hname, letter, hs⟩ := h.1
    have hgive : r.give { name := pair.1, letter, arity := .repeated } pair.2 =
        .ok { r with values := r.values ++ [pair] } := by
      simp [Reading.give]
    rw [longSwitches, List.map_cons, readFrom_assignment hg hname hs rfl hgive, ← longSwitches,
      ih h.2, List.append_assoc]
    rfl

/-- What stands behind a command does not matter before it. -/
theorem readFrom_append {o : Reading} {name : String} (rest : List String) :
    ∀ {args tail : List String} {r : Reading} {next : Next},
      g.readFrom r next args = .ok (o, some (name, tail)) →
        g.readFrom r next (args ++ rest) = .ok (o, some (name, tail ++ rest)) := by
  intro args
  induction args with
  | nil =>
    intro tail r next h
    cases next <;> simp [readFrom] at h
  | cons arg args ih =>
    intro tail r next h
    rw [readFrom] at h
    rw [List.cons_append, readFrom]
    by_cases hcommand : g.isCommand next arg = true
    · rw [if_pos hcommand] at h ⊢
      cases h
      rfl
    · rw [if_neg hcommand] at h ⊢
      obtain ⟨read, hread, h⟩ := bind_eq_ok_iff.mp h
      rw [hread]
      exact ih h

end Grammar

/-! ### The arguments of `parse` -/

namespace Reading

variable (xs : List String) (values values' : List (String × String)) (switch name : String)

@[simp] theorem allValues_append : allValues { values := values ++ values' } name =
    allValues { values } name ++ allValues { values := values' } name := by
  simp [allValues]

/-- The values which are all of one switch. -/
@[simp] theorem allValues_map : allValues { values := xs.map (switch, ·) } name =
    if switch = name then xs else [] := by
  by_cases h : switch = name <;> simp [allValues, List.filter_map, Function.comp_def, h]

end Reading

/-- The values which the arguments of `parse` give, by their switches. -/
def parseValues (root : Option String) (entries sort direction : List String) :
    List (String × String) :=
  root.toList.map ("root", ·) ++ (entries.map ("param", ·) ++ sort.map ("sort", ·)
    ++ direction.map ("direction", ·))

/-- The arguments of `parse` with one long switch for each value. -/
def parseArguments (root : Option String) (entries sort direction : List String) : List String :=
  longSwitches (parseValues root entries sort direction)

section

variable (root : Option String) (entries sort direction : List String)

variable {root entries sort direction} in
/-- The switches of `parse`, of which only `root` takes its value once. -/
theorem name_of_mem_parseValues {pair : String × String}
    (h : pair ∈ parseValues root entries sort direction) :
    pair.1 ∈ ["param", "sort", "direction"] ∨ pair.1 = "root" ∧ root ≠ none := by
  simp only [parseValues, List.mem_append, List.mem_map] at h
  rcases h with ⟨value, hvalue, rfl⟩ | (⟨value, -, rfl⟩ | ⟨value, -, rfl⟩) | ⟨value, -, rfl⟩
  · refine Or.inr ⟨rfl, ?_⟩
    rintro rfl
    exact List.not_mem_nil hvalue
  all_goals exact Or.inl (by simp)

theorem repeats_of_mem : ∀ name ∈ ["param", "sort", "direction"], parseGrammar.Repeats name := by
  intro name h
  simp only [List.mem_cons, List.not_mem_nil, or_false] at h
  rcases h with rfl | rfl | rfl
  · exact ⟨⟨by simp, by simp⟩, some 'p', rfl⟩
  · exact ⟨⟨by simp, by simp⟩, none, rfl⟩
  · exact ⟨⟨by simp, by simp⟩, none, rfl⟩

theorem read_parseArguments : parseGrammar.read (parseArguments root entries sort direction) =
    .ok ({ values := parseValues root entries sort direction }, none) := by
  have hrepeats : ∀ pair ∈ parseValues none entries sort direction,
      parseGrammar.Repeats pair.1 := by
    intro pair hpair
    rcases name_of_mem_parseValues hpair with hname | ⟨-, hroot⟩
    · exact repeats_of_mem pair.1 hname
    · exact absurd rfl hroot
  cases root with
  | none => exact Grammar.readFrom_longSwitches rfl hrepeats
  | some root =>
    have hname : Assignable "root" := ⟨by simp, by simp⟩
    have hgive : Reading.give {} { name := "root", arity := .single } root =
        .ok { values := [("root", root)] } := by
      simp [Reading.give, Reading.value?]
    show parseGrammar.readFrom {} .fresh (assignment ("--" ++ "root") root ::
      parseArguments none entries sort direction) = _
    rw [Grammar.readFrom_assignment rfl hname rfl rfl hgive, parseArguments,
      Grammar.readFrom_longSwitches rfl hrepeats]
    rfl

/-- A switch which takes its value once and is no `root` has none in the arguments of `parse`. -/
theorem value?_parseValues {name : String} (hname : name ∉ ["param", "sort", "direction"])
    (hroot : name = "root" → root = none) :
    Reading.value? { values := parseValues root entries sort direction } name = none := by
  rw [Reading.value?, List.lookup_eq_none_iff]
  intro pair hpair
  rw [bne_iff_ne]
  rintro rfl
  rcases name_of_mem_parseValues hpair with hmem | ⟨heq, hsome⟩
  · exact hname hmem
  · exact hsome (hroot heq)

@[simp] theorem value?_root_parseValues :
    Reading.value? { values := parseValues root entries sort direction } "root" = root := by
  cases root with
  | none => exact value?_parseValues none entries sort direction (by simp) fun _ => rfl
  | some root => rfl

/-- **The arguments of `parse` ask for what they are made of.** -/
theorem actionRead_parseArguments :
    Action.read "parse" (parseArguments root entries sort direction) =
      .ok ({ values := parseValues root entries sort direction },
        .parse root entries sort direction) := by
  have hparam : Reading.allValues { values := parseValues root entries sort direction } "param" =
      entries := by
    simp [parseValues]
  have hsort : Reading.allValues { values := parseValues root entries sort direction } "sort" =
      sort := by
    simp [parseValues]
  have hdirection : Reading.allValues { values := parseValues root entries sort direction }
      "direction" = direction := by
    simp [parseValues]
  simp only [Action.read, readBehind, read_parseArguments]
  show Except.ok (_, Action.parse _ _ _ _) = _
  rw [value?_root_parseValues, hparam, hsort, hdirection]

end

/-! ### Whole command lines -/

/-- The settings which stand before an action, and those of the environment. -/
def outerSettings (environment : String → Option String) (outer : Reading) :
    Except Stop Settings := do
  return {
    schema := ← settingOr (environment "PARAMQL_SCHEMA") (outer.value? "schema") none
    config := ← settingOr (environment "PARAMQL_CONFIG") (outer.value? "config") none
    format := ((outer.value? "format").bind Format.ofName?).getD .text
    theme := ((outer.value? "theme").bind Theme.ofName?).getD .auto }

/-- **What stands before `parse` and its arguments make the invocation together.** -/
theorem invocationRead_parse (environment : String → Option String) {before : List String}
    {outer : Reading} (h : topGrammar.read (before ++ ["parse"]) = .ok (outer, some ("parse", [])))
    (root : Option String) (entries sort direction : List String) :
    Invocation.read environment
        (before ++ "parse" :: parseArguments root entries sort direction) =
      (outerSettings environment outer).map fun settings =>
        ⟨settings, .parse root entries sort direction⟩ := by
  have htop : topGrammar.read (before ++ "parse" :: parseArguments root entries sort direction) =
      .ok (outer, some ("parse", parseArguments root entries sort direction)) := by
    rw [← List.singleton_append, ← List.append_assoc]
    exact Grammar.readFrom_append _ h
  have hnone (name : String) (hname : name ∈ ["schema", "config", "format", "theme"]) :
      Reading.value? { values := parseValues root entries sort direction } name = none := by
    simp only [List.mem_cons, List.not_mem_nil, or_false] at hname
    rcases hname with rfl | rfl | rfl | rfl <;>
      exact value?_parseValues root entries sort direction (by simp) (by simp)
  have hschema := hnone "schema" (by simp)
  have hconfig := hnone "config" (by simp)
  have hformat := hnone "format" (by simp)
  have htheme := hnone "theme" (by simp)
  rw [Invocation.read, htop]
  show (Action.read "parse" _ >>= _) = _
  rw [actionRead_parseArguments]
  show (settingOr _ _ (Reading.value? _ _) >>= _) = _
  simp only [hschema, hconfig, hformat, htheme, Option.none_or]
  unfold outerSettings
  cases settingOr (environment "PARAMQL_SCHEMA") (outer.value? "schema") none with
  | error stop => rfl
  | ok schema =>
    cases settingOr (environment "PARAMQL_CONFIG") (outer.value? "config") none with
    | error stop => rfl
    | ok config => rfl

/-! ### Answers -/

section

variable {host : Host Id}

theorem reportOn_flagEntries {config : Config} (hsort : Assignable config.conventions.sortKey)
    (hdirection : Assignable config.conventions.directionKey) (catalog : Except Fault Catalog)
    (root : Option String) (entries sort direction : List String) :
    reportOn catalog config (.parse root entries sort direction) =
      reportOn catalog config
        (.parse root (entries ++ flagEntries config.conventions sort direction) [] []) := by
  simp only [reportOn, ← buildParams_flagEntries hsort hdirection]

/-- The conventions of the configuration under which a command line runs, if it comes to one. -/
def RunsUnder (host : Host Id) (args : List String) (conventions : Conventions) : Prop :=
  ∀ i, Invocation.read host.environment args = .ok i →
    ∀ config, Config.load host i.settings.config = .ok config → config.conventions = conventions

variable {conventions : Conventions} (hsort : Assignable conventions.sortKey)
  (hdirection : Assignable conventions.directionKey) {entries sort direction : List String}

include hsort hdirection

/-- **Two command lines have the same answer** when they ask for the same settings, and one of them
for the entries which the flags of the other stand for. -/
theorem answer_eq_of_read {args args' : List String} {settings : Settings} {root : Option String}
    (h : Invocation.read host.environment args = .ok ⟨settings, .parse root entries sort direction⟩)
    (h' : Invocation.read host.environment args' = .ok ⟨settings,
      .parse root (entries ++ flagEntries conventions sort direction) [] []⟩)
    (hunder : RunsUnder host args conventions) : answer host args = answer host args' := by
  have hrun : Invocation.run host ⟨settings, .parse root entries sort direction⟩ =
      Invocation.run host ⟨settings,
        .parse root (entries ++ flagEntries conventions sort direction) [] []⟩ := by
    simp only [Invocation.run, Action.needsCatalog, if_true]
    cases hload : Config.load host settings.config with
    | error f => rfl
    | ok config =>
      cases hunder _ h config hload
      exact reportOn_flagEntries hsort hdirection (loadCatalog host settings.schema config) root
        entries sort direction
  rw [answer, answer, h, h']
  show (_ >>= _) = (_ >>= _)
  rw [hrun]

/-- The flags of a command line may be written as entries. -/
theorem answer_parseArguments {before : List String} {outer : Reading}
    (h : topGrammar.read (before ++ ["parse"]) = .ok (outer, some ("parse", [])))
    {root : Option String}
    (hunder : RunsUnder host (before ++ "parse" :: parseArguments root entries sort direction)
      conventions) :
    answer host (before ++ "parse" :: parseArguments root entries sort direction) =
      answer host (before ++ "parse" ::
        parseArguments root (entries ++ flagEntries conventions sort direction) [] []) := by
  have hread := invocationRead_parse host.environment h root
  cases hsettings : outerSettings host.environment outer with
  | error stop => rw [answer, answer, hread, hread, hsettings]; rfl
  | ok settings =>
    rw [hsettings] at hread
    exact answer_eq_of_read hsort hdirection (hread _ _ _) (hread _ _ _) hunder

end

/-- **Assignments carry all parameters, and the flags are assignments.** Parameters whose names can
be assigned to are read back from their values, each of them written as an assignment. Sort values
and directions are assignments behind the entries: the same parameters or the same fault comes of
both, and so does the same answer, of all command lines which ask for them and of those which write
each of them with its switch. Only an entry without an equals sign or with nothing before it is
refused, and the first one of these is the fault. -/
theorem entries_carry_parameters (conventions : Conventions) :
    (∀ appended, let p := Params.ofList appended
      (∀ entry ∈ p.entries, Assignable entry.1) →
        buildParams conventions (p.pairs.map fun pair => assignment pair.1 pair.2) [] [] = .ok p) ∧
    (Assignable conventions.sortKey → Assignable conventions.directionKey →
      ∀ entries sort direction,
        let written := entries ++ (sort.map (assignment conventions.sortKey) ++
          direction.map (assignment conventions.directionKey))
        buildParams conventions entries sort direction = buildParams conventions written [] [] ∧
        (∀ host args args' settings root,
          Invocation.read host.environment args =
            .ok ⟨settings, .parse root entries sort direction⟩ →
          Invocation.read host.environment args' = .ok ⟨settings, .parse root written [] []⟩ →
          RunsUnder host args conventions → answer host args = answer host args') ∧
        ∀ host before outer root,
          let line := before ++ "parse" :: parseArguments root entries sort direction
          topGrammar.read (before ++ ["parse"]) = .ok (outer, some ("parse", [])) →
          RunsUnder host line conventions →
          answer host line = answer host (before ++ "parse" :: parseArguments root written [] [])) ∧
    ∀ entries sort direction,
      (∀ f, buildParams conventions entries sort direction = .error f ↔
        FirstFault ReadsEntry entries f) ∧
      ((∃ f, buildParams conventions entries sort direction = .error f) ↔
        ∃ entry ∈ entries, '=' ∉ entry.toList ∨ entry.toList.head? = some '=') := by
  refine ⟨?written, ?flags, ?faults⟩
  case written =>
    intro appended p hnames
    exact buildParams_assignments (Params.grouped_ofList appended) hnames
  case flags =>
    intro hsort hdirection entries sort direction written
    refine ⟨buildParams_flagEntries hsort hdirection entries sort direction, ?_, ?_⟩
    · intro host args args' settings root h h' hunder
      exact answer_eq_of_read hsort hdirection h h' hunder
    · intro host before outer root line h hunder
      exact answer_parseArguments hsort hdirection h hunder
  case faults =>
    intro entries sort direction
    refine ⟨fun f => buildParams_eq_error_iff, ?_⟩
    rw [exists_buildParams_eq_error_iff]
    simp only [exists_error_iff]

/-- A host with a configuration, in which one name asks for fields and directions, and the schema
document which the configuration names. -/
def sampleHost : Host Id where
  environment := fun _ => none
  terminal := false
  fetch := fun location =>
    if location = "paramql.toml" then
      .ok ("[schema]\npath = \"schema.toml\"\n" ++
        "[parser]\nsort_key = \"order\"\ndirection_key = \"order\"\n")
    else if location = "schema.toml" then
      .ok ("[schemas.Resource]\nid = \"integer\"\nname = \"text\"\n" ++
        "asc = \"date\"\ndesc = \"date\"\n")
    else .error .notFound

/-- The law at values with comparisons, and where one name asks for fields and directions: each of
the words `asc` and `desc` is an attribute as well as a direction. -/
theorem entries_carry_parameters_one_name :
    let conventions : Conventions := { sortKey := "order", directionKey := "order" }
    let p := Params.ofList [("id", "=1"), ("name", "a=b"), ("id", ">=2")]
    let settings : Settings := ⟨none, some "paramql.toml", .text, .auto⟩
    let entries := ["id=>=1", "name==a=b"]
    let before := ["--config", "paramql.toml"]
    let line := before ++ ["parse", "--root=Resource", "--param=id=>=1", "--param=name==a=b",
      "--sort=desc", "--direction=asc"]
    let args := before ++ ["parse", "-p", "id=>=1", "--sort=desc", "-pname==a=b", "--direction",
      "asc", "--root", "Resource"]
    let args' := before ++ ["parse", "--root", "Resource", "-p", "id=>=1", "-pname==a=b",
      "-porder=desc", "-p=order=asc"]
    let report : Answer :=
      ⟨0, "Predicates\n  id >= 1\n  name == a=b\nOrders\n  desc DESC\n  asc ASC\n", ""⟩
    buildParams conventions ["id==1", "id=>=2", "name=a=b"] [] [] = .ok p ∧
    buildParams conventions entries ["desc"] ["asc"] =
      buildParams conventions (entries ++ ["order=desc", "order=asc"]) [] [] ∧
    (RunsUnder sampleHost line conventions ∧ Id.run (answer sampleHost line) = report ∧
      answer sampleHost line = answer sampleHost
        (before ++ ["parse", "--root=Resource", "--param=id=>=1", "--param=name==a=b",
          "--param=order=desc", "--param=order=asc"])) ∧
    (Invocation.read sampleHost.environment args =
        .ok ⟨settings, .parse (some "Resource") entries ["desc"] ["asc"]⟩ ∧
      Id.run (answer sampleHost args') = report ∧
      answer sampleHost args = answer sampleHost args') ∧
    buildParams conventions ["id=1", "name", "=2"] ["id"] [] =
      .error (.parameterWithoutValue "name") := by
  intro conventions p settings entries before line args args' report
  have horder : Assignable "order" := ⟨by simp, by simp⟩
  have hload : Id.run (Config.load sampleHost (some "paramql.toml")) =
      .ok ⟨"paramql.toml", some "schema.toml", none, conventions⟩ := by
    decide +kernel
  have hunder (args : List String) (action : Action)
      (h : Invocation.read sampleHost.environment args = .ok ⟨settings, action⟩) :
      RunsUnder sampleHost args conventions := by
    intro i hi config hconfig
    rw [h] at hi
    cases hi
    have heq := hload.symm.trans hconfig
    cases heq
    rfl
  have hnames : ∀ entry ∈ p.entries, Assignable entry.1 := by
    have hentries : p.entries = [("id", ["=1", ">=2"]), ("name", ["a=b"])] := by decide
    rw [hentries]
    simp only [List.forall_mem_cons, List.not_mem_nil, false_imp_iff, forall_const, and_true]
    exact ⟨⟨by simp, by simp⟩, ⟨by simp, by simp⟩⟩
  have hline : Invocation.read sampleHost.environment line =
      .ok ⟨settings, .parse (some "Resource") entries ["desc"] ["asc"]⟩ :=
    rfl
  have hargs : Invocation.read sampleHost.environment args =
      .ok ⟨settings, .parse (some "Resource") entries ["desc"] ["asc"]⟩ :=
    rfl
  have hargs' : Invocation.read sampleHost.environment args' =
      .ok ⟨settings, .parse (some "Resource") (entries ++ ["order=desc", "order=asc"]) [] []⟩ :=
    rfl
  have hreport : Id.run (answer sampleHost line) = report := by
    decide +kernel
  have hsame : answer sampleHost args = answer sampleHost line := by
    rw [answer, answer, hargs, hline]
  obtain ⟨hwritten, hflags, hfaults⟩ := entries_carry_parameters conventions
  obtain ⟨hbuild, hread, hanswer⟩ := hflags horder horder entries ["desc"] ["asc"]
  have hcommand : topGrammar.read (before ++ ["parse"]) =
      .ok ({ values := [("config", "paramql.toml")] }, some ("parse", [])) :=
    rfl
  have hargs_eq : answer sampleHost args = answer sampleHost args' :=
    hread sampleHost args args' settings _ hargs hargs' (hunder args _ hargs)
  refine ⟨?_, hbuild, ⟨hunder line _ hline, hreport, ?_⟩, ⟨hargs, ?_, hargs_eq⟩, ?_⟩
  · exact hwritten [("id", "=1"), ("name", "a=b"), ("id", ">=2")] hnames
  · exact hanswer sampleHost before _ (some "Resource") hcommand (hunder line _ hline)
  · rw [← hargs_eq, hsame, hreport]
  · refine ((hfaults ["id=1", "name", "=2"] ["id"] []).1 _).mpr ?_
    refine ⟨["id=1"], "name", ["=2"], rfl, ?_, .withoutValue (by simp)⟩
    intro entry hentry
    rw [List.mem_singleton.mp hentry]
    exact ⟨("id", "1"), readEntry_eq_iff.mp rfl⟩

end QueryFilter.Command
