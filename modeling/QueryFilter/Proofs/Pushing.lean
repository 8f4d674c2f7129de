import QueryFilter.Proofs.Answer

/-!
# Lists of predicates which grow

A list of predicates grows by one parameter after the other. Each of them is put behind the list as
a whole or not at all: `Predicate.push` gives the list back as it was when a parameter is refused,

    push lookup root out name raws = extend out (ofParameter lookup root name raws).

That this is no matter of definition is seen on a list which is changed in place. A `Building`
writes to the list while it goes on, and what it wrote before a fault stays there. `pushInPlace` is
a building which resolves the path, reads the values and writes where the branches of a parameter
write, and `run_pushInPlace` says that it leaves behind what `push` gives back. `buildInPlace` goes
through several parameters in this way and stops at the first fault, and `run_buildInPlace` says
that it comes to `ofParameters`.

`pushAll` goes on after a fault. Step by step its list is the one before with what `ofParameters`
makes of one more accepted parameter behind it, so that at the end the refused parameters have left
no trace (`pushes_atomic`).
-/

namespace QueryFilter

/-! ### Lists which are changed in place -/

/-- A computation which writes to the end of a list of predicates and may stop with a fault. What it
wrote before the fault stays. -/
abbrev Building := ExceptT QueryFault (StateM (List Predicate))

namespace Building

/-- What a building leaves of a list, and how it ends. -/
def run (b : Building Unit) (out : List Predicate) : List Predicate × Except QueryFault Unit :=
  (StateT.run (ExceptT.run b) out).swap

/-- The list which a building makes out of nothing, if it comes to its end. -/
def result (b : Building Unit) : Except QueryFault (List Predicate) :=
  (run b []).2.map fun _ => (run b []).1

/-- Predicates written to the end of the list. -/
def add (ps : List Predicate) : Building Unit := modify fun out => out ++ ps

@[simp] theorem run_add (ps out : List Predicate) : run (add ps) out = (out ++ ps, .ok ()) := rfl

@[simp] theorem run_ok_bind {α : Type} (a : α) (next : α → Building Unit) (out : List Predicate) :
    run (liftM (Except.ok a : Except QueryFault α) >>= next) out = run (next a) out := rfl

@[simp] theorem run_error_bind {α : Type} (f : QueryFault) (next : α → Building Unit)
    (out : List Predicate) :
    run (liftM (Except.error f : Except QueryFault α) >>= next) out = (out, .error f) := rfl

theorem run_bind_of_ok {b : Building Unit} {out out' : List Predicate}
    (h : run b out = (out', .ok ())) (next : Unit → Building Unit) :
    run (b >>= next) out = run (next ()) out' := by
  have hb : StateT.run (ExceptT.run b) out = (.ok (), out') := congrArg Prod.swap h
  show (StateT.run (ExceptT.run (b >>= next)) out).swap = _
  rw [ExceptT.run_bind, StateT.run_bind, hb]
  rfl

theorem run_bind_of_error {b : Building Unit} {out out' : List Predicate} {f : QueryFault}
    (h : run b out = (out', .error f)) (next : Unit → Building Unit) :
    run (b >>= next) out = (out', .error f) := by
  have hb : StateT.run (ExceptT.run b) out = (.error f, out') := congrArg Prod.swap h
  show (StateT.run (ExceptT.run (b >>= next)) out).swap = _
  rw [ExceptT.run_bind, StateT.run_bind, hb]
  rfl

end Building

namespace Predicate

/-- The predicates of one parameter, written to the end of a list where they are made. -/
def pushInPlace (lookup : Lookup) (root name : String) (raws : List String) : Building Unit :=
  if raws = [] then pure ()
  else do
    let key := FilterKey.read name
    let chain ← liftM (Path.resolve lookup root key.path)
    if key.independent then
      let built ← liftM (raws.mapM (ofRaw chain))
      Building.add built
    else
      match raws with
      | [raw] => do
        let p ← liftM (ofRaw chain raw)
        Building.add [p]
      | _ => do
        let p ← liftM (ofMembers chain raws)
        Building.add [p]

/-- The predicates of several parameters, written to the end of a list one after the other up to the
first fault. -/
def buildInPlace (lookup : Lookup) (root : String) :
    List (String × List String) → Building Unit
  | [] => pure ()
  | (name, raws) :: rest => do
    pushInPlace lookup root name raws
    buildInPlace lookup root rest

/-! ### One parameter -/

variable (lookup : Lookup) (root : String)

/-- **A list changed in place is left as `push` gives it back**, in every branch and at every
fault. -/
theorem run_pushInPlace (out : List Predicate) (name : String) (raws : List String) :
    (pushInPlace lookup root name raws).run out = push lookup root out name raws := by
  rw [push_eq_extend]
  by_cases hraws : raws = []
  · rw [pushInPlace, if_pos hraws, ofParameter, if_pos hraws, extend, List.append_nil]
    rfl
  obtain ⟨path, independent, hkey⟩ : ∃ path independent,
      FilterKey.read name = ⟨path, independent⟩ := ⟨_, _, rfl⟩
  rw [pushInPlace, if_neg hraws]
  cases hchain : Path.resolve lookup root path with
  | error f =>
    simp only [hkey, hchain]
    rw [ofParameter_of_error hraws hkey hchain]
    exact Building.run_error_bind f _ out
  | ok chain =>
    simp only [hkey, hchain]
    rw [Building.run_ok_bind]
    cases independent with
    | true =>
      rw [ofParameter_of_independent hraws hkey hchain, if_pos rfl]
      cases raws.mapM (ofRaw chain) with
      | error f => simp
      | ok ps => simp
    | false =>
      rw [if_neg Bool.false_ne_true]
      obtain ⟨raw, rest, rfl⟩ := List.exists_cons_of_ne_nil hraws
      cases rest with
      | nil =>
        rw [ofParameter_of_single hkey hchain]
        show (liftM (ofRaw chain raw) >>= fun p => Building.add [p]).run out = _
        cases ofRaw chain raw with
        | error f => simp
        | ok p => simp
      | cons other rest =>
        rw [ofParameter_of_members (by simp) hkey hchain]
        cases ofMembers chain (raw :: other :: rest) with
        | error f => simp
        | ok p => simp

/-! ### Several parameters -/

theorem ofParameters_cons (name : String) (raws : List String)
    (rest : List (String × List String)) :
    ofParameters lookup root ((name, raws) :: rest) = (do
      let ps ← ofParameter lookup root name raws
      let qs ← ofParameters lookup root rest
      return ps ++ qs) := by
  simp only [ofParameters, List.mapM_cons, bind_assoc, pure_bind, List.flatten_cons]

/-- **Several parameters in place come to `ofParameters`**, on whatever list they start. -/
theorem run_buildInPlace (entries : List (String × List String)) (out : List Predicate) :
    ((buildInPlace lookup root entries).run out).2.map
        (fun _ => ((buildInPlace lookup root entries).run out).1) =
      (ofParameters lookup root entries).map fun ps => out ++ ps := by
  induction entries generalizing out with
  | nil => exact congrArg Except.ok (List.append_nil out).symm
  | cons entry rest ih =>
    obtain ⟨name, raws⟩ := entry
    have hrun := run_pushInPlace lookup root out name raws
    rw [push_eq_extend] at hrun
    rw [ofParameters_cons, buildInPlace]
    cases h : ofParameter lookup root name raws with
    | error f =>
      rw [h] at hrun
      rw [Building.run_bind_of_error hrun]
      rfl
    | ok ps =>
      rw [h] at hrun
      rw [Building.run_bind_of_ok hrun, ih]
      show _ = (ofParameters lookup root rest >>= fun qs => Except.ok (ps ++ qs)).map _
      cases ofParameters lookup root rest with
      | error f => rfl
      | ok qs => exact congrArg Except.ok (List.append_assoc out ps qs)

@[simp] theorem result_buildInPlace (entries : List (String × List String)) :
    (buildInPlace lookup root entries).result = ofParameters lookup root entries := by
  rw [Building.result, run_buildInPlace]
  cases ofParameters lookup root entries <;> rfl

variable {lookup root}

theorem push_snd_eq_ok_iff {out : List Predicate} {name : String} {raws : List String} :
    (push lookup root out name raws).2 = .ok () ↔
      ∃ ps, ofParameter lookup root name raws = .ok ps := by
  rw [push_eq_extend]
  cases ofParameter lookup root name raws <;> simp

theorem push_snd_eq_error_iff {out : List Predicate} {name : String} {raws : List String}
    {f : QueryFault} :
    (push lookup root out name raws).2 = .error f ↔
      ofParameter lookup root name raws = .error f := by
  rw [push_eq_extend]
  cases ofParameter lookup root name raws <;> simp

/-- Several parameters make predicates exactly when each of them does. -/
theorem exists_ofParameters_eq_ok_iff (out : List Predicate)
    {entries : List (String × List String)} :
    (∃ ps, ofParameters lookup root entries = .ok ps) ↔
      ∀ e ∈ entries, (push lookup root out e.1 e.2).2 = .ok () := by
  induction entries with
  | nil => exact ⟨fun _ e he => absurd he List.not_mem_nil, fun _ => ⟨[], rfl⟩⟩
  | cons entry rest ih =>
    obtain ⟨name, raws⟩ := entry
    rw [List.forall_mem_cons, ← ih, push_snd_eq_ok_iff, ofParameters_cons]
    constructor
    · rintro ⟨_, h⟩
      obtain ⟨ps, hps, h⟩ := bind_eq_ok_iff.mp h
      obtain ⟨qs, hqs, -⟩ := bind_eq_ok_iff.mp h
      exact ⟨⟨ps, hps⟩, qs, hqs⟩
    · rintro ⟨⟨ps, hps⟩, qs, hqs⟩
      exact ⟨ps ++ qs, by rw [hps, hqs]; rfl⟩

/-- Several parameters are refused for the fault of the first one which is. -/
theorem ofParameters_eq_error_iff (out : List Predicate) {entries : List (String × List String)}
    {f : QueryFault} :
    ofParameters lookup root entries = .error f ↔
      FirstFault (fun e r => (push lookup root out e.1 e.2).2 = r) entries f := by
  induction entries with
  | nil =>
    constructor
    · intro h; cases h
    · intro h; exact absurd h not_firstFault_nil
  | cons entry rest ih =>
    obtain ⟨name, raws⟩ := entry
    rw [firstFault_cons, ← ih, push_snd_eq_error_iff, ofParameters_cons, bind_eq_error_iff]
    refine or_congr_right ?_
    constructor
    · rintro ⟨ps, hps, h⟩
      refine ⟨(), push_snd_eq_ok_iff.mpr ⟨ps, hps⟩, ?_⟩
      rcases bind_eq_error_iff.mp h with h | ⟨_, -, h⟩
      · exact h
      · cases h
    · rintro ⟨_, hok, h⟩
      obtain ⟨ps, hps⟩ := push_snd_eq_ok_iff.mp hok
      exact ⟨ps, hps, bind_eq_error_iff.mpr (Or.inl h)⟩

/-! ### Runs which go on after a fault -/

/-- Several parameters pushed onto one list one after the other, whether or not those before were
accepted, with the answers to all of them. -/
def pushAll (lookup : Lookup) (root : String) (out : List Predicate) :
    List (String × List String) → List Predicate × List (Except QueryFault Unit)
  | [] => (out, [])
  | (name, raws) :: rest =>
    let call := push lookup root out name raws
    let later := pushAll lookup root call.1 rest
    (later.1, call.2 :: later.2)

/-- The parameters to which the answer is no fault. -/
def accepted (entries : List (String × List String)) (answers : List (Except QueryFault Unit)) :
    List (String × List String) :=
  ((entries.zip answers).filter fun call => call.2.isOk).map Prod.fst

theorem pushAll_cons_of_ok {out : List Predicate} {name : String} {raws : List String}
    {ps : List Predicate} (h : ofParameter lookup root name raws = .ok ps)
    (rest : List (String × List String)) :
    pushAll lookup root out ((name, raws) :: rest) =
      ((pushAll lookup root (out ++ ps) rest).1,
        .ok () :: (pushAll lookup root (out ++ ps) rest).2) := by
  rw [pushAll, push_eq_extend, h, extend]

theorem pushAll_cons_of_error {out : List Predicate} {name : String} {raws : List String}
    {f : QueryFault} (h : ofParameter lookup root name raws = .error f)
    (rest : List (String × List String)) :
    pushAll lookup root out ((name, raws) :: rest) =
      ((pushAll lookup root out rest).1, .error f :: (pushAll lookup root out rest).2) := by
  rw [pushAll, push_eq_extend, h, extend]

/-- **A run leaves the predicates of the accepted parameters**, behind what was there before. -/
theorem exists_pushAll (entries : List (String × List String)) (out : List Predicate) :
    ∃ ps, ofParameters lookup root (accepted entries (pushAll lookup root out entries).2) = .ok ps ∧
      (pushAll lookup root out entries).1 = out ++ ps := by
  induction entries generalizing out with
  | nil => exact ⟨[], rfl, (List.append_nil out).symm⟩
  | cons entry rest ih =>
    obtain ⟨name, raws⟩ := entry
    cases h : ofParameter lookup root name raws with
    | error f =>
      rw [pushAll_cons_of_error h]
      exact ih out
    | ok ps =>
      rw [pushAll_cons_of_ok h]
      obtain ⟨qs, hqs, hout⟩ := ih (out ++ ps)
      refine ⟨ps ++ qs, ?_, ?_⟩
      · show ofParameters lookup root ((name, raws) :: accepted rest _) = _
        rw [ofParameters_cons, h, hqs]
        rfl
      · rw [hout, List.append_assoc]

/-- **Pushing is atomic.** A refused parameter leaves the list as it was, also when the list is
changed in place, and an accepted one leaves it as the beginning of the new list. After any run the
list is the old one with the predicates of the accepted parameters behind it, as they are made
together. And parameters make predicates together exactly when each of them is accepted; otherwise
the fault is that of the first one which is refused. -/
theorem pushes_atomic (lookup : Lookup) (root : String) :
    (∀ out name raws,
      (pushInPlace lookup root name raws).run out = push lookup root out name raws) ∧
    (∀ out name raws out' f, push lookup root out name raws = (out', .error f) → out' = out) ∧
    (∀ out name raws out', push lookup root out name raws = (out', .ok ()) → out <+: out') ∧
    (∀ out entries, ∃ ps,
      ofParameters lookup root (accepted entries (pushAll lookup root out entries).2) = .ok ps ∧
      (pushAll lookup root out entries).1 = out ++ ps) ∧
    (∀ entries, (buildInPlace lookup root entries).result = ofParameters lookup root entries) ∧
    ∀ out entries,
      ((∃ ps, ofParameters lookup root entries = .ok ps) ↔
        ∀ e ∈ entries, (push lookup root out e.1 e.2).2 = .ok ()) ∧
      ∀ f, ofParameters lookup root entries = .error f ↔
        FirstFault (fun e r => (push lookup root out e.1 e.2).2 = r) entries f := by
  refine ⟨run_pushInPlace lookup root, ?_, ?_, fun out entries => exists_pushAll entries out,
    result_buildInPlace lookup root, fun out entries => ⟨?_, fun f => ?_⟩⟩
  · intro out name raws out' f h
    exact (push_eq_error_iff.mp h).2
  · intro out name raws out' h
    obtain ⟨ps, -, rfl⟩ := push_eq_ok_iff.mp h
    exact List.prefix_append out ps
  · exact exists_ofParameters_eq_ok_iff out
  · exact ofParameters_eq_error_iff out

/-- The law at a list with one predicate and a run of four parameters, of which the second and the
fourth are refused behind their first values. -/
theorem pushes_atomic_mixed :
    let id : Attribute := ⟨"id", .identifier true, none⟩
    let name : Attribute := ⟨"name", .text, none⟩
    let isNull : Predicate := ⟨[id], .null, .absent⟩
    let isA : Predicate := ⟨[name], .equal, .single (.text "a")⟩
    let isOneOf : Predicate := ⟨[id], .oneOf, .many [.integer 1, .integer 2]⟩
    let marker : QueryFault := .coercion "∅" .identifier
    let word : QueryFault := .coercion "x" .identifier
    let entries := [("name", ["a"]), ("id", ["1", "∅"]), ("id", ["1", ">2"]), ("id[]", ["1", "x"])]
    let resolve := Catalog.sample.resolve
    (push resolve "Resource" [isNull] "id[]" ["1", "x"] = ([isNull], .error word) ∧
      (push resolve "Resource" [isNull] "id[]" ["1", "x"]).1 = [isNull] ∧
      (pushInPlace resolve "Resource" "id[]" ["1", "x"]).run [isNull] = ([isNull], .error word)) ∧
    (push resolve "Resource" [isNull] "name" ["a"] = ([isNull, isA], .ok ()) ∧
      [isNull] <+: [isNull, isA]) ∧
    (accepted entries [.ok (), .error marker, .ok (), .error word] =
        [("name", ["a"]), ("id", ["1", ">2"])] ∧
      ∃ ps, ofParameters resolve "Resource" [("name", ["a"]), ("id", ["1", ">2"])] = .ok ps ∧
        pushAll resolve "Resource" [isNull] entries =
          ([isNull] ++ ps, [.ok (), .error marker, .ok (), .error word]) ∧
        ps = [isA, isOneOf]) ∧
    ((push resolve "Resource" [] "id" ["1", "∅"]).2 = .error marker ∧
      ofParameters resolve "Resource" entries = .error marker) := by
  intro id name isNull isA isOneOf marker word entries resolve
  obtain ⟨hplace, hrefuses, hprefix, hrun, -, hall⟩ := pushes_atomic resolve "Resource"
  have hrefused : push resolve "Resource" [isNull] "id[]" ["1", "x"] = ([isNull], .error word) := rfl
  have haccepted : push resolve "Resource" [isNull] "name" ["a"] = ([isNull, isA], .ok ()) := rfl
  have hmarker : (push resolve "Resource" [] "id" ["1", "∅"]).2 = .error marker := rfl
  have hname : (push resolve "Resource" [] "name" ["a"]).2 = .ok () := rfl
  refine ⟨⟨hrefused, hrefuses _ _ _ _ _ hrefused, (hplace _ _ _).trans hrefused⟩,
    ⟨haccepted, hprefix _ _ _ _ haccepted⟩, ⟨rfl, ?_⟩, hmarker, ?_⟩
  · obtain ⟨ps, hps, hlist⟩ := hrun [isNull] entries
    have hpair : ps = [isA, isOneOf] := (Except.ok.inj hps).symm
    refine ⟨ps, hps, ?_, hpair⟩
    rw [← hlist]
    rfl
  · rw [(hall [] entries).2]
    refine ⟨[("name", ["a"])], _, _, rfl, fun y hy => ?_, hmarker⟩
    rw [List.mem_singleton.mp hy]
    exact ⟨(), hname⟩

end Predicate

end QueryFilter
