import Mathlib.Tactic.SplitIfs
import QueryFilter.Json
import QueryFilter.Proofs.Double

/-!
# JSON texts can be read in one way only

The compact text of a value determines it (`eq_of_compact_eq`), if all its doubles are finite:
these are the `Representable` values, and a double which is not has the text `null`.

Texts stand behind each other inside lists and records, so the statement to prove is about a text
with more behind it,

    writeCompact d ++ rest = writeCompact d' ++ rest'.

Then the two values are equal and so are the rests, as long as a rest `Ends` the value before it.
This condition is there for numbers, whose texts could go on. Whatever else a value is, its first
character tells (`lead?_eq`), and its text has an end of its own.
-/

namespace QueryFilter.Json

/-! ### Texts between quotes -/

/-- The characters which are written as a backslash and a letter, with their letters. -/
def letters : List (Char × Char) :=
  [('\x22', '\x22'), ('\\', '\\'), ('\x08', 'b'), ('\x0c', 'f'), ('\n', 'n'), ('\r', 'r'),
    ('\t', 't')]

/-- The ways to write a character between quotes. -/
inductive Escaped (c : Char) : List Char → Prop
  | letter {l : Char} : (c, l) ∈ letters → Escaped c ['\\', l]
  | code : c.toNat < 0x20 →
      Escaped c ['\\', 'u', '0', '0', hexDigit (c.toNat / 16), hexDigit (c.toNat % 16)]
  | plain : c ≠ '\x22' → c ≠ '\\' → Escaped c [c]

theorem escaped_escape (c : Char) : Escaped c (escape c) := by
  unfold escape
  split_ifs with hquote hbackslash hb hf hn hr ht hcode
  · subst hquote; exact .letter (by decide)
  · subst hbackslash; exact .letter (by decide)
  · subst hb; exact .letter (by decide)
  · subst hf; exact .letter (by decide)
  · subst hn; exact .letter (by decide)
  · subst hr; exact .letter (by decide)
  · subst ht; exact .letter (by decide)
  · exact .code hcode
  · exact .plain hquote hbackslash

theorem hexDigit_inj {m n : Nat} (hm : m < 16) (hn : n < 16) (h : hexDigit m = hexDigit n) :
    m = n := by
  have hall : ∀ a < 16, ∀ b < 16, hexDigit a = hexDigit b → a = b := by decide
  exact hall m hm n hn h

/-- **A written character ends by itself**: what follows does not change how it is read. -/
theorem Escaped.append_inj {c c' : Char} {t t' rest rest' : List Char} (h : Escaped c t)
    (h' : Escaped c' t') (heq : t ++ rest = t' ++ rest') : c = c' ∧ rest = rest' := by
  have hletters : ∀ p ∈ letters, ∀ p' ∈ letters, p.2 = p'.2 → p.1 = p'.1 := by decide
  have hcode : ∀ p ∈ letters, p.2 ≠ 'u' := by decide
  cases h with
  | letter hl =>
    cases h' with
    | letter hl' =>
      cases heq
      exact ⟨hletters _ hl _ hl' rfl, rfl⟩
    | code _ => cases heq; exact absurd rfl (hcode _ hl)
    | plain _ hbackslash => cases heq; exact absurd rfl hbackslash
  | code hc =>
    cases h' with
    | letter hl' => cases heq; exact absurd rfl (hcode _ hl')
    | code hc' =>
      simp only [List.cons_append, List.nil_append, List.cons.injEq, true_and] at heq
      obtain ⟨hhigh, hlow, hrest⟩ := heq
      have hquotient := hexDigit_inj (by omega) (by omega) hhigh
      have hremainder := hexDigit_inj (by omega) (by omega) hlow
      exact ⟨Char.toNat_inj.mp (by omega), hrest⟩
    | plain _ hbackslash => cases heq; exact absurd rfl hbackslash
  | plain hquote hbackslash =>
    cases h' with
    | letter _ => cases heq; exact absurd rfl hbackslash
    | code _ => cases heq; exact absurd rfl hbackslash
    | plain _ _ => cases heq; exact ⟨rfl, rfl⟩

/-- A quote is not how a written character starts, so it ends a text. -/
theorem Escaped.ne_quote {c : Char} {t : List Char} (h : Escaped c t) (rest rest' : List Char) :
    '\x22' :: rest ≠ t ++ rest' := by
  intro heq
  cases h with
  | letter _ => cases heq
  | code _ => cases heq
  | plain hquote _ => cases heq; exact hquote rfl

theorem flatMap_escape_append_inj {cs : List Char} : ∀ {cs' rest rest' : List Char},
    cs.flatMap escape ++ '\x22' :: rest = cs'.flatMap escape ++ '\x22' :: rest' →
      cs = cs' ∧ rest = rest' := by
  induction cs with
  | nil =>
    intro cs' rest rest' h
    cases cs' with
    | nil => cases h; exact ⟨rfl, rfl⟩
    | cons c' cs' =>
      rw [List.flatMap_cons, List.append_assoc] at h
      exact absurd h ((escaped_escape c').ne_quote _ _)
  | cons c cs ih =>
    intro cs' rest rest' h
    rw [List.flatMap_cons, List.append_assoc] at h
    cases cs' with
    | nil => exact absurd h.symm ((escaped_escape c).ne_quote _ _)
    | cons c' cs' =>
      rw [List.flatMap_cons, List.append_assoc] at h
      obtain ⟨rfl, htail⟩ := (escaped_escape c).append_inj (escaped_escape c') h
      obtain ⟨rfl, hrest⟩ := ih htail
      exact ⟨rfl, hrest⟩

/-- **A text between quotes ends by itself.** -/
theorem quote_append_inj {cs cs' rest rest' : List Char}
    (h : quote cs ++ rest = quote cs' ++ rest') : cs = cs' ∧ rest = rest' := by
  simp only [quote, List.cons_append, List.append_assoc, List.nil_append, List.cons.injEq,
    true_and] at h
  exact flatMap_escape_append_inj h

/-! ### Numbers -/

/-- The characters which end an item of a list or a field of a record. -/
def isEnd (c : Char) : Bool := c == ',' || c == ']' || c == '}'

/-- What may stand behind a value: nothing, or more of the list or record which it is in. -/
def Ends (rest : List Char) : Prop := ∀ c ∈ rest.head?, isEnd c = true

@[simp] theorem ends_nil : Ends [] := by
  intro c hc
  cases hc

theorem ends_cons {c : Char} (h : isEnd c = true) (rest : List Char) : Ends (c :: rest) := by
  intro c' hc
  cases hc
  exact h

/-- A text without ends. -/
def Unended (cs : List Char) : Prop := ∀ c ∈ cs, isEnd c = false

/-- A text without ends is all of what stands before an end. -/
theorem Unended.append_inj {as bs rest rest' : List Char} (ha : Unended as) (hb : Unended bs)
    (hrest : Ends rest) (hrest' : Ends rest') (h : as ++ rest = bs ++ rest') :
    as = bs ∧ rest = rest' := by
  have htake {cs tail : List Char} (hcs : Unended cs) (htail : Ends tail) :
      (cs ++ tail).takeWhile (fun c => !isEnd c) = cs := by
    have hnone : tail.takeWhile (fun c => !isEnd c) = [] := by
      cases tail with
      | nil => rfl
      | cons c tail => simp [htail c rfl]
    have hall : ∀ c ∈ cs, (!isEnd c) = true := by
      intro c hc
      simp [hcs c hc]
    rw [List.takeWhile_append_of_pos hall, hnone, List.append_nil]
  obtain rfl : as = bs := by rw [← htake ha hrest, h, htake hb hrest']
  exact ⟨rfl, List.append_cancel_left h⟩

@[simp] theorem unended_nil : Unended [] := by
  intro c hc
  cases hc

@[simp] theorem unended_cons {c : Char} {cs : List Char} :
    Unended (c :: cs) ↔ isEnd c = false ∧ Unended cs := by
  simp [Unended]

@[simp] theorem unended_append {as bs : List Char} :
    Unended (as ++ bs) ↔ Unended as ∧ Unended bs := by
  simp [Unended, or_imp, forall_and]

theorem isEnd_of_isDigit {c : Char} (h : c.isDigit = true) : isEnd c = false := by
  by_contra hend
  simp only [isEnd, Bool.not_eq_false, Bool.or_eq_true, beq_iff_eq] at hend
  rcases hend with (rfl | rfl) | rfl
  · cases h
  · cases h
  · cases h

theorem unended_of_all_isDigit {cs : List Char} (h : cs.all Char.isDigit = true) : Unended cs := by
  intro c hc
  exact isEnd_of_isDigit (List.all_eq_true.mp h c hc)

@[simp] theorem unended_write (n : Nat) : Unended (Numeral.write n) :=
  unended_of_all_isDigit (Numeral.all_isDigit_write n)

@[simp] theorem unended_writeSigned (n : Int) : Unended (Numeral.writeSigned n) := by
  unfold Numeral.writeSigned
  split <;> simp [isEnd]

theorem unended_writePositional (layout : Layout) (c : Nat) (e : Int) :
    Unended (layout.writePositional c e) := by
  unfold Layout.writePositional
  split
  · have hzeros : Unended (List.replicate e.toNat '0') := by
      intro x hx
      rw [List.eq_of_mem_replicate hx]
      rfl
    split <;> simp [hzeros, isEnd]
  · obtain ⟨whole, fraction, hpoint, -, hall, -, -⟩ :=
      Layout.exists_setPoint_eq (Numeral.all_isDigit_write c) (-e).toNat
    obtain ⟨hwhole, hfraction⟩ := unended_append.mp (unended_of_all_isDigit hall)
    rw [hpoint]
    simp [hwhole, hfraction, isEnd]

theorem unended_writeScientific (c : Nat) (e : Int) : Unended (Layout.writeScientific c e) := by
  have hdigits := unended_write c
  unfold Layout.writeScientific
  refine unended_append.mpr ⟨?_, unended_cons.mpr ⟨rfl, unended_cons.mpr ⟨?_, unended_write _⟩⟩⟩
  · split
    · next d f rest hwrite =>
      rw [hwrite, unended_cons] at hdigits
      exact unended_cons.mpr ⟨hdigits.1, unended_cons.mpr ⟨rfl, hdigits.2⟩⟩
    · exact hdigits
  · split
    · rfl
    · rfl

@[simp] theorem unended_writeDecimal (layout : Layout) (d : Decimal) : Unended (layout.writeDecimal d) := by
  unfold Layout.writeDecimal
  by_cases hpositional : layout.isPositional d = true
  · have hmagnitude := unended_writePositional layout d.coefficient d.exponent
    simp only [if_pos hpositional]
    split
    · exact unended_cons.mpr ⟨rfl, hmagnitude⟩
    · exact hmagnitude
  · have hmagnitude := unended_writeScientific d.coefficient d.exponent
    simp only [if_neg hpositional]
    split
    · exact unended_cons.mpr ⟨rfl, hmagnitude⟩
    · exact hmagnitude

/-- A double is never written as an integer is: it keeps its point or has an exponent. -/
theorem mem_writeDecimal_json (d : Decimal) :
    '.' ∈ Layout.json.writeDecimal d ∨ 'e' ∈ Layout.json.writeDecimal d := by
  have hpositional (c : Nat) (e : Int) : '.' ∈ Layout.json.writePositional c e := by
    unfold Layout.writePositional
    split
    · exact List.mem_append_right _ List.mem_cons_self
    · obtain ⟨whole, fraction, hpoint, -⟩ :=
        Layout.exists_setPoint_eq (Numeral.all_isDigit_write c) (-e).toNat
      rw [hpoint]
      exact List.mem_append_right _ List.mem_cons_self
  have hscientific (c : Nat) (e : Int) : 'e' ∈ Layout.writeScientific c e :=
    List.mem_append_right _ List.mem_cons_self
  unfold Layout.writeDecimal
  by_cases h : Layout.json.isPositional d = true
  · simp only [if_pos h]
    split
    · exact Or.inl (List.mem_cons_of_mem _ (hpositional _ _))
    · exact Or.inl (hpositional _ _)
  · simp only [if_neg h]
    split
    · exact Or.inr (List.mem_cons_of_mem _ (hscientific _ _))
    · exact Or.inr (hscientific _ _)

theorem writeSigned_inj {m n : Int} (h : Numeral.writeSigned m = Numeral.writeSigned n) :
    m = n := by
  have hread := congrArg Numeral.readSigned? h
  rw [Numeral.readSigned?_writeSigned, Numeral.readSigned?_writeSigned] at hread
  exact Option.some.inj hread

/-- **The texts of finite doubles are different.** -/
theorem write_json_inj {x y : Binary64.Finite} (h : Layout.json.write x = Layout.json.write y) :
    x = y := by
  have hread := congrArg Binary64.readFinite? h
  rw [Binary64.readFinite?_write, Binary64.readFinite?_write] at hread
  exact Option.some.inj hread

theorem writeSigned_ne_write_json (n : Int) (x : Binary64.Finite) :
    Numeral.writeSigned n ≠ Layout.json.write x := by
  have hsigned : ∀ c ∈ Numeral.writeSigned n, c.isDigit = true ∨ c = '-' := by
    have hdigit := List.all_eq_true.mp (Numeral.all_isDigit_write n.natAbs)
    intro c hc
    unfold Numeral.writeSigned at hc
    split at hc
    · rcases List.mem_cons.mp hc with rfl | hc
      · exact Or.inr rfl
      · exact Or.inl (hdigit c hc)
    · exact Or.inl (hdigit c hc)
  intro h
  rcases mem_writeDecimal_json (x.shortest Layout.json.tie) with hmem | hmem
  · rcases hsigned '.' (h ▸ hmem) with hc | hc <;> cases hc
  · rcases hsigned 'e' (h ▸ hmem) with hc | hc <;> cases hc

/-! ### Values -/

/-- The values whose texts tell them apart: all doubles in them are finite. -/
inductive Representable : Data → Prop
  | null : Representable .null
  | boolean (b : Bool) : Representable (.boolean b)
  | integer (n : Int) : Representable (.integer n)
  | decimal (x : Binary64.Finite) : Representable (.decimal (.finite x))
  | text (s : String) : Representable (.text s)
  | list {items : List Data} : (∀ d ∈ items, Representable d) → Representable (.list items)
  | record {fields : List (String × Data)} : (∀ field ∈ fields, Representable field.2) →
      Representable (.record fields)

attribute [simp] Representable.null Representable.boolean Representable.integer
  Representable.decimal Representable.text

@[simp] theorem representable_list_iff {items : List Data} :
    Representable (.list items) ↔ ∀ d ∈ items, Representable d := by
  constructor
  · intro h
    cases h with
    | list hitems => exact hitems
  · exact .list

@[simp] theorem representable_record_iff {fields : List (String × Data)} :
    Representable (.record fields) ↔ ∀ field ∈ fields, Representable field.2 := by
  constructor
  · intro h
    cases h with
    | record hfields => exact hfields
  · exact .record

/-- The first character of the text of a value which is no number. -/
def lead? : Data → Option Char
  | .null => some 'n'
  | .boolean b => some (if b then 't' else 'f')
  | .integer _ => none
  | .decimal _ => none
  | .text _ => some '\x22'
  | .list _ => some '['
  | .record _ => some '{'

/-- A text starts with the character of its value, or as a number does. -/
theorem Representable.exists_eq_cons {d : Data} (h : Representable d) :
    ∃ c cs, writeCompact d = c :: cs ∧
      (lead? d = some c ∨ lead? d = none ∧ (c.isDigit = true ∨ c = '-')) := by
  cases h with
  | null => exact ⟨_, _, rfl, Or.inl rfl⟩
  | boolean b => cases b <;> exact ⟨_, _, rfl, Or.inl rfl⟩
  | integer n =>
    obtain ⟨c, cs, hwrite, hc⟩ := Numeral.begins_writeSigned n
    exact ⟨c, cs, hwrite, Or.inr ⟨rfl, hc⟩⟩
  | decimal x =>
    obtain ⟨c, cs, hwrite, hc⟩ := Layout.begins_writeDecimal Layout.json (x.shortest .even)
    exact ⟨c, cs, hwrite, Or.inr ⟨rfl, hc⟩⟩
  | text s => exact ⟨_, _, rfl, Or.inl rfl⟩
  | @list items _ => cases items <;> exact ⟨_, _, rfl, Or.inl rfl⟩
  | @record fields _ => cases fields <;> exact ⟨_, _, rfl, Or.inl rfl⟩

theorem not_begins_of_lead? {d : Data} {c : Char} (h : lead? d = some c) :
    isEnd c = false ∧ ¬ (c.isDigit = true ∨ c = '-') := by
  cases d with
  | null => cases h; decide
  | boolean b => cases b <;> cases h <;> decide
  | integer _ => cases h
  | decimal _ => cases h
  | text _ => cases h; decide
  | list _ => cases h; decide
  | record _ => cases h; decide

/-- **Texts which start alike** are of values of one kind. -/
theorem lead?_eq {d d' : Data} {rest rest' : List Char} (h : Representable d)
    (h' : Representable d') (heq : writeCompact d ++ rest = writeCompact d' ++ rest') :
    lead? d = lead? d' := by
  obtain ⟨c, cs, hwrite, hc⟩ := h.exists_eq_cons
  obtain ⟨c', cs', hwrite', hc'⟩ := h'.exists_eq_cons
  rw [hwrite, hwrite'] at heq
  obtain rfl : c = c' := (List.cons.inj heq).1
  rcases hc with hc | ⟨hc, hnumber⟩
  · rcases hc' with hc' | ⟨-, hnumber'⟩
    · rw [hc, hc']
    · exact absurd hnumber' (not_begins_of_lead? hc).2
  · rcases hc' with hc' | ⟨hc', -⟩
    · exact absurd hnumber (not_begins_of_lead? hc').2
    · rw [hc, hc']

/-- No text starts with an end, so a list or record which ends at once is empty. -/
theorem Representable.ne_end {d : Data} (h : Representable d) {c : Char} (hc : isEnd c = true)
    (rest rest' : List Char) : c :: rest ≠ writeCompact d ++ rest' := by
  intro heq
  obtain ⟨c', cs, hwrite, hstart⟩ := h.exists_eq_cons
  rw [hwrite] at heq
  obtain rfl : c = c' := (List.cons.inj heq).1
  rcases hstart with hlead | ⟨-, hdigit | rfl⟩
  · rw [(not_begins_of_lead? hlead).1] at hc
    cases hc
  · rw [isEnd_of_isDigit hdigit] at hc
    cases hc
  · cases hc

/-- The text of this value is the text of no other one, whatever stands behind it. -/
def Decodes (d : Data) : Prop :=
  ∀ ⦃d' : Data⦄ ⦃rest rest' : List Char⦄, Representable d' → Ends rest → Ends rest' →
    writeCompact d ++ rest = writeCompact d' ++ rest' → d = d' ∧ rest = rest'

@[simp] theorem ends_writeItems (items : List Data) (rest : List Char) :
    Ends (writeItems items ++ rest) := by
  cases items with
  | nil => exact ends_cons rfl _
  | cons item items => exact ends_cons rfl _

@[simp] theorem ends_writeFields (fields : List (String × Data)) (rest : List Char) :
    Ends (writeFields fields ++ rest) := by
  cases fields with
  | nil => exact ends_cons rfl _
  | cons field fields => exact ends_cons rfl _

/-- The items of a list are decoded one by one, up to the closing bracket. -/
theorem writeItems_append_inj {items : List Data} (h : ∀ d ∈ items, Decodes d) :
    ∀ {items' : List Data} {rest rest' : List Char}, (∀ d ∈ items', Representable d) →
      writeItems items ++ rest = writeItems items' ++ rest' → items = items' ∧ rest = rest' := by
  induction items with
  | nil =>
    intro items' rest rest' _ heq
    cases items' with
    | nil => cases heq; exact ⟨rfl, rfl⟩
    | cons item' items' => cases heq
  | cons item items ih =>
    intro items' rest rest' hitems' heq
    cases items' with
    | nil => cases heq
    | cons item' items' =>
      simp only [writeItems, List.cons_append, List.append_assoc, List.cons.injEq, true_and] at heq
      obtain ⟨rfl, htail⟩ := h item List.mem_cons_self (hitems' item' List.mem_cons_self)
        (ends_writeItems items rest) (ends_writeItems items' rest') heq
      obtain ⟨rfl, hrest⟩ := ih (fun d hd => h d (List.mem_cons_of_mem item hd))
        (fun d hd => hitems' d (List.mem_cons_of_mem item hd)) htail
      exact ⟨rfl, hrest⟩

/-- So are the fields of a record, each by its name and its value. -/
theorem writeFields_append_inj {fields : List (String × Data)}
    (h : ∀ field ∈ fields, Decodes field.2) :
    ∀ {fields' : List (String × Data)} {rest rest' : List Char},
      (∀ field ∈ fields', Representable field.2) →
      writeFields fields ++ rest = writeFields fields' ++ rest' →
        fields = fields' ∧ rest = rest' := by
  induction fields with
  | nil =>
    intro fields' rest rest' _ heq
    cases fields' with
    | nil => cases heq; exact ⟨rfl, rfl⟩
    | cons field' fields' => cases heq
  | cons field fields ih =>
    intro fields' rest rest' hfields' heq
    cases fields' with
    | nil => cases heq
    | cons field' fields' =>
      obtain ⟨name, value⟩ := field
      obtain ⟨name', value'⟩ := field'
      simp only [writeFields, List.cons_append, List.append_assoc, List.cons.injEq, true_and] at heq
      obtain ⟨hname, hvalue⟩ := quote_append_inj heq
      obtain rfl : name = name' := String.toList_inj.mp hname
      obtain ⟨rfl, htail⟩ := h (name, value) List.mem_cons_self
        (hfields' (name, value') List.mem_cons_self) (ends_writeFields fields rest)
        (ends_writeFields fields' rest') (List.cons.inj hvalue).2
      obtain ⟨rfl, hrest⟩ := ih (fun field hf => h field (List.mem_cons_of_mem _ hf))
        (fun field hf => hfields' field (List.mem_cons_of_mem _ hf)) htail
      exact ⟨rfl, hrest⟩

theorem list_append_inj {items items' : List Data} {rest rest' : List Char}
    (h : ∀ d ∈ items, Representable d ∧ Decodes d) (h' : ∀ d ∈ items', Representable d)
    (heq : writeCompact (.list items) ++ rest = writeCompact (.list items') ++ rest') :
    items = items' ∧ rest = rest' := by
  cases items with
  | nil =>
    cases items' with
    | nil => cases heq; exact ⟨rfl, rfl⟩
    | cons item' items' =>
      have htail : ']' :: rest = writeCompact item' ++ (writeItems items' ++ rest') :=
        (List.cons.inj heq).2.trans (List.append_assoc ..)
      exact absurd htail ((h' item' List.mem_cons_self).ne_end rfl _ _)
  | cons item items =>
    cases items' with
    | nil =>
      have htail : ']' :: rest' = writeCompact item ++ (writeItems items ++ rest) :=
        (List.cons.inj heq).2.symm.trans (List.append_assoc ..)
      exact absurd htail ((h item List.mem_cons_self).1.ne_end rfl _ _)
    | cons item' items' =>
      -- behind its first character, a list reads as items behind a comma
      have hitems : writeItems (item :: items) ++ rest = writeItems (item' :: items') ++ rest' :=
        congrArg (',' :: ·) (List.cons.inj heq).2
      exact writeItems_append_inj (fun d hd => (h d hd).2) h' hitems

theorem record_append_inj {fields fields' : List (String × Data)} {rest rest' : List Char}
    (h : ∀ field ∈ fields, Decodes field.2) (h' : ∀ field ∈ fields', Representable field.2)
    (heq : writeCompact (.record fields) ++ rest = writeCompact (.record fields') ++ rest') :
    fields = fields' ∧ rest = rest' := by
  cases fields with
  | nil =>
    cases fields' with
    | nil => cases heq; exact ⟨rfl, rfl⟩
    | cons field' fields' => cases heq
  | cons field fields =>
    cases fields' with
    | nil => cases heq
    | cons field' fields' =>
      have hfields : writeFields (field :: fields) ++ rest =
          writeFields (field' :: fields') ++ rest' := congrArg (',' :: ·) (List.cons.inj heq).2
      exact writeFields_append_inj h h' hfields

theorem decodes_null : Decodes .null := by
  intro d' rest rest' h' _ _ heq
  have hlead := lead?_eq .null h' heq
  cases h' with
  | null => exact ⟨rfl, List.append_cancel_left heq⟩
  | boolean b' => cases b' <;> cases hlead
  | _ => cases hlead

theorem decodes_boolean (b : Bool) : Decodes (.boolean b) := by
  intro d' rest rest' h' _ _ heq
  have hlead := lead?_eq (.boolean b) h' heq
  cases h' with
  | boolean b' =>
    obtain rfl : b = b' := by revert hlead; cases b <;> cases b' <;> decide
    exact ⟨rfl, List.append_cancel_left heq⟩
  | _ => cases b <;> cases hlead

theorem decodes_integer (n : Int) : Decodes (.integer n) := by
  intro d' rest rest' h' hrest hrest' heq
  have hlead := lead?_eq (.integer n) h' heq
  cases h' with
  | integer n' =>
    obtain ⟨htext, hsame⟩ :=
      (unended_writeSigned n).append_inj (unended_writeSigned n') hrest hrest' heq
    exact ⟨congrArg Data.integer (writeSigned_inj htext), hsame⟩
  | decimal x' =>
    obtain ⟨htext, -⟩ :=
      (unended_writeSigned n).append_inj (unended_writeDecimal _ _) hrest hrest' heq
    exact absurd htext (writeSigned_ne_write_json n x')
  | _ => cases hlead

theorem decodes_decimal (x : Binary64.Finite) : Decodes (.decimal (.finite x)) := by
  intro d' rest rest' h' hrest hrest' heq
  have hlead := lead?_eq (.decimal x) h' heq
  cases h' with
  | integer n' =>
    obtain ⟨htext, -⟩ :=
      (unended_writeDecimal _ _).append_inj (unended_writeSigned n') hrest hrest' heq
    exact absurd htext.symm (writeSigned_ne_write_json n' x)
  | decimal x' =>
    obtain ⟨htext, hsame⟩ :=
      (unended_writeDecimal _ _).append_inj (unended_writeDecimal _ _) hrest hrest' heq
    rw [write_json_inj htext]
    exact ⟨rfl, hsame⟩
  | _ => cases hlead

theorem decodes_text (s : String) : Decodes (.text s) := by
  intro d' rest rest' h' _ _ heq
  have hlead := lead?_eq (.text s) h' heq
  cases h' with
  | text s' =>
    obtain ⟨htext, hsame⟩ := quote_append_inj heq
    exact ⟨congrArg Data.text (String.toList_inj.mp htext), hsame⟩
  | boolean b' => cases b' <;> cases hlead
  | _ => cases hlead

theorem decodes_list {items : List Data} (h : ∀ d ∈ items, Representable d ∧ Decodes d) :
    Decodes (.list items) := by
  intro d' rest rest' h' _ _ heq
  have hlead := lead?_eq (.list fun d hd => (h d hd).1) h' heq
  cases h' with
  | list hitems' =>
    obtain ⟨rfl, hsame⟩ := list_append_inj h hitems' heq
    exact ⟨rfl, hsame⟩
  | boolean b' => cases b' <;> cases hlead
  | _ => cases hlead

theorem decodes_record {fields : List (String × Data)}
    (h : ∀ field ∈ fields, Representable field.2 ∧ Decodes field.2) :
    Decodes (.record fields) := by
  intro d' rest rest' h' _ _ heq
  have hlead := lead?_eq (.record fun field hf => (h field hf).1) h' heq
  cases h' with
  | record hfields' =>
    obtain ⟨rfl, hsame⟩ := record_append_inj (fun field hf => (h field hf).2) hfields' heq
    exact ⟨rfl, hsame⟩
  | boolean b' => cases b' <;> cases hlead
  | _ => cases hlead

/-- **A text is decoded in one way only.** -/
theorem Representable.decodes {d : Data} (h : Representable d) : Decodes d := by
  induction h with
  | null => exact decodes_null
  | boolean b => exact decodes_boolean b
  | integer n => exact decodes_integer n
  | decimal x => exact decodes_decimal x
  | text s => exact decodes_text s
  | list h ih => exact decodes_list fun d hd => ⟨h d hd, ih d hd⟩
  | record h ih => exact decodes_record fun field hf => ⟨h field hf, ih field hf⟩

/-- **Equal texts are texts of equal values.** -/
theorem eq_of_compact_eq {d d' : Data} (h : Representable d) (h' : Representable d')
    (heq : compact d = compact d') : d = d' := by
  have htext : writeCompact d ++ [] = writeCompact d' ++ [] :=
    congrArg (· ++ []) (String.ofList_inj.mp heq)
  exact (h.decodes h' ends_nil ends_nil htext).1

/-- Two doubles which are not finite have one text. -/
example : compact (.decimal .notANumber) = compact (.decimal (.infinite false)) := rfl

end QueryFilter.Json
