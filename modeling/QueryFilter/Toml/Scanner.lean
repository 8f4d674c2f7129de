/-!
# Scanners

A scanner takes something off the front of a text, or fails. Scanners are run one after the other by
`do`, and `p <|> q` runs `q` on the same text where `p` fails. Repetition is bounded by the length
of the text, which is no restriction for a scanner which takes at least one character.
-/

namespace QueryFilter.Toml

/-- A function which takes a result off the front of a text. -/
abbrev Scanner (α : Type) := StateT (List Char) Option α

namespace Scanner

variable {α β : Type}

/-- One character of a class. -/
def character (p : Char → Bool) : Scanner Char := fun cs =>
  match cs with
  | c :: rest => if p c then some (c, rest) else none
  | [] => none

/-- A given text. -/
def token (t : List Char) : Scanner Unit := fun cs => (t.isPrefixOf? cs).map fun rest => ((), rest)

/-- The characters of a class at the front, as many as there are. -/
def run (p : Char → Bool) : Scanner (List Char) := fun cs => some (cs.takeWhile p, cs.dropWhile p)

/-- One or more characters of a class. -/
def run1 (p : Char → Bool) : Scanner (List Char) := do
  let c ← character p
  return c :: (← run p)

/-- Exactly `n` characters of a class. -/
def exactly (n : Nat) (p : Char → Bool) : Scanner (List Char) := fun cs =>
  if (cs.take n).length = n ∧ (cs.take n).all p then some (cs.take n, cs.drop n) else none

/-- Succeeds where the text starts with something, and takes nothing. -/
def ahead (p : Scanner α) : Scanner Unit := fun cs => (p cs).map fun _ => ((), cs)

/-- Succeeds at the end of the text. -/
def finish : Scanner Unit := fun cs => if cs = [] then some ((), cs) else none

/-- What a scanner takes, or nothing where it fails. -/
def optional? (p : Scanner α) : Scanner (Option α) := (some <$> p) <|> pure none

/-- The results of a scanner run at most `n` times. -/
def atMost (p : Scanner α) : Nat → Scanner (List α)
  | 0 => pure []
  | n + 1 => do
    match ← optional? p with
    | none => return []
    | some a => return a :: (← atMost p n)

/-- The results of a scanner run as often as it succeeds. -/
def many (p : Scanner α) : Scanner (List α) := fun cs => atMost p cs.length cs

/-- The results of a scanner run as often as it succeeds, with separators between them. -/
def separated1 (p : Scanner α) (separator : Scanner β) : Scanner (List α) := do
  let a ← p
  return a :: (← many (do let _ ← separator; p))

/-- As `separated1`, or nothing. -/
def separated (p : Scanner α) (separator : Scanner β) : Scanner (List α) :=
  separated1 p separator <|> pure []

/-- What a scanner takes if it satisfies a condition. -/
def filtered (p : Scanner α) (condition : α → Bool) : Scanner α := do
  let a ← p
  if condition a then return a else failure

/-- A value if there is one. -/
def ofOption : Option α → Scanner α
  | some a => pure a
  | none => failure

end Scanner

end QueryFilter.Toml
