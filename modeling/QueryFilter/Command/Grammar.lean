/-!
# Grammars of command lines

A command line is read against a grammar: the switches which may be given, the operand which may
stand beside them, and the commands, which take over the arguments behind them. A switch has a long
name and perhaps a letter; it is a flag, or takes one value, or may be repeated with a value each
time. A value follows its switch as the next argument, or after an equals sign, or right behind a
letter. Behind a bare `--` everything is an operand.

An argument which starts with a hyphen is a switch and never a value, unless the grammar has an
operand which may start with a hyphen and which has not been given yet: then an argument which is no
known switch is a value after all.
-/

namespace QueryFilter.Command

/-- Why reading ends early. -/
inductive Stop where
  /-- The arguments do not fit the grammar. -/
  | usage
  /-- The version is asked for. -/
  | version
  /-- Help is asked for. -/
  | help
deriving DecidableEq

/-- What a switch takes, or which end of reading it asks for. -/
inductive Arity where
  | flag
  | single
  | repeated
  | ends (stop : Stop)
deriving DecidableEq

/-- A switch. Its values have to be acceptable. -/
structure Switch where
  name : String
  letter : Option Char := none
  arity : Arity
  accepts : String → Bool := fun _ => true

/-- Whether a switch takes values. -/
def Switch.takesValue (s : Switch) : Bool := s.arity = .single || s.arity = .repeated

/-- What may stand beside the switches. -/
inductive Slot where
  | absent
  | plain
  | hyphenated
deriving DecidableEq

/-- What may stand at one level of a command line. -/
structure Grammar where
  switches : List Switch
  slot : Slot := .absent
  commands : List String := []

namespace Grammar

/-- The switch of a long name. -/
def named? (g : Grammar) (name : String) : Option Switch := g.switches.find? (·.name = name)

/-- The switch of a letter. -/
def lettered? (g : Grammar) (letter : Char) : Option Switch :=
  g.switches.find? (·.letter = some letter)

end Grammar

/-- What has been read at one level: the flags, the values by the names of their switches, and the
operand. -/
structure Reading where
  flags : List String := []
  values : List (String × String) := []
  operand : Option String := none
deriving DecidableEq

namespace Reading

/-- The value of a switch which takes one. -/
def value? (r : Reading) (name : String) : Option String := r.values.lookup name

/-- The values of a switch which may be repeated. -/
def allValues (r : Reading) (name : String) : List String :=
  (r.values.filter (·.1 = name)).map Prod.snd

/-- The reading with one more value; a switch which takes one value takes it once. -/
def give (r : Reading) (s : Switch) (v : String) : Except Stop Reading :=
  if s.arity = .single ∧ (r.value? s.name).isSome then .error .usage
  else if s.accepts v then .ok { r with values := r.values ++ [(s.name, v)] }
  else .error .usage

/-- The reading with a switch which takes no value. -/
def raise (r : Reading) (s : Switch) : Except Stop Reading :=
  match s.arity with
  | .ends stop => .error stop
  | _ => if s.name ∈ r.flags then .error .usage else .ok { r with flags := r.flags ++ [s.name] }

end Reading

/-- What stands next in the reading of a level. -/
inductive Next where
  /-- A new argument. -/
  | fresh
  /-- A value for a switch. -/
  | valueOf (s : Switch)
  /-- Operands only. -/
  | operands

/-! ### Arguments -/

/-- The name and the value of a long switch. -/
def longParts? (arg : String) : Option (String × Option String) :=
  match arg.toList with
  | '-' :: '-' :: c :: cs =>
    let name := (c :: cs).takeWhile (· ≠ '=')
    match (c :: cs).dropWhile (· ≠ '=') with
    | _ :: v => some (String.ofList name, some (String.ofList v))
    | [] => some (String.ofList name, none)
  | _ => none

/-- The letters behind a single hyphen. -/
def letters? (arg : String) : Option (List Char) :=
  match arg.toList with
  | '-' :: c :: cs => if c = '-' then none else some (c :: cs)
  | _ => none

/-- The value right behind a letter; an equals sign in front of it is left out. -/
def attached : List Char → String
  | '=' :: cs => String.ofList cs
  | cs => String.ofList cs

namespace Grammar

/-- Whether an argument with a hyphen may still be the operand. -/
def hyphensOpen (g : Grammar) (r : Reading) : Bool := g.slot = .hyphenated && r.operand.isNone

/-- Whether letters behind a hyphen are a value: if they may be, and one of them is no switch. -/
def lettersAreValue (g : Grammar) (r : Reading) (letters : List Char) : Bool :=
  g.hyphensOpen r && letters.any fun c => (g.lettered? c).isNone

/-- Reads the letters of one argument. The first one which takes a value takes the rest of the
argument, or the next argument if nothing is left. -/
def readLetters (g : Grammar) : Reading → List Char → Except Stop (Reading × Next)
  | r, [] => .ok (r, .fresh)
  | r, c :: cs =>
    match g.lettered? c with
    | none => .error .usage
    | some s =>
      if s.takesValue then
        if cs = [] then .ok (r, .valueOf s)
        else do return (← r.give s (attached cs), .fresh)
      else do g.readLetters (← r.raise s) cs

/-- Reads an argument which is a value: of the switch before it, or else the operand. -/
def readValue (g : Grammar) (r : Reading) (next : Next) (arg : String) :
    Except Stop (Reading × Next) :=
  match next with
  | .valueOf s => do return (← r.give s arg, .fresh)
  | _ =>
    if g.slot = .absent ∨ r.operand.isSome then .error .usage
    else .ok ({ r with operand := some arg }, next)

/-- Reads a long switch. One which takes a value takes it from behind the equals sign, or else from
the next argument. -/
def readLong (r : Reading) (s : Switch) (v? : Option String) : Except Stop (Reading × Next) :=
  match v? with
  | some v => if s.takesValue then do return (← r.give s v, .fresh) else .error .usage
  | none =>
    if s.takesValue then .ok (r, .valueOf s) else do return (← r.raise s, .fresh)

/-- Reads one argument which is no command. A switch which waits for its value does not get another
switch as the value. -/
def readArgument (g : Grammar) (r : Reading) (next : Next) (arg : String) :
    Except Stop (Reading × Next) :=
  let waits := match next with
    | .valueOf _ => true
    | _ => false
  match next with
  | .operands => g.readValue r next arg
  | _ =>
    if arg = "--" then
      if waits then .error .usage else .ok (r, .operands)
    else
      match longParts? arg with
      | some (name, v?) =>
        match g.named? name with
        | some s => if waits then .error .usage else readLong r s v?
        | none => if g.hyphensOpen r then g.readValue r next arg else .error .usage
      | none =>
        match letters? arg with
        | some letters =>
          if g.lettersAreValue r letters then g.readValue r next arg
          else if waits then .error .usage
          else g.readLetters r letters
        | none => g.readValue r next arg

/-- Whether an argument is a command. A value of a switch is none, and neither is an operand. -/
def isCommand (g : Grammar) (next : Next) (arg : String) : Bool :=
  match next with
  | .fresh => g.commands.contains arg
  | _ => false

/-- Reads the arguments of one level, up to its end or to a command; the result then holds the
command and the arguments behind it. -/
def readFrom (g : Grammar) : Reading → Next → List String →
    Except Stop (Reading × Option (String × List String))
  | _, .valueOf _, [] => .error .usage
  | r, _, [] => .ok (r, none)
  | r, next, arg :: args =>
    if g.isCommand next arg then .ok (r, some (arg, args))
    else do
      let (r, next) ← g.readArgument r next arg
      g.readFrom r next args

/-- Reads the arguments of one level from its start. -/
def read (g : Grammar) (args : List String) :
    Except Stop (Reading × Option (String × List String)) :=
  g.readFrom {} .fresh args

end Grammar

end QueryFilter.Command
