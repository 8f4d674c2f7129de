import QueryFilter.Command.Grammar

/-!
# Invocations

What a command line asks for: one of four actions, and the settings under which it runs. The settings
may be given before or behind the name of the action; those behind it win. The schema and the
configuration may also come from the environment, which the command line overrides.
-/

namespace QueryFilter.Command

/-- How answers are written. -/
inductive Format where
  | text
  | json
deriving DecidableEq

/-- The colours of answers. -/
inductive Theme where
  | auto
  | light
  | dark
  | plain
deriving DecidableEq

/-- The format of a name. -/
def Format.ofName? : String → Option Format
  | "text" => some text
  | "json" => some json
  | _ => none

/-- The theme of a name. -/
def Theme.ofName? : String → Option Theme
  | "auto" => some auto
  | "light" => some light
  | "dark" => some dark
  | "plain" => some plain
  | _ => none

/-- Under what an action runs. -/
structure Settings where
  schema : Option String
  config : Option String
  format : Format
  theme : Theme
deriving DecidableEq

/-- What is to be done. -/
inductive Action where
  /-- Read the parameters of a request. -/
  | parse (root : Option String) (params sort direction : List String)
  /-- Read one raw value. -/
  | lex (raw : String)
  /-- Read one raw value about a path. -/
  | coerce (root : Option String) (path raw : String)
  /-- List schemas. -/
  | schema (name : Option String)
deriving DecidableEq

/-- What a command line asks for. -/
structure Invocation where
  settings : Settings
  action : Action
deriving DecidableEq

/-! ### Grammars -/

/-- The switches of all levels. -/
def commonSwitches : List Switch :=
  [{ name := "schema", arity := .single, accepts := (· ≠ "") },
   { name := "config", arity := .single, accepts := (· ≠ "") },
   { name := "format", arity := .single, accepts := fun v => (Format.ofName? v).isSome },
   { name := "theme", arity := .single, accepts := fun v => (Theme.ofName? v).isSome },
   { name := "verbose", letter := some 'v', arity := .flag },
   { name := "help", letter := some 'h', arity := .ends .help }]

/-- The grammar before the name of the action. -/
def topGrammar : Grammar where
  switches := { name := "version", letter := some 'V', arity := .ends .version } :: commonSwitches
  commands := ["parse", "lex", "coerce", "schema"]

/-- The grammar behind `parse`. -/
def parseGrammar : Grammar where
  switches :=
    [{ name := "root", arity := .single },
     { name := "param", letter := some 'p', arity := .repeated },
     { name := "sort", arity := .repeated },
     { name := "direction", arity := .repeated }] ++ commonSwitches

/-- The grammar behind `lex`. -/
def lexGrammar : Grammar where
  switches := commonSwitches
  slot := .hyphenated

/-- The grammar behind `coerce`. -/
def coerceGrammar : Grammar where
  switches :=
    [{ name := "root", arity := .single }, { name := "path", arity := .single }] ++ commonSwitches
  slot := .hyphenated

/-- The grammar behind `schema`. -/
def schemaGrammar : Grammar where
  switches := commonSwitches
  slot := .plain

/-! ### Reading -/

/-- A value which has to be there. -/
def required {α : Type} : Option α → Except Stop α
  | some a => .ok a
  | none => .error .usage

/-- The reading of the arguments behind an action. -/
def readBehind (g : Grammar) (args : List String) : Except Stop Reading := do
  return (← g.read args).1

/-- The action of a name with the arguments behind it, and what was read there. -/
def Action.read (name : String) (args : List String) : Except Stop (Reading × Action) :=
  match name with
  | "parse" => do
    let r ← readBehind parseGrammar args
    return (r, .parse (r.value? "root") (r.allValues "param") (r.allValues "sort")
      (r.allValues "direction"))
  | "lex" => do
    let r ← readBehind lexGrammar args
    return (r, .lex (← required r.operand))
  | "coerce" => do
    let r ← readBehind coerceGrammar args
    return (r, .coerce (r.value? "root") (← required (r.value? "path")) (← required r.operand))
  | "schema" => do
    let r ← readBehind schemaGrammar args
    return (r, .schema r.operand)
  | _ => .error .usage

/-- A setting which may come from the environment. Each level without a value of its own looks
there, and what it finds must not be empty. -/
def settingOr (environment : Option String) (outer inner : Option String) :
    Except Stop (Option String) :=
  if (outer.isNone ∨ inner.isNone) ∧ environment = some "" then .error .usage
  else .ok (inner.or (outer.or environment))

/-- The invocation which a command line writes. -/
def Invocation.read (environment : String → Option String) (args : List String) :
    Except Stop Invocation := do
  let (outer, command) ← topGrammar.read args
  let (name, rest) ← required command
  let (inner, action) ← Action.read name rest
  let pick (setting : String) : Option String := (inner.value? setting).or (outer.value? setting)
  let schema ← settingOr (environment "PARAMQL_SCHEMA") (outer.value? "schema")
    (inner.value? "schema")
  let config ← settingOr (environment "PARAMQL_CONFIG") (outer.value? "config")
    (inner.value? "config")
  return {
    settings := {
      schema
      config
      format := ((pick "format").bind Format.ofName?).getD .text
      theme := ((pick "theme").bind Theme.ofName?).getD .auto }
    action }

end QueryFilter.Command
