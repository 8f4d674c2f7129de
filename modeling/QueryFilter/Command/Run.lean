import QueryFilter.Catalog.Document
import QueryFilter.Command.Config
import QueryFilter.Command.Report

/-!
# Running a command

A command reads its configuration, then the schema document if its action needs one, and answers with
a report or the first fault. The answer to a command line is a status and the texts for the two
outputs: status 0 with a report, 1 with a fault, 2 if the command line cannot be read.
-/

namespace QueryFilter.Command

/-- Why an action fails. -/
inductive Fault where
  | config (f : ConfigFault)
  | noSchemaFile
  | unreadableSchema (location : String) (f : FileFault)
  | schema (f : SchemaFault)
  | noRoot
  | parameterWithoutValue (entry : String)
  | parameterWithoutName (entry : String)
  | unknownSchema (name : String)
  | query (f : QueryFault)
deriving DecidableEq

/-- The wording of a fault. -/
def Fault.message : Fault → String
  | config f => f.message
  | noSchemaFile => "no schema file; pass --schema or set schema.path in the config"
  | unreadableSchema location f => s!"failed to read schema file {location}: {f.message}"
  | schema f => f.message
  | noRoot => "--root is required (or set schema.root in the config)"
  | parameterWithoutValue entry => s!"invalid parameter '{entry}', expected KEY=VALUE"
  | parameterWithoutName entry => s!"invalid parameter '{entry}', key is empty"
  | unknownSchema name => s!"unknown schema '{name}'"
  | query f => f.coded

/-! ### Parameters -/

/-- The name and the value of an entry `name=value`; the value starts behind the first equals
sign. -/
def readEntry (entry : String) : Except Fault (String × String) :=
  let cs := entry.toList
  match cs.dropWhile (· ≠ '=') with
  | [] => .error (.parameterWithoutValue entry)
  | _ :: value =>
    let name := cs.takeWhile (· ≠ '=')
    if name = [] then .error (.parameterWithoutName entry)
    else .ok (String.ofList name, String.ofList value)

/-- The parameters which a command line gives: its entries, and behind them the sort values and the
directions under the names which the conventions have for them. -/
def buildParams (conventions : Conventions) (entries sort direction : List String) :
    Except Fault Params := do
  let pairs ← entries.mapM readEntry
  return Params.ofList (pairs ++ sort.map (conventions.sortKey, ·)
    ++ direction.map (conventions.directionKey, ·))

/-! ### Actions -/

/-- A fault in other terms. -/
def orFault {α ε : Type} (f : ε → Fault) : Except ε α → Except Fault α := Except.mapError f

/-- The root schema: the one which is asked for, or the one of the configuration. -/
def rootOf (asked : Option String) (config : Config) : Except Fault String :=
  match asked.or config.root with
  | some root => .ok root
  | none => .error .noRoot

/-- The report of an action with its catalog. -/
def reportOn (catalog : Except Fault Catalog) (config : Config) : Action → Except Fault Report
  | .lex raw => return .ofCondition (Condition.read raw)
  | .parse asked entries sort direction => do
    let c ← catalog
    let root ← rootOf asked config
    let params ← buildParams config.conventions entries sort direction
    let q ← orFault .query (Query.ofParams c.resolve config.conventions params root)
    return .ofQuery q
  | .coerce asked path raw => do
    let c ← catalog
    let root ← rootOf asked config
    let p ← orFault .query (Query.predicateOf c.resolve root path raw)
    return .ofPredicate p
  | .schema (some name) => do
    let c ← catalog
    match c.schema? name with
    | some s => return .ofSchemas [(name, s)]
    | none => throw (.unknownSchema name)
  | .schema none => return .ofSchemas (← catalog).toList

/-- Whether an action needs a catalog. -/
def Action.needsCatalog : Action → Bool
  | lex _ => false
  | _ => true

/-- How a command line looks. This is a text of its own: it stands in for the pages of help and the
messages on single mistakes which an argument library generates, and no result is about its
wording. -/
def usageText : String :=
  "Usage: paramql [--schema FILE] [--config FILE] [--format text|json] "
    ++ "[--theme auto|light|dark|plain] [--verbose] "
    ++ "(parse [--root SCHEMA] [-p KEY=VALUE]... [--sort FIELD]... [--direction DIR]... "
    ++ "| lex VALUE | coerce [--root SCHEMA] --path PATH VALUE | schema [NAME])\n"

section

variable {m : Type → Type} [Monad m]

/-- The catalog of the schema document which is asked for, or else of the one of the
configuration. -/
def loadCatalog (host : Host m) (asked : Option String) (config : Config) :
    m (Except Fault Catalog) :=
  match asked.or config.schemaLocation? with
  | none => return .error .noSchemaFile
  | some location => do
    match ← host.fetch location with
    | .ok text => return orFault .schema (Catalog.ofDocument text)
    | .error f => return .error (.unreadableSchema location f)

/-- The report of an invocation. -/
def Invocation.run (host : Host m) (i : Invocation) : m (Except Fault Report) := do
  match ← Config.load host i.settings.config with
  | .error f => return .error (.config f)
  | .ok config =>
    if i.action.needsCatalog then
      let catalog ← loadCatalog host i.settings.schema config
      return reportOn catalog config i.action
    else return reportOn (.ok .empty) config i.action

/-- The status with which a command ends, and what it writes. -/
structure Answer where
  status : UInt32
  output : String
  errors : String
deriving DecidableEq

/-- The answer to a command line. -/
def answer (host : Host m) (args : List String) : m Answer := do
  match Invocation.read host.environment args with
  | .error .version => return ⟨0, "paramql 0.1.0\n", ""⟩
  | .error .help => return ⟨0, usageText, ""⟩
  | .error .usage => return ⟨2, "", usageText⟩
  | .ok i =>
    match ← i.run host with
    | .ok report =>
      return ⟨0, report.write i.settings.format (i.settings.theme.palette? host.terminal), ""⟩
    | .error f => return ⟨1, "", s!"error: {f.message}\n"⟩

end

end QueryFilter.Command
