import QueryFilter.Command.Host
import QueryFilter.Command.Location
import QueryFilter.Conventions
import QueryFilter.Toml.Document

/-!
# Configurations

A configuration file names the schema document and the root schema to use when the command line does
not, and states the conventions of requests. It lies where the command line says, or else in the
user's configuration directory; only a file which was asked for has to exist. A relative location in
the file is seen from the directory of the file.
-/

namespace QueryFilter.Command

/-- The content of a configuration file, and where the file lies. -/
structure Config where
  location : String := ""
  schema : Option String := none
  root : Option String := none
  conventions : Conventions := {}
deriving DecidableEq

/-- Why a configuration cannot be used. -/
inductive ConfigFault where
  | missing (location : String)
  | unreadable (location : String) (fault : FileFault)
  | malformed (location : String)
deriving DecidableEq

/-- The wording of a configuration fault. -/
def ConfigFault.message : ConfigFault → String
  | missing location => s!"CLI config {location} does not exist"
  | unreadable location fault => s!"failed to read CLI config {location}: {fault.message}"
  | malformed location => s!"failed to parse CLI config {location}: TOML parse error"

namespace Config

/-- An optional text; none if it is there and is no text. -/
def optionalText? : Option Data → Option (Option String)
  | none => some none
  | some d => d.text?.map some

/-- The schema and root of a section. A table may leave them out; a list has to give both. -/
def section? : Data → Option (Option String × Option String)
  | .record fields => do
    return (← optionalText? (fields.lookup "path"), ← optionalText? (fields.lookup "root"))
  | .list (path :: root :: _) => do return (some (← path.text?), some (← root.text?))
  | _ => none

/-- The configuration which a document at a location states. -/
def ofData? (location : String) (d : Data) : Option Config := do
  let fields ← d.record?
  let (schema, root) ← match fields.lookup "schema" with
    | none => some (none, none)
    | some s => section? s
  let conventions ← match fields.lookup "parser" with
    | none => some {}
    | some p => Conventions.ofData? p
  return ⟨location, schema, root, conventions⟩

/-- The configuration which a text at a location writes. -/
def ofText (location text : String) : Except ConfigFault Config :=
  match (Toml.read? text).bind (ofData? location) with
  | some c => .ok c
  | none => .error (.malformed location)

/-- Where a user's configuration file lies: in the directory which the environment names, if it
names one from the root on, and in the usual one below the home directory otherwise. -/
def usualLocation? (environment : String → Option String) : Option String :=
  let named := (environment "XDG_CONFIG_HOME").filter Location.isAbsolute
  let home := (environment "HOME").filter (· ≠ "")
  let directory? := named.or (home.map fun h => Location.join h ".config")
  directory?.map fun d => Location.join (Location.join d "paramql") "cli.toml"

/-- The configuration to be used. -/
def load {m : Type → Type} [Monad m] (host : Host m) (asked : Option String) :
    m (Except ConfigFault Config) :=
  match asked.or (usualLocation? host.environment) with
  | none => return .ok {}
  | some location => do
    match ← host.fetch location with
    | .ok text => return ofText location text
    | .error fault =>
      if fault.isPresent then return .error (.unreadable location fault)
      else if asked.isSome then return .error (.missing location)
      else return .ok { location }

/-- Where the schema document lies which a configuration names. -/
def schemaLocation? (c : Config) : Option String :=
  c.schema.map (Location.join (Location.parent c.location))

end Config

end QueryFilter.Command
