import QueryFilter.Command.Run

/-!
# The command

The command line program: it hands its arguments, its environment and the disk to
`Command.answer`, and writes the answer.
-/

namespace QueryFilter.Command

/-- The environment variables which a command may look at. -/
def watchedVariables : List String :=
  ["PARAMQL_SCHEMA", "PARAMQL_CONFIG", "XDG_CONFIG_HOME", "HOME"]

/-- The fault of an error of the operating system. -/
def faultOfError : IO.Error → FileFault
  | .noFileOrDirectory .. => .notFound
  | .inappropriateType _ code _ => if code = 21 then .isDirectory else .notDirectory
  | .invalidArgument _ _ "name too long" => .nameTooLong
  | .permissionDenied .. => .notPermitted
  | e => .stated (toString e)

/-- The text of a file on the disk. -/
def fetchFromDisk (location : String) : IO (Except FileFault String) := do
  if location.toList.contains '\x00' then return .error .nulInName
  try
    let content ← IO.FS.readBinFile location
    match String.fromUTF8? content with
    | some s => return .ok s
    | none => return .error .notText
  catch e => return .error (faultOfError e)

end QueryFilter.Command

open QueryFilter.Command in
/-- Answers the command line. -/
def main (args : List String) : IO UInt32 := do
  let settings ← watchedVariables.mapM fun name => return (name, ← IO.getEnv name)
  let output ← IO.getStdout
  let host : Host IO := {
    environment := fun name => (settings.lookup name).join
    terminal := ← output.isTty
    fetch := fetchFromDisk }
  let a ← answer host args
  output.putStr a.output
  (← IO.getStderr).putStr a.errors
  return a.status
