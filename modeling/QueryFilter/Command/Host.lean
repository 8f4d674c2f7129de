/-!
# The host of a command

What a command sees of the machine it runs on: its environment, whether its output goes to a
terminal, and the files. Fetching a file is an effect of the monad in which the command runs, so that
the same command runs on a disk and on a `FileTree`, which is a disk in memory.
-/

namespace QueryFilter.Command

/-- Why a file cannot be read. -/
inductive FileFault where
  | notFound
  | notDirectory
  | isDirectory
  | nameTooLong
  | nulInName
  | notPermitted
  | notText
  /-- Another reason, in words. -/
  | stated (reason : String)
deriving DecidableEq

namespace FileFault

/-- The wording of a file fault. -/
def message : FileFault → String
  | notFound => "No such file or directory (os error 2)"
  | notDirectory => "Not a directory (os error 20)"
  | isDirectory => "Is a directory (os error 21)"
  | nameTooLong => "File name too long (os error 36)"
  | nulInName => "file name contained an unexpected NUL byte"
  | notPermitted => "Permission denied (os error 13)"
  | notText => "stream did not contain valid UTF-8"
  | stated reason => reason

/-- Whether there is something at the location which cannot be read as a text. -/
def isPresent : FileFault → Bool
  | isDirectory | notPermitted | notText | stated _ => true
  | _ => false

end FileFault

/-- What a command sees of its machine. -/
structure Host (m : Type → Type) where
  environment : String → Option String
  terminal : Bool
  fetch : String → m (Except FileFault String)

/-! ### Disks in memory -/

/-- Files by the names on the way to them, from the root on. -/
structure FileTree where
  files : List (List String × ByteArray)

namespace FileTree

/-- The content of the file at the given names. -/
def file? (t : FileTree) (names : List String) : Option ByteArray := t.files.lookup names

/-- Whether there is a directory at the given names: the root, or one with a file below it. -/
def isDirectory (t : FileTree) (names : List String) : Bool :=
  names.isEmpty || t.files.any fun file => names.isPrefixOf file.1 && file.1 != names

/-- What lies at a location: a file with its content, or a directory with its names. -/
inductive Spot where
  | file (content : ByteArray)
  | directory (names : List String)

/-- Follows one part of a location from a spot. -/
def follow (t : FileTree) (spot : Spot) (part : String) : Except FileFault Spot :=
  match spot with
  | .file _ => .error .notDirectory
  | .directory names =>
    if part = "" ∨ part = "." then .ok spot
    else if part = ".." then .ok (.directory names.dropLast)
    else if 255 < part.utf8ByteSize then .error .nameTooLong
    else
      match t.file? (names ++ [part]) with
      | some content => .ok (.file content)
      | none =>
        if t.isDirectory (names ++ [part]) then .ok (.directory (names ++ [part]))
        else .error .notFound

/-- What lies at the end of a location, for a process in the directory of the given names. -/
def spot (t : FileTree) (here : List String) (location : String) : Except FileFault Spot :=
  if location.toList.contains '\x00' then .error .nulInName
  else if location = "" then .error .notFound
  else if 4096 ≤ location.utf8ByteSize then .error .nameTooLong
  else
    let start := if location.toList.head? = some '/' then [] else here
    (location.splitOn "/").foldlM t.follow (.directory start)

/-- The text of the file at a location. -/
def fetch (t : FileTree) (here : List String) (location : String) : Except FileFault String := do
  match ← t.spot here location with
  | .directory _ => throw .isDirectory
  | .file content =>
    match String.fromUTF8? content with
    | some s => return s
    | none => throw .notText

end FileTree

end QueryFilter.Command
