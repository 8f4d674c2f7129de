/-!
# Locations of files

The texts by which files are found: names joined by slashes, from the root of the file system if the
text starts with a slash and from the working directory otherwise. `Location.parent` is the
directory of a file, and `Location.join` a location as seen from a directory.
-/

namespace QueryFilter.Command.Location

/-- Whether a location starts at the root of the file system. -/
def isAbsolute (location : String) : Bool := location.toList.head? = some '/'

/-- A reversed directory without the slashes and single points at its end. The root stays. -/
def trimEnd : List Char → List Char
  | ['/'] => ['/']
  | '/' :: cs => trimEnd cs
  | '.' :: '/' :: cs => trimEnd ('/' :: cs)
  | cs => cs
termination_by cs => cs.length

/-- The directory of a file; empty for a file in the working directory. -/
def parent (location : String) : String :=
  String.ofList (trimEnd (location.toList.reverse.dropWhile (· ≠ '/'))).reverse

/-- A location as seen from a directory. -/
def join (directory location : String) : String :=
  if isAbsolute location || directory = "" then location
  else if directory.toList.getLast? = some '/' then directory ++ location
  else directory ++ "/" ++ location

end QueryFilter.Command.Location
