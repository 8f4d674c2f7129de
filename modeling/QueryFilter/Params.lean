/-!
# Request parameters

The parameters of a request, grouped by name. A name may come with several values; the names stand
in the order in which they first came, and the values of a name in the order in which they came.
-/

namespace QueryFilter

/-- Parameter names with their values. -/
structure Params where
  entries : List (String × List String) := []
deriving DecidableEq

namespace Params

/-- The entries with one more value for a name; a new name goes to the end. -/
def appendEntry (name value : String) :
    List (String × List String) → List (String × List String)
  | [] => [(name, [value])]
  | (n, values) :: rest =>
    if n = name then (n, values ++ [value]) :: rest
    else (n, values) :: appendEntry name value rest

/-- The parameters with one more value for a name. -/
def append (p : Params) (name value : String) : Params := ⟨appendEntry name value p.entries⟩

/-- The parameters with more values for a name. -/
def appendValues (p : Params) (name : String) (values : List String) : Params :=
  values.foldl (fun p value => p.append name value) p

/-- The parameters with more names and values. -/
def extend (p : Params) (pairs : List (String × String)) : Params :=
  pairs.foldl (fun p pair => p.append pair.1 pair.2) p

/-- The parameters which a list of names and values makes. -/
def ofList (pairs : List (String × String)) : Params := extend {} pairs

/-- The values of a name. -/
def get (p : Params) (name : String) : List String := (p.entries.lookup name).getD []

/-- The number of different names. -/
def size (p : Params) : Nat := p.entries.length

/-- Whether there is no parameter. -/
def isEmpty (p : Params) : Bool := p.entries.isEmpty

end Params

end QueryFilter
