import QueryFilter.Data

/-!
# Trees of tables

A document is put together from pairs, each of which names a place by a path. While this goes on, a
table has to remember how it came about, since that decides what may still be added to it: a table
with a header of its own is complete, a table which was only passed by a header may still get one,
and a table which was opened by a dotted key may get more pairs by dotted keys.
-/

namespace QueryFilter.Toml

/-- How a table came about. -/
inductive Origin where
  /-- By a header of its own. -/
  | header
  /-- As a parent of a table with a header. -/
  | passed
  /-- By a dotted key. -/
  | dotted
deriving DecidableEq

/-- What stands under a name: a value, a table, or the tables of an array in their order. -/
inductive Node where
  | value (d : Data)
  | table (origin : Origin) (entries : List (String × Node))
  | tables (elements : List (List (String × Node)))

/-- The entries of a table. -/
abbrev Entries := List (String × Node)

/-- A pair as it is written: the path of the table, the name in it, and the value. -/
structure Pair where
  path : List String
  name : String
  value : Data

/-- The entries with a change under a name. The change gets what is there and may refuse it. -/
def change (name : String) (f : Option Node → Option Node) : Entries → Option Entries
  | [] => (f none).map fun node => [(name, node)]
  | (n, node) :: rest =>
    if n = name then (f (some node)).map fun node => (n, node) :: rest
    else (change name f rest).map fun rest => (n, node) :: rest

/-- The elements with a change of the last one. -/
def changeLast (f : Entries → Option Entries) : List Entries → Option (List Entries)
  | [] => none
  | [entries] => (f entries).map fun entries => [entries]
  | entries :: rest => (changeLast f rest).map fun rest => entries :: rest

/-- The entries with one more pair. The tables on its path are opened by it or by other dotted keys;
only on the way to a deeper one may it pass a table of another origin which is not complete. -/
def addPair (name : String) (d : Data) : List String → Entries → Option Entries
  | [] => change name fun
    | none => some (.value d)
    | some _ => none
  | part :: path => change part fun
    | none => (addPair name d path []).map (.table .dotted)
    | some (.value _) => none
    | some (.table .header _) => none
    | some (.table .dotted entries) => (addPair name d path entries).map (.table .dotted)
    | some (.table .passed entries) =>
      if path = [] then none else (addPair name d path entries).map (.table .passed)
    | some (.tables elements) =>
      if path = [] then none else (changeLast (addPair name d path) elements).map .tables

/-- The entries with more pairs. -/
def addPairs (entries : Entries) (pairs : List Pair) : Option Entries :=
  pairs.foldlM (fun entries p => addPair p.name p.value p.path entries) entries

/-- The entries with a change of the table at a path, as a header goes there: into the last element
of an array, and through new tables where there are none. -/
def changeAt (f : Entries → Option Entries) : List String → Entries → Option Entries
  | [] => f
  | part :: path => change part fun
    | none => (changeAt f path []).map (.table .passed)
    | some (.value _) => none
    | some (.table origin entries) => (changeAt f path entries).map (.table origin)
    | some (.tables elements) => (changeLast (changeAt f path) elements).map .tables

/-- The entries with a table which has a header of its own. -/
def addTable (pairs : List Pair) (path : List String) (name : String) (root : Entries) :
    Option Entries :=
  changeAt (change name fun
    | none => (addPairs [] pairs).map (.table .header)
    | some (.table .passed entries) => (addPairs entries pairs).map (.table .header)
    | some _ => none) path root

/-- The entries with one more table in an array of tables. -/
def addElement (pairs : List Pair) (path : List String) (name : String) (root : Entries) :
    Option Entries :=
  changeAt (change name fun
    | none => (addPairs [] pairs).map fun entries => .tables [entries]
    | some (.tables elements) =>
      (addPairs [] pairs).map fun entries => .tables (elements ++ [entries])
    | some _ => none) path root

/-! ### As structured data -/

mutual

/-- A node as structured data. -/
def Node.toData : Node → Data
  | .value d => d
  | .table _ entries => .record (fieldsOf entries)
  | .tables elements => .list (itemsOf elements)

/-- The fields of a table. -/
def fieldsOf : List (String × Node) → List (String × Data)
  | [] => []
  | (name, node) :: rest => (name, node.toData) :: fieldsOf rest

/-- The items of an array of tables. -/
def itemsOf : List (List (String × Node)) → List Data
  | [] => []
  | entries :: rest => .record (fieldsOf entries) :: itemsOf rest

end

end QueryFilter.Toml
