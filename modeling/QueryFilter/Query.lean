import QueryFilter.Conventions
import QueryFilter.Params
import QueryFilter.Predicate
import QueryFilter.SortOrder

/-!
# Queries

A query is what a request asks of a root schema: predicates and sort orders. Its predicates come
from the parameters which the conventions do not reserve, in the order of the parameters, and its
orders from the two reserved parameters for sorting.
-/

namespace QueryFilter

/-- The predicates and orders of a request. -/
structure Query where
  predicates : List Predicate
  orders : List SortOrder
deriving DecidableEq

namespace Query

/-- A query as structured data. -/
def toData (q : Query) : Data :=
  .record [("predicates", .list (q.predicates.map Predicate.toData)),
    ("orders", .list (q.orders.map SortOrder.toData))]

/-- The parameters which are filters. -/
def filters (conventions : Conventions) (params : Params) : List (String × List String) :=
  params.entries.filter fun entry => !conventions.isReserved entry.1

/-- The predicates of a request. -/
def predicatesOf (lookup : Lookup) (conventions : Conventions) (params : Params) (root : String) :
    Except QueryFault (List Predicate) :=
  Predicate.ofParameters lookup root (filters conventions params)

/-- The orders of a request. -/
def ordersOf (lookup : Lookup) (conventions : Conventions) (params : Params) (root : String) :
    Except QueryFault (List SortOrder) :=
  SortOrder.ofRaws lookup root conventions.listSeparator (params.get conventions.sortKey)
    (params.get conventions.directionKey)

/-- The query of a request. A fault of the predicates comes before one of the orders. -/
def ofParams (lookup : Lookup) (conventions : Conventions) (params : Params) (root : String) :
    Except QueryFault Query := do
  let predicates ← predicatesOf lookup conventions params root
  let orders ← ordersOf lookup conventions params root
  return ⟨predicates, orders⟩

/-- The predicate which one raw value makes about a path. -/
def predicateOf (lookup : Lookup) (root path raw : String) : Except QueryFault Predicate := do
  let chain ← Path.resolve lookup root path
  Predicate.ofRaw chain raw

end Query

end QueryFilter
