import DatasetGraph.Query.Criteria

/-!
# The order of datasets on a page

Roots are compared by the keys of the query, the first key that tells them apart deciding; a
descending query turns that result around.  Roots that no key tells apart come by increasing id in
either direction.

A root without a value for a key, or with `null`, comes after one that has a value; in a descending
query this too is turned around.  Values of one type compare as truth values, as the doubles nearest
to numbers, or as texts; values of other types, or of two types, compare by type and then by their
text.
-/

namespace DatasetGraph

namespace Json

/-- The order of the types of values. -/
def typeRank : Json → Nat
  | .bool _ => 0
  | .num _ => 1
  | .str _ => 2
  | .arr _ => 3
  | .obj _ => 4
  | .null => 5

/-- The order of values. -/
def order : Json → Json → Ordering
  | .num x, .num y => x.asDouble.compare y.asDouble
  | .str x, .str y => compare x y
  | .bool x, .bool y => compare x.toNat y.toNat
  | v, w => (compare v.typeRank w.typeRank).then (compare v.compact w.compact)

/-- A value that is there and is not `null`. -/
def present? (v : Option Json) : Option Json := v.filter fun v => !v.isNull

/-- The order of values that may be missing. -/
def orderMissingLast (v w : Option Json) : Ordering :=
  match present? v, present? w with
  | none, none => .eq
  | none, some _ => .gt
  | some _, none => .lt
  | some v, some w => order v w

end Json

namespace Node

/-- The order of roots by one key. -/
def compareBy (key : String) (a b : Node) : Ordering :=
  if key = "id" then compare a.id b.id
  else Json.orderMissingLast (a.properties.get? key) (b.properties.get? key)

/-- The order of roots by keys, of which the first that tells them apart decides. -/
def compareByAll (keys : List String) (a b : Node) : Ordering :=
  keys.foldr (fun key later => (compareBy key a b).then later) .eq

end Node

/-- The result of a comparison in a direction. -/
def Direction.apply : Direction → Ordering → Ordering
  | .ascending, o => o
  | .descending, o => o.swap

namespace Criteria

/-- The order of roots on a page. -/
def compareRoots (c : Criteria) (a b : Node) : Ordering :=
  (c.direction.apply (Node.compareByAll c.orderBy a b)).then (compare a.id b.id)

/-- Roots in the order of the page. -/
def sortRoots (c : Criteria) (roots : List Node) : List Node :=
  roots.mergeSort fun a b => (c.compareRoots a b).isLE

end Criteria

end DatasetGraph
