import DatasetGraph.Encoding
import DatasetGraph.Json.Decode

/-!
# Queries for datasets

A query restricts the datasets by id, by date of publication, by status and by what hangs off them;
it says how they are sorted, which of them make up the page, and what of each is returned.  A list
that is empty restricts nothing.
-/

namespace DatasetGraph

/-- The direction of a sort. -/
inductive Direction where
  | ascending
  | descending
deriving DecidableEq

namespace Direction

/-- The name of the direction, as it is written. -/
def name : Direction → String
  | .ascending => "asc"
  | .descending => "desc"

/-- The names under which directions are read. -/
def names : List String := ["ASC", "asc", "DESC", "desc"]

/-- The direction of a name. -/
def ofName? (name : String) : Option Direction :=
  if name = "asc" ∨ name = "ASC" then some .ascending
  else if name = "desc" ∨ name = "DESC" then some .descending
  else none

end Direction

/-- What a client asks for. -/
structure Query where
  /-- The ids of the datasets. -/
  nodeIds : List String := []
  /-- The properties of roots to return, and the groupings of what hangs off them. -/
  properties : List String := []
  /-- Labels of which something that hangs off the dataset has one. -/
  types : List String := []
  /-- Encodings, which stand for the labels of their kinds. -/
  mimeTypes : List String := []
  /-- The properties to sort by; `id` is the id of the root. -/
  orderBy : List String := []
  direction : Direction := .ascending
  /-- The first day of publication. -/
  publishedFrom : Option String := none
  /-- The last day of publication. -/
  publishedTo : Option String := none
  /-- The accepted statuses. -/
  status : List String := []
  /-- How many datasets to pass over. -/
  offset : Nat := 0
  /-- How many datasets to return. -/
  count : Nat := 10
deriving DecidableEq

namespace Query

/-- The query as it is written. -/
def toJson (q : Query) : Json :=
  .obj [("nodeIds", .ofTexts q.nodeIds), ("properties", .ofTexts q.properties),
    ("types", .ofTexts q.types), ("mimeTypes", .ofTexts q.mimeTypes),
    ("orderBy", .ofTexts q.orderBy), ("direction", .str q.direction.name),
    ("publishedFrom", .ofText? q.publishedFrom), ("publishedTo", .ofText? q.publishedTo),
    ("status", .ofTexts q.status), ("offset", .ofNat q.offset), ("count", .ofNat q.count)]

/-! ## Reading -/

open Json (Source Fault Ending Decoder)
open Json.Decoder (field skip takeItem noMoreItems)

/-- The fields of a query that have been read. -/
structure Fields where
  nodeIds : Option (List String) := none
  properties : Option (List String) := none
  types : Option (List String) := none
  mimeTypes : Option (List String) := none
  orderBy : Option (List String) := none
  direction : Option Direction := none
  publishedFrom : Option (Option String) := none
  publishedTo : Option (Option String) := none
  status : Option (List String) := none
  offset : Option Nat := none
  count : Option Nat := none

/-- The query with those fields; the others are as in the query that asks for nothing. -/
def Fields.toQuery (f : Fields) : Query :=
  let q : Query := {}
  { nodeIds := f.nodeIds.getD q.nodeIds
    properties := f.properties.getD q.properties
    types := f.types.getD q.types
    mimeTypes := f.mimeTypes.getD q.mimeTypes
    orderBy := f.orderBy.getD q.orderBy
    direction := f.direction.getD q.direction
    publishedFrom := f.publishedFrom.getD q.publishedFrom
    publishedTo := f.publishedTo.getD q.publishedTo
    status := f.status.getD q.status
    offset := f.offset.getD q.offset
    count := f.count.getD q.count }

/-- A direction in a record with the given ending. -/
def decodeDirection (within : Ending) : Decoder Direction :=
  Decoder.name Direction.names Direction.ofName? within

/-- A text or nothing. -/
private abbrev dateText : Decoder (Option String) := Decoder.optional Decoder.text

/-- Read one member of a query. -/
def Fields.take (within : Ending) (f : Fields) (key : String) (s : Source) :
    Except Fault Fields :=
  if key = "nodeIds" ∨ key = "ids" then
    return { f with nodeIds := ← field "nodeIds" f.nodeIds Decoder.texts s }
  else if key = "properties" then
    return { f with properties := ← field "properties" f.properties Decoder.texts s }
  else if key = "types" then return { f with types := ← field "types" f.types Decoder.texts s }
  else if key = "mimeTypes" then
    return { f with mimeTypes := ← field "mimeTypes" f.mimeTypes Decoder.texts s }
  else if key = "orderBy" then
    return { f with orderBy := ← field "orderBy" f.orderBy Decoder.texts s }
  else if key = "direction" then
    return { f with direction := ← field "direction" f.direction (decodeDirection within) s }
  else if key = "publishedFrom" then
    return { f with publishedFrom := ← field "publishedFrom" f.publishedFrom dateText s }
  else if key = "publishedTo" then
    return { f with publishedTo := ← field "publishedTo" f.publishedTo dateText s }
  else if key = "status" then
    return { f with status := ← field "status" f.status Decoder.texts s }
  else if key = "offset" then
    return { f with offset := ← field "offset" f.offset Decoder.size s }
  else if key = "count" then return { f with count := ← field "count" f.count Decoder.size s }
  else do
    skip s
    return f

/-- The query of an object. -/
def ofMembers (ms : List (Option String × Source)) (ending : Ending) : Except Fault Query := do
  return (← Decoder.members (Fields.take ending) {} ms ending).toQuery

/-- The query of a list of fields. -/
def ofItems (items : List Source) (ending : Ending) : Except Fault Query := do
  let (nodeIds, rest) ← takeItem Decoder.texts ending items
  let (properties, rest) ← takeItem Decoder.texts ending rest
  let (types, rest) ← takeItem Decoder.texts ending rest
  let (mimeTypes, rest) ← takeItem Decoder.texts ending rest
  let (orderBy, rest) ← takeItem Decoder.texts ending rest
  let (direction, rest) ← takeItem (decodeDirection ending) ending rest
  let (publishedFrom, rest) ← takeItem dateText ending rest
  let (publishedTo, rest) ← takeItem dateText ending rest
  let (status, rest) ← takeItem Decoder.texts ending rest
  let (offset, rest) ← takeItem Decoder.size ending rest
  let (count, rest) ← takeItem Decoder.size ending rest
  noMoreItems items.length ending rest
  return Fields.toQuery
    { nodeIds, properties, types, mimeTypes, orderBy, direction, publishedFrom, publishedTo,
      status, offset, count }

/-- Read a query. -/
def decode : Decoder Query := Decoder.record "FilterSpec" ofMembers ofItems

/-- The query of a value. -/
def ofJson (v : Json) : Except Fault Query := decode (.ofJson v)

/-- The query of a text. -/
def ofText (text : String) : Except Fault Query := Decoder.ofText decode text

end Query

end DatasetGraph
