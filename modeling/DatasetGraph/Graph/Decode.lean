import DatasetGraph.Graph.Basic
import DatasetGraph.Json.Decode

/-!
# Reading graphs

Nodes, edges and graphs are read from JSON as objects or as the lists of their fields.  Only the id
of a node and the two ends of an edge have to be there.  The ends may also be called `start` and
`end`; they are always written as `from` and `to`.
-/

namespace DatasetGraph

open Json (Source Fault Ending Decoder)
open Json.Decoder (field required skip takeItem noMoreItems)

/-! ## Nodes -/

namespace Node

/-- The fields of a node that have been read. -/
structure Fields where
  id : Option String := none
  labels : Option (List String) := none
  properties : Option Properties := none

/-- Read one member of a node. -/
def Fields.take (f : Fields) (key : String) (s : Source) : Except Fault Fields :=
  if key = "id" then return { f with id := ← field "id" f.id Decoder.text s }
  else if key = "labels" then return { f with labels := ← field "labels" f.labels Decoder.texts s }
  else if key = "properties" then
    return { f with properties := ← field "properties" f.properties Decoder.map s }
  else do
    skip s
    return f

/-- The node of an object. -/
def ofMembers (ms : List (Option String × Source)) (ending : Ending) : Except Fault Node := do
  let f ← Decoder.members Fields.take {} ms ending
  return ⟨← required "id" f.id, f.labels.getD [], f.properties.getD .empty⟩

/-- The node of a list of fields. -/
def ofItems (items : List Source) (ending : Ending) : Except Fault Node := do
  let (id, rest) ← takeItem Decoder.text ending items
  let some id := id | throw (.tooFewItems 0 "PgNode" 3)
  let (labels, rest) ← takeItem Decoder.texts ending rest
  let (properties, rest) ← takeItem Decoder.map ending rest
  noMoreItems items.length ending rest
  return ⟨id, labels.getD [], properties.getD .empty⟩

/-- Read a node. -/
def decode : Decoder Node := Decoder.record "PgNode" ofMembers ofItems

end Node

/-! ## Edges -/

namespace Edge

/-- The fields of an edge that have been read. -/
structure Fields where
  source : Option String := none
  target : Option String := none
  labels : Option (List String) := none
  properties : Option Properties := none

/-- Read one member of an edge. -/
def Fields.take (f : Fields) (key : String) (s : Source) : Except Fault Fields :=
  if key = "from" ∨ key = "start" then
    return { f with source := ← field "from" f.source Decoder.text s }
  else if key = "to" ∨ key = "end" then
    return { f with target := ← field "to" f.target Decoder.text s }
  else if key = "labels" then return { f with labels := ← field "labels" f.labels Decoder.texts s }
  else if key = "properties" then
    return { f with properties := ← field "properties" f.properties Decoder.map s }
  else do
    skip s
    return f

/-- The edge of an object. -/
def ofMembers (ms : List (Option String × Source)) (ending : Ending) : Except Fault Edge := do
  let f ← Decoder.members Fields.take {} ms ending
  let source ← required "from" f.source
  let target ← required "to" f.target
  return ⟨source, target, f.labels.getD [], f.properties.getD .empty⟩

/-- The edge of a list of fields. -/
def ofItems (items : List Source) (ending : Ending) : Except Fault Edge := do
  let (source, rest) ← takeItem Decoder.text ending items
  let some source := source | throw (.tooFewItems 0 "PgEdge" 4)
  let (target, rest) ← takeItem Decoder.text ending rest
  let some target := target | throw (.tooFewItems 1 "PgEdge" 4)
  let (labels, rest) ← takeItem Decoder.texts ending rest
  let (properties, rest) ← takeItem Decoder.map ending rest
  noMoreItems items.length ending rest
  return ⟨source, target, labels.getD [], properties.getD .empty⟩

/-- Read an edge. -/
def decode : Decoder Edge := Decoder.record "PgEdge" ofMembers ofItems

end Edge

/-! ## Graphs -/

namespace Graph

/-- The fields of a graph that have been read. -/
structure Fields where
  nodes : Option (List Node) := none
  edges : Option (List Edge) := none

/-- Read one member of a graph. -/
def Fields.take (f : Fields) (key : String) (s : Source) : Except Fault Fields :=
  if key = "nodes" then
    return { f with nodes := ← field "nodes" f.nodes (Decoder.list Node.decode) s }
  else if key = "edges" then
    return { f with edges := ← field "edges" f.edges (Decoder.list Edge.decode) s }
  else do
    skip s
    return f

/-- The graph of an object. -/
def ofMembers (ms : List (Option String × Source)) (ending : Ending) : Except Fault Graph := do
  let f ← Decoder.members Fields.take {} ms ending
  return ⟨f.nodes.getD [], f.edges.getD []⟩

/-- The graph of a list of fields. -/
def ofItems (items : List Source) (ending : Ending) : Except Fault Graph := do
  let (nodes, rest) ← takeItem (Decoder.list Node.decode) ending items
  let (edges, rest) ← takeItem (Decoder.list Edge.decode) ending rest
  noMoreItems items.length ending rest
  return ⟨nodes.getD [], edges.getD []⟩

/-- Read a graph. -/
def decode : Decoder Graph := Decoder.record "PgGraph" ofMembers ofItems

/-- The graph of a value. -/
def ofJson (v : Json) : Except Fault Graph := decode (.ofJson v)

/-- The graph of a text. -/
def ofText (text : String) : Except Fault Graph := Decoder.ofText decode text

/-- How a graph that cannot be read is reported. -/
def faultMessage (fault : Fault) : String := "malformed PG-JSON graph: " ++ fault.message

end Graph

end DatasetGraph
