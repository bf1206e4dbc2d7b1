import DatasetGraph.Json.Reader
import DatasetGraph.Store.Basic

/-!
# A store in tables

Three tables: the properties of each node, the labels of nodes in the order in which they were
given, and the relationships.  A node and each of its labels are in their table once; so is a
relationship of given ends and type.  Deleting a node deletes its labels and the relationships that
touch it.

Properties are kept as text.  A row stands here for its text with what the text says: its properties
are those that are written, with every value reread (`Json.reread`).  They are what is read back
(`Json.readBack?`) as long as lists and objects are nested no deeper than texts are read; a text that
is nested deeper can be written, but not read.

Nodes with a label come in the order of their ids, relationships of a node in the order of their
ends and type.
-/

namespace DatasetGraph

/-- A row of the table of nodes. -/
structure NodeRow where
  id : String
  properties : Properties
deriving DecidableEq

/-- A row of the table of labels. -/
structure LabelRow where
  id : String
  label : Identifier
deriving DecidableEq

/-- Three tables. -/
structure TableStore where
  nodes : List NodeRow
  labels : List LabelRow
  edges : List StoredEdge
deriving DecidableEq

/-- Whether the text of properties is nested no deeper than texts are read. -/
def Properties.isLegible (p : Properties) : Bool := p.toJson.depth ≤ Json.maxDepth

namespace TableStore

/-- The labels of a node, in the order in which they were given. -/
def labelsOf (s : TableStore) (id : String) : List Identifier :=
  (s.labels.filter fun r => r.id = id).map LabelRow.label

/-- The node with an id. -/
def node? (s : TableStore) (id : String) : Option StoredNode :=
  (s.nodes.find? fun r => r.id = id).map fun r => ⟨id, s.labelsOf id, r.properties⟩

/-- The properties of the relationship with a key. -/
def edge? (s : TableStore) (k : RelationKey) : Option Properties :=
  (s.edges.find? fun e => e.key = k).map StoredEdge.properties

/-- The nodes with a label, in order of their ids. -/
def labelled (s : TableStore) (label : Identifier) : List StoredNode :=
  let ids := (s.labels.filter fun r => r.label = label).map LabelRow.id
  (ids.mergeSort fun a b => a ≤ b).filterMap s.node?

/-- The order of relationships: by ends, then type. -/
def compareEdges (a b : StoredEdge) : Ordering :=
  (compare a.source b.source).then <|
    (compare a.target b.target).then (compare a.type.text b.type.text)

/-- The relationships that touch a node, in order. -/
def incident (s : TableStore) (id : String) : List StoredEdge :=
  (s.edges.filter (·.touches id)).mergeSort fun a b => (compareEdges a b).isLE

/-- The relationships that touch one of the given nodes, the first of each key. -/
def incidentAll (s : TableStore) (ids : List String) : List StoredEdge :=
  distinctOn StoredEdge.key (ids.flatMap s.incident)

/-- Lay properties over those of a row. -/
def NodeRow.merge (r : NodeRow) (p : Properties) : NodeRow :=
  { r with properties := Properties.reread (r.properties.overlay p) }

/-- Write the properties of a node and the labels that are new. -/
def mergeNode (s : TableStore) (n : StoredNode) : TableStore :=
  { s with
    nodes := updateOrAppend (fun r => r.id = n.id) (NodeRow.merge · n.properties)
      ⟨n.id, n.properties.reread⟩ s.nodes
    labels := addNew s.labels (n.labels.map (LabelRow.mk n.id)) }

/-- Write a relationship. -/
def mergeEdge (s : TableStore) (e : StoredEdge) : TableStore :=
  { s with
    edges := updateOrAppend (fun f => f.key = e.key)
      (fun f => { f with properties := Properties.reread (f.properties.overlay e.properties) })
      { e with properties := e.properties.reread } s.edges }

/-- Change properties of a node. -/
def updateNode (s : TableStore) (u : PropertyUpdate) : TableStore :=
  { s with
    nodes := s.nodes.map fun r =>
      if r.id = u.id then
        { r with properties := Properties.reread (r.properties.update u.properties) }
      else r }

/-- Remove a node with its labels and the relationships that touch it. -/
def deleteNode (s : TableStore) (id : String) : TableStore where
  nodes := s.nodes.filter fun r => r.id ≠ id
  labels := s.labels.filter fun r => r.id ≠ id
  edges := s.edges.filter fun e => !e.touches id

instance : Backend TableStore where
  empty := ⟨[], [], []⟩
  legible := Properties.isLegible
  node? := node?
  edge? := edge?
  labelled := labelled
  incidentAll := incidentAll
  mergeNode := mergeNode
  mergeEdge := mergeEdge
  updateNode := updateNode
  deleteNode := deleteNode

end TableStore

end DatasetGraph
