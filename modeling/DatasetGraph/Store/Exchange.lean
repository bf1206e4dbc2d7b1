import DatasetGraph.Store.Basic

/-!
# Graphs in and out of a store

Graphs are written to a store and read from it through the stored form.  Labels and relationships
are escaped on the way in and restored on the way out; an empty list becomes a marker and the marker
an empty list; `null` is not kept; an edge with several labels becomes as many relationships.

A node without an id and an edge without a label are passed over, and so is a relationship one of
whose ends is not stored.  A label that is empty is an error, which is found before anything is
written.  An ingest writes the nodes and then the edges, so an edge with an empty label leaves the
nodes written, and so does a relationship whose properties cannot be read.
-/

namespace DatasetGraph

/-! ## Properties -/

/-- What stands for an empty list in a store. -/
def emptyListMarker : String := "__moma_empty_list__"

/-- Put the marker for an empty list. -/
def Json.markEmpty : Json → Json
  | .arr [] => .str emptyListMarker
  | v => v

/-- Put an empty list for the marker. -/
def Json.unmarkEmpty : Json → Json
  | .str s => if s = emptyListMarker then .arr [] else .str s
  | v => v

namespace Properties

/-- Properties with empty lists marked. -/
def mark (p : Properties) : Properties := p.mapValues Json.markEmpty

/-- Properties as they are stored. -/
def encode (p : Properties) : Properties := p.mark.filter fun _ v => !v.isNull

/-- Stored properties as they are read. -/
def decode (p : Properties) : Properties := p.mapValues Json.unmarkEmpty

end Properties

/-! ## Nodes and edges -/

/-- The stored form of a node. -/
def Node.toStored (n : Node) : Except InvalidIdentifier StoredNode := do
  let labels ← n.labels.mapM Identifier.ofToken
  return ⟨n.id, distinct labels, n.properties.encode⟩

/-- The relationships of an edge. -/
def Edge.toStored (e : Edge) : Except InvalidIdentifier (List StoredEdge) :=
  e.labels.mapM fun l => return ⟨e.source, e.target, ← Identifier.ofToken l, e.properties.encode⟩

/-- A stored node as it is read. -/
def StoredNode.toNode (n : StoredNode) : Except InvalidIdentifier Node := do
  let labels ← n.labels.mapM Identifier.token
  return ⟨n.id, labels, n.properties.decode⟩

/-- A relationship as it is read. -/
def StoredEdge.toEdge (e : StoredEdge) : Except InvalidIdentifier Edge := do
  let label ← e.type.token
  return ⟨e.source, e.target, [label], e.properties.decode⟩

/-- What an ingest did with nodes and with edges. -/
structure IngestStatus where
  nodes : WriteCount
  edges : WriteCount
deriving DecidableEq

/-- The status as it is written. -/
def IngestStatus.toJson (s : IngestStatus) : Json :=
  .obj [("nodes", s.nodes.toJson), ("edges", s.edges.toJson)]

namespace Store

variable {σ : Type} [Backend σ]

/-! ## Writing -/

/-- Write the nodes of a graph. -/
def upsertNodes (s : σ) (g : Graph) : Except StoreError (WriteCount × σ) := do
  let stored ← ((g.nodes.filter fun n => n.id ≠ "").mapM Node.toStored).mapError .identifier
  let (count, s) ← Backend.mergeNodes s stored
  let skipped := (g.nodes.filter fun n => n.id = "").length
  return ({ count with skipped := count.skipped + skipped }, s)

/-- Write the edges of a graph. -/
def upsertEdges (s : σ) (g : Graph) : Except StoreError (WriteCount × σ) := do
  let stored ← (g.edges.mapM Edge.toStored).mapError .identifier
  let (count, s) ← Backend.mergeEdges s stored.flatten
  let skipped := (g.edges.filter fun e => e.labels.isEmpty).length
  return ({ count with skipped := count.skipped + skipped }, s)

/-- Write the nodes and then the edges of a graph.  When the edges cannot be written, the store
keeps the nodes. -/
def ingest (s : σ) (g : Graph) : Except StoreError IngestStatus × σ :=
  match upsertNodes s g with
  | .error e => (.error e, s)
  | .ok (nodes, s) =>
    match upsertEdges s g with
    | .error e => (.error e, s)
    | .ok (edges, s) => (.ok ⟨nodes, edges⟩, s)

/-! ## Reading -/

/-- The nodes with the given ids, in that order, without those that are not stored. -/
def readNodes (s : σ) (ids : List String) : Except StoreError (List Node) := do
  ((← Backend.nodes s ids).mapM StoredNode.toNode).mapError .identifier

/-- The graph of one node, or the empty graph. -/
def readNode (s : σ) (id : String) : Except StoreError Graph := do
  return ⟨← readNodes s [id], []⟩

/-- The edges that touch one of the given nodes. -/
def incidentEdges (s : σ) (ids : List String) : Except StoreError (List Edge) := do
  ((← Backend.incidentEdges s ids).mapM StoredEdge.toEdge).mapError .identifier

/-- The nodes with a registered label, in order of their ids. -/
def nodesWithLabel (s : σ) (l : Label) : Except StoreError (List Node) := do
  ((← Backend.nodesLabelled s (Identifier.ofLabel l)).mapM StoredNode.toNode).mapError .identifier

/-- The roots of datasets, in order of their ids. -/
def datasetRoots (s : σ) : Except StoreError (List Node) := nodesWithLabel s .dataset

end Store

end DatasetGraph
