import DatasetGraph.Json.Printer
import DatasetGraph.Kind

/-!
# Property graphs

The form in which metadata is exchanged, stored and returned: nodes and directed edges, both with
labels and with properties.  Nothing is asked of a graph as such.  Ids may repeat, edges may end
outside, any text is a label; what an ingest does with such things is decided by the store.

`Graph.canonical` forgets the order in which a graph was listed.
-/

namespace DatasetGraph

/-- What is known of a node or an edge. -/
abbrev Properties := KeyMap Json

/-- A node. -/
structure Node where
  id : String
  labels : List String
  properties : Properties
deriving DecidableEq

/-- An edge, with the ids of the nodes it joins. -/
structure Edge where
  source : String
  target : String
  labels : List String
  properties : Properties
deriving DecidableEq

/-- A graph. -/
structure Graph where
  nodes : List Node
  edges : List Edge
deriving DecidableEq

/-- Texts in increasing order. -/
def sortTexts (texts : List String) : List String := texts.mergeSort fun a b => a ≤ b

namespace Properties

/-- The object of the properties. -/
def toJson (p : Properties) : Json := .ofMap p

/-- The text of the properties.  Their keys have one order, so properties have one text; properties
that are equal but for the signs of zeros have different ones. -/
def text (p : Properties) : String := p.toJson.compact

/-- The properties that are read back from their text. -/
def reread (p : Properties) : Properties := KeyMap.mapValues p Json.reread

end Properties

namespace Node

/-- Whether the node carries a label. -/
def hasLabel (n : Node) (l : Label) : Bool := n.labels.contains l.token

/-- Whether the node is the root of a dataset. -/
def isDataset (n : Node) : Bool := n.hasLabel .dataset

/-- Whether the node hangs off datasets. -/
def isDependent (n : Node) : Bool := Family.isDependent n.labels

theorem hasLabel_iff {n : Node} {l : Label} : n.hasLabel l = true ↔ l.token ∈ n.labels := by
  rw [hasLabel, List.contains_iff_mem]

theorem isDependent_iff {n : Node} :
    n.isDependent = true ↔ ∃ f : Family, ∃ l ∈ f.labels, n.hasLabel l = true := by
  simp only [isDependent, Family.isDependent_iff, hasLabel_iff]

/-- The node as it is written. -/
def toJson (n : Node) : Json :=
  .obj [("id", .str n.id), ("labels", .ofTexts n.labels), ("properties", .ofMap n.properties)]

end Node

/-- What identifies an edge: its ends and its labels in order. -/
structure EdgeKey where
  source : String
  target : String
  labels : List String
deriving DecidableEq

namespace Edge

/-- An edge with one label and no properties. -/
def plain (source target label : String) : Edge := ⟨source, target, [label], .empty⟩

/-- What identifies the edge. -/
def key (e : Edge) : EdgeKey := ⟨e.source, e.target, sortTexts e.labels⟩

/-- The end of the edge that is not `id`; of a loop, `id` itself. -/
def otherEnd (e : Edge) (id : String) : String := if e.source = id then e.target else e.source

/-- The edge as it is written. -/
def toJson (e : Edge) : Json :=
  .obj [("from", .str e.source), ("to", .str e.target), ("labels", .ofTexts e.labels),
    ("properties", .ofMap e.properties)]

end Edge

namespace Graph

/-- The graph with nothing in it. -/
def empty : Graph := ⟨[], []⟩

/-- Whether there is nothing in the graph. -/
def isEmpty (g : Graph) : Bool := g.nodes.isEmpty && g.edges.isEmpty

/-- The first node with an id. -/
def node? (g : Graph) (id : String) : Option Node := g.nodes.find? fun n => n.id = id

/-- The edges with a label that leave a node. -/
def edgesFrom (g : Graph) (source label : String) : List Edge :=
  g.edges.filter fun e => e.source = source && e.labels.contains label

/-- The graph as it is written. -/
def toJson (g : Graph) : Json :=
  .obj [("nodes", .arr (g.nodes.map Node.toJson)), ("edges", .arr (g.edges.map Edge.toJson))]

/-! ## The canonical form -/

/-- The order of edges in canonical form: by ends, then labels, then the text of the properties. -/
def compareEdges (a b : Edge) : Ordering :=
  (compare a.source b.source).then <|
    (compare a.target b.target).then <|
      (compare a.labels b.labels).then (compare a.properties.text b.properties.text)

/-- The graph with its nodes, its edges and the labels of each in increasing order. -/
def canonical (g : Graph) : Graph where
  nodes := (g.nodes.map fun n => { n with labels := sortTexts n.labels }).mergeSort
    fun a b => (compare a.id b.id).isLE
  edges := (g.edges.map fun e => { e with labels := sortTexts e.labels }).mergeSort
    fun a b => (compareEdges a b).isLE

end Graph

theorem sortTexts_perm (texts : List String) : (sortTexts texts).Perm texts :=
  List.mergeSort_perm texts _

@[simp] theorem mem_sortTexts {texts : List String} {s : String} :
    s ∈ sortTexts texts ↔ s ∈ texts := (sortTexts_perm texts).mem_iff

end DatasetGraph
