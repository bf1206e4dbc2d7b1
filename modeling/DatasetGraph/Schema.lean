import DatasetGraph.Graph.Basic

/-!
# The schema of labels

A node meets the schema if it has a label, if all its labels are allowed, and if they include all
that some kind asks for.  A report names the nodes that fail, in the order of the graph; a node
without a label is named for that alone.

A strict report is valid when it names no node, a lenient one when every node has a label.
-/

namespace DatasetGraph

/-- A node that fails a check, with its labels. -/
structure Finding where
  id : String
  labels : List String
deriving DecidableEq

/-- Name a node. -/
def Finding.ofNode (n : Node) : Finding := ⟨n.id, n.labels⟩

/-- The finding as it is written. -/
def Finding.toJson (f : Finding) : Json := .obj [("id", .str f.id), ("labels", .ofTexts f.labels)]

namespace Node

/-- Whether the node has no label. -/
def isUnlabelled (n : Node) : Bool := n.labels.isEmpty

/-- Whether the node has labels, one of which is not allowed. -/
def hasUnknownLabel (n : Node) : Bool := n.labels.any fun l => !Label.isAllowed l

/-- Whether the node has labels, and no kind is satisfied by them. -/
def isKindless (n : Node) : Bool := !n.isUnlabelled && (Kind.classify? n.labels).isNone

/-- Whether the node meets the schema. -/
def meetsSchema (n : Node) : Bool := !n.isUnlabelled && !n.hasUnknownLabel && !n.isKindless

end Node

/-- What a validation found. -/
structure Report where
  totalNodes : Nat
  invalidNodes : List Finding
  unknownLabels : List Finding
  nodesWithoutLabels : List String
  strict : Bool
deriving DecidableEq

namespace Report

/-- Whether any check named a node. -/
def hasFindings (r : Report) : Bool :=
  !r.invalidNodes.isEmpty || !r.unknownLabels.isEmpty || !r.nodesWithoutLabels.isEmpty

/-- Whether the graph is accepted. -/
def isValid (r : Report) : Bool :=
  r.nodesWithoutLabels.isEmpty && !(r.strict && r.hasFindings)

/-- The report as it is written. -/
def toJson (r : Report) : Json :=
  .obj [("total_nodes", .ofNat r.totalNodes),
    ("invalid_nodes", .arr (r.invalidNodes.map Finding.toJson)),
    ("unknown_labels", .arr (r.unknownLabels.map Finding.toJson)),
    ("nodes_without_labels", .ofTexts r.nodesWithoutLabels),
    ("is_valid", .bool r.isValid), ("strict", .bool r.strict)]

end Report

/-- Check the nodes of a graph. -/
def Graph.validate (g : Graph) (strict : Bool) : Report where
  totalNodes := g.nodes.length
  invalidNodes := (g.nodes.filter Node.isKindless).map Finding.ofNode
  unknownLabels := (g.nodes.filter Node.hasUnknownLabel).map Finding.ofNode
  nodesWithoutLabels := (g.nodes.filter Node.isUnlabelled).map Node.id
  strict := strict

end DatasetGraph
