import DatasetGraph.Store.Basic

/-!
# A store in memory

A graph of nodes at numbered places, with an index that says at which place the node of an id is.
A node keeps its place until it is removed; a place that has become free is taken again.

Properties are kept as they are given and can always be read.  Relationships join places, not ids,
and each has a serial number by which it is told from all others.  They are kept with the newest
first.  The relationships of a node are listed as its outgoing ones and then its incoming ones, each
once, so a loop counts as outgoing.
-/

namespace DatasetGraph

/-- Take over the labels and properties of another node. -/
def StoredNode.merge (n m : StoredNode) : StoredNode :=
  { n with labels := addNew n.labels m.labels, properties := n.properties.overlay m.properties }

/-- A relationship between two places. -/
structure Link where
  /-- What tells the relationship from all others. -/
  serial : Nat
  source : Nat
  target : Nat
  type : Identifier
  properties : Properties
deriving DecidableEq

/-- The places that a relationship joins, and its type. -/
def Link.ends (l : Link) : Nat × Nat × Identifier := (l.source, l.target, l.type)

/-- Whether a relationship starts or ends at a place. -/
def Link.touches (l : Link) (place : Nat) : Bool := l.source = place || l.target = place

/-- Take over further properties. -/
def Link.merge (l : Link) (p : Properties) : Link :=
  { l with properties := l.properties.overlay p }

/-- Nodes and relationships in memory. -/
structure AdjacencyStore where
  /-- The node at each place, if the place is taken. -/
  places : List (Option StoredNode)
  /-- The place of the node with an id. -/
  index : KeyMap Nat
  /-- The newest first. -/
  links : List Link
  /-- The serial number of the relationship that is added next. -/
  nextSerial : Nat
deriving DecidableEq

/-! ## Places -/

/-- The first place that is free, behind all places if none is. -/
def firstFree {α : Type} : List (Option α) → Nat
  | [] => 0
  | none :: _ => 0
  | some _ :: ps => firstFree ps + 1

/-- Take the first place that is free. -/
def occupy {α : Type} (x : α) : List (Option α) → List (Option α)
  | [] => [some x]
  | none :: ps => some x :: ps
  | some y :: ps => some y :: occupy x ps

/-- Change the first member that passes. -/
def changeFirst {α : Type} (passes : α → Bool) (change : α → α) : List α → List α
  | [] => []
  | x :: xs => if passes x then change x :: xs else x :: changeFirst passes change xs

theorem getElem?_firstFree {α : Type} (ps : List (Option α)) : ps[firstFree ps]?.join = none := by
  induction ps with
  | nil => rfl
  | cons p ps ih =>
    cases p with
    | none => rfl
    | some x =>
      rw [firstFree, List.getElem?_cons_succ]
      exact ih

theorem getElem?_occupy {α : Type} (x : α) (ps : List (Option α)) (i : Nat) :
    (occupy x ps)[i]?.join = if i = firstFree ps then some x else ps[i]?.join := by
  induction ps generalizing i with
  | nil => cases i <;> simp [occupy, firstFree]
  | cons p ps ih =>
    cases p with
    | none => cases i <;> simp [occupy, firstFree]
    | some y =>
      cases i with
      | zero => simp [occupy, firstFree]
      | succ i => simp [occupy, firstFree, ih]

theorem find?_changeFirst {α κ : Type} [DecidableEq κ] (key : α → κ) {k : κ} {change : α → α}
    (h : ∀ x, key (change x) = key x) (xs : List α) (j : κ) :
    (changeFirst (fun x => key x = k) change xs).find? (fun x => key x = j) =
      if j = k then (xs.find? fun x => key x = k).map change
      else xs.find? fun x => key x = j := by
  induction xs with
  | nil => simp [changeFirst]
  | cons x xs ih =>
    rw [changeFirst]
    by_cases hx : key x = k
    · by_cases hj : j = k
      · simp [hx, hj, h]
      · simp [hx, h, hj, Ne.symm hj]
    · rw [if_neg (by simpa using hx), List.find?_cons, List.find?_cons, List.find?_cons, ih]
      by_cases hj : j = k
      · subst hj
        simp [hx]
      · simp [hj]

theorem map_changeFirst {α κ : Type} (key : α → κ) {passes : α → Bool} {change : α → α}
    (h : ∀ x, key (change x) = key x) (xs : List α) :
    (changeFirst passes change xs).map key = xs.map key := by
  induction xs with
  | nil => rfl
  | cons x xs ih =>
    rw [changeFirst]
    split
    · rw [List.map_cons, List.map_cons, h]
    · rw [List.map_cons, List.map_cons, ih]

namespace AdjacencyStore

/-! ## Reading -/

/-- The node at a place. -/
def at? (s : AdjacencyStore) (place : Nat) : Option StoredNode := s.places[place]?.join

/-- The node with an id. -/
def node? (s : AdjacencyStore) (id : String) : Option StoredNode := (s.index.get? id).bind s.at?

/-- The nodes that are kept. -/
def nodes (s : AdjacencyStore) : List StoredNode := s.places.filterMap id

/-- A relationship with the ids of the nodes that it joins. -/
def edge? (s : AdjacencyStore) (l : Link) : Option StoredEdge := do
  let source ← s.at? l.source
  let target ← s.at? l.target
  return ⟨source.id, target.id, l.type, l.properties⟩

/-- The relationships that are kept, the newest first. -/
def edges (s : AdjacencyStore) : List StoredEdge := s.links.filterMap s.edge?

/-- The properties of the relationship with a key. -/
def properties? (s : AdjacencyStore) (k : RelationKey) : Option Properties := do
  let source ← s.index.get? k.source
  let target ← s.index.get? k.target
  return (← s.links.find? fun l => l.ends = (source, target, k.type)).properties

/-- The nodes with a label, in order of their ids. -/
def labelled (s : AdjacencyStore) (label : Identifier) : List StoredNode :=
  (s.nodes.filter fun n => n.labels.contains label).mergeSort fun a b => a.id ≤ b.id

/-- The relationships that start at a place and then those that end there. -/
def linksAt (s : AdjacencyStore) (place : Nat) : List Link :=
  (s.links.filter fun l => l.source = place) ++ s.links.filter fun l => l.target = place

/-- The relationships of the given nodes, each once. -/
def incidentAll (s : AdjacencyStore) (ids : List String) : List StoredEdge :=
  (distinctOn Link.serial ((ids.filterMap s.index.get?).flatMap s.linksAt)).filterMap s.edge?

/-! ## Writing -/

/-- Change the node at a place. -/
def changeAt (s : AdjacencyStore) (place : Nat) (change : StoredNode → StoredNode) :
    AdjacencyStore :=
  { s with places := s.places.modify place (Option.map change) }

/-- Give a node a place, or merge it into the one with its id. -/
def mergeNode (s : AdjacencyStore) (n : StoredNode) : AdjacencyStore :=
  match s.index.get? n.id with
  | some place => s.changeAt place (·.merge n)
  | none =>
    { s with places := occupy n s.places, index := s.index.insert n.id (firstFree s.places) }

/-- Add a relationship between two places, or merge it into the one that joins them. -/
def mergeLink (s : AdjacencyStore) (source target : Nat) (type : Identifier) (p : Properties) :
    AdjacencyStore :=
  if s.links.any fun l => l.ends = (source, target, type) then
    { s with links := changeFirst (fun l => l.ends = (source, target, type)) (·.merge p) s.links }
  else
    { s with
      links := ⟨s.nextSerial, source, target, type, p⟩ :: s.links
      nextSerial := s.nextSerial + 1 }

/-- Add a relationship, or merge it into the one with its ends and type, if its ends are there. -/
def mergeEdge (s : AdjacencyStore) (e : StoredEdge) : AdjacencyStore :=
  match s.index.get? e.source, s.index.get? e.target with
  | some source, some target => s.mergeLink source target e.type e.properties
  | _, _ => s

/-- Change properties of a node. -/
def updateNode (s : AdjacencyStore) (u : PropertyUpdate) : AdjacencyStore :=
  match s.index.get? u.id with
  | some place =>
    s.changeAt place fun n => { n with properties := n.properties.update u.properties }
  | none => s

/-- Remove a node and the relationships that touch it. -/
def deleteNode (s : AdjacencyStore) (id : String) : AdjacencyStore :=
  match s.index.get? id with
  | some place =>
    { s with
      places := s.places.set place none
      index := s.index.erase id
      links := s.links.filter fun l => !l.touches place }
  | none => s

instance : Backend AdjacencyStore where
  empty := ⟨[], .empty, [], 0⟩
  legible _ := true
  node? := node?
  edge? := properties?
  labelled := labelled
  incidentAll := incidentAll
  mergeNode := mergeNode
  mergeEdge := mergeEdge
  updateNode := updateNode
  deleteNode := deleteNode

end AdjacencyStore

end DatasetGraph
