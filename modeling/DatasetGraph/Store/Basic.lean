import DatasetGraph.Graph.Merge
import DatasetGraph.Identifier

/-!
# What a store keeps

A store keeps nodes and edges in a form of its own: labels and relationships as identifiers, one
relationship an edge, properties without `null`.  This module holds the stored form, the two ways in
which properties are changed, and what a storage backend has to offer.

A backend says what it keeps and offers one operation for each thing that can happen to a single
node or edge.  What an operation on a list of them does, and what it reports, is the same on every
backend and is defined here once, on top of those.

What is kept need not be legible: a backend may keep properties that it cannot read again.  Whatever
has to read them fails then (`StoreError.unreadable`), a merge or an update as well, which lays new
properties over what it reads.  A list of writes is one transaction, so it fails as a whole.
-/

namespace DatasetGraph

/-- A node as it is kept. -/
structure StoredNode where
  id : String
  /-- In the order in which they were first given. -/
  labels : List Identifier
  properties : Properties
deriving DecidableEq

/-- A relationship as it is kept. -/
structure StoredEdge where
  source : String
  target : String
  type : Identifier
  properties : Properties
deriving DecidableEq

/-- What identifies a relationship. -/
structure RelationKey where
  source : String
  target : String
  type : Identifier
deriving DecidableEq

/-- New values for properties of a node; `null` removes one. -/
structure PropertyUpdate where
  id : String
  properties : Properties
deriving DecidableEq

/-- What identifies the relationship. -/
def StoredEdge.key (e : StoredEdge) : RelationKey := ⟨e.source, e.target, e.type⟩

/-- Whether a relationship starts or ends at a node. -/
def StoredEdge.touches (e : StoredEdge) (id : String) : Bool := e.source = id || e.target = id

/-- How many elements were written and how many were passed over. -/
structure WriteCount where
  written : Nat := 0
  skipped : Nat := 0
deriving DecidableEq

/-- The counts as they are written. -/
def WriteCount.toJson (c : WriteCount) : Json :=
  .obj [("written", .ofNat c.written), ("skipped", .ofNat c.skipped)]

/-- Why a store does not do what it is asked. -/
inductive StoreError where
  /-- A label or relationship that has no stored form, or a stored form that has no label. -/
  | identifier (error : InvalidIdentifier)
  /-- Properties that are kept cannot be read. -/
  | unreadable
deriving DecidableEq

/-- The wording of the error, without the place in the text of the properties. -/
def StoreError.message : StoreError → String
  | .identifier e => e.message
  | .unreadable => "serialization error: recursion limit exceeded"

/-! ## Changing properties -/

namespace Properties

/-- Change one property: `null` removes it, and the id of a node is no property. -/
def set (p : Properties) (key : String) (v : Json) : Properties :=
  if key = "id" then p else if v.isNull then p.erase key else p.insert key v

/-- Change the properties that an update mentions. -/
def update (p u : Properties) : Properties := u.entries.foldl (fun p e => p.set e.1 e.2) p

theorem get?_set (p : Properties) (key : String) (v : Json) (k : String) :
    (p.set key v).get? k =
      if k = key ∧ key ≠ "id" then if v.isNull then none else some v else p.get? k := by
  unfold set
  by_cases hid : key = "id"
  · rw [if_pos hid, if_neg fun h => h.2 hid]
  · rw [if_neg hid]
    cases hv : v.isNull with
    | true =>
      rw [if_pos rfl, KeyMap.get?_erase]
      simp [hid]
    | false =>
      rw [if_neg (by decide), KeyMap.get?_insert]
      simp [hid]

theorem get?_foldl_set {l : List (String × Json)} (h : l.Pairwise fun a b => a.1 < b.1)
    (p : Properties) (k : String) :
    (l.foldl (fun p e => p.set e.1 e.2) p).get? k =
      if k = "id" then p.get? k
      else ((l.lookup k).map fun v => if v.isNull then none else some v).getD (p.get? k) := by
  induction l generalizing p with
  | nil => simp
  | cons e rest ih =>
    obtain ⟨j, v⟩ := e
    obtain ⟨hj, hrest⟩ := List.pairwise_cons.1 h
    rw [List.foldl_cons, ih hrest, KeyMap.lookup_cons_eq, get?_set]
    by_cases hk : k = j
    · subst hk
      have hnone : rest.lookup k = none := by
        cases hl : rest.lookup k with
        | none => rfl
        | some w => exact absurd (hj _ ((KeyMap.lookup_eq_some_iff hrest).1 hl)) (String.lt_irrefl _)
      by_cases hid : k = "id" <;> simp [hnone, hid]
    · simp [hk]

/-- What an update mentions is removed by `null` and replaced by any other value; the id stays. -/
theorem get?_update (p u : Properties) (k : String) :
    (p.update u).get? k =
      if k = "id" then p.get? k
      else ((u.get? k).map fun v => if v.isNull then none else some v).getD (p.get? k) :=
  get?_foldl_set u.sorted p k

/-- An update brings no other values than its own, and `null` not even then. -/
theorem all_update {P : Json → Prop} {p u : Properties} (hp : p.All P)
    (hu : u.All fun v => v.isNull = false → P v) : (p.update u).All P := by
  intro k v hv
  rw [get?_update] at hv
  split at hv
  · exact hp k v hv
  · cases hku : u.get? k with
    | none => exact hp k v (by simpa [hku] using hv)
    | some w =>
      cases hw : w.isNull with
      | true => simp [hku, hw] at hv
      | false =>
        have : w = v := by simpa [hku, hw] using hv
        subst this
        exact hu k w hku hw

end Properties

/-! ## Backends -/

/-- What a storage backend offers. -/
class Backend (σ : Type) where
  /-- The store with nothing in it. -/
  empty : σ
  /-- Whether properties that are kept can be read. -/
  legible : Properties → Bool
  /-- The node with an id. -/
  node? : σ → String → Option StoredNode
  /-- The properties of the relationship with a key. -/
  edge? : σ → RelationKey → Option Properties
  /-- The nodes with a label, in increasing order of their ids. -/
  labelled : σ → Identifier → List StoredNode
  /-- The relationships that start or end at one of the given nodes, each once, in the backend's own
  order. -/
  incidentAll : σ → List String → List StoredEdge
  /-- Add a node, or its labels and properties to the node with its id. -/
  mergeNode : σ → StoredNode → σ
  /-- Add a relationship between stored nodes, or its properties to the one with its key. -/
  mergeEdge : σ → StoredEdge → σ
  /-- Change properties of a node, if it is there. -/
  updateNode : σ → PropertyUpdate → σ
  /-- Remove a node, if it is there, and all relationships that touch it. -/
  deleteNode : σ → String → σ

namespace Backend

variable {σ : Type} [Backend σ]

/-- Whether a node with an id is stored. -/
def hasNode (s : σ) (id : String) : Bool := (node? s id).isSome

/-! ## Reading -/

/-- Fail if properties cannot be read. -/
def check (σ : Type) [Backend σ] (p : Properties) : Except StoreError Unit :=
  if legible σ p then .ok () else .error .unreadable

/-- Fail if there are properties that cannot be read. -/
def check? (σ : Type) [Backend σ] : Option Properties → Except StoreError Unit
  | some p => check σ p
  | none => .ok ()

/-- Read nodes or relationships that are kept. -/
def readAll (σ : Type) [Backend σ] {α : Type} (properties : α → Properties) (xs : List α) :
    Except StoreError (List α) :=
  xs.mapM fun x => do
    check σ (properties x)
    return x

/-- The nodes with the given ids, in that order, without those that are not stored. -/
def nodes (s : σ) (ids : List String) : Except StoreError (List StoredNode) :=
  readAll σ StoredNode.properties (ids.filterMap (node? s))

/-- The nodes with a label, in increasing order of their ids. -/
def nodesLabelled (s : σ) (l : Identifier) : Except StoreError (List StoredNode) :=
  readAll σ StoredNode.properties (labelled s l)

/-- The relationships that start or end at one of the given nodes, each once. -/
def incidentEdges (s : σ) (ids : List String) : Except StoreError (List StoredEdge) :=
  readAll σ StoredEdge.properties (incidentAll s ids)

/-! ## Writing -/

/-- Lay a node over what is read of the one with its id. -/
def mergeNodeChecked (s : σ) (n : StoredNode) : Except StoreError σ := do
  check? σ ((node? s n.id).map StoredNode.properties)
  return mergeNode s n

/-- Merge nodes one after the other. -/
def mergeNodes (s : σ) (ns : List StoredNode) : Except StoreError (WriteCount × σ) := do
  return (⟨ns.length, 0⟩, ← ns.foldlM mergeNodeChecked s)

/-- Lay a relationship over what is read of the one with its key, if both its ends are stored, and
count it. -/
def mergeEdgeChecked (acc : WriteCount × σ) (e : StoredEdge) : Except StoreError (WriteCount × σ) :=
  let (c, s) := acc
  if hasNode s e.source && hasNode s e.target then do
    check? σ (edge? s e.key)
    return ({ c with written := c.written + 1 }, mergeEdge s e)
  else return ({ c with skipped := c.skipped + 1 }, s)

/-- Merge relationships one after the other. -/
def mergeEdges (s : σ) (es : List StoredEdge) : Except StoreError (WriteCount × σ) :=
  es.foldlM mergeEdgeChecked ({}, s)

/-- Change the properties that are read of a stored node, and count it. -/
def updateNodeChecked (acc : Nat × σ) (u : PropertyUpdate) : Except StoreError (Nat × σ) :=
  let (n, s) := acc
  match node? s u.id with
  | some m => do
    check σ m.properties
    return (n + 1, updateNode s u)
  | none => return (n, s)

/-- Apply updates one after the other; the number is that of updates of stored nodes. -/
def updateNodes (s : σ) (us : List PropertyUpdate) : Except StoreError (Nat × σ) :=
  us.foldlM updateNodeChecked (0, s)

/-- Remove a stored node, and count it. -/
def deleteNodeCounted (acc : Nat × σ) (id : String) : Nat × σ :=
  let (n, s) := acc
  if hasNode s id then (n + 1, deleteNode s id) else (n, s)

/-- Remove nodes one after the other; the number is that of nodes that were there.  Nothing has to be
read for that. -/
def deleteNodes (s : σ) (ids : List String) : Nat × σ := ids.foldl deleteNodeCounted (0, s)

end Backend

end DatasetGraph
