import DatasetGraph.Store.Basic
import Mathlib.Data.List.Nodup

/-!
# What a store holds

Whatever way a backend lays out its data, a store holds at most one node of each id and at most one
relationship of each key.  `Contents` says just that, as two functions, and the four writes of a
backend are operations on it.  It leaves out every order, and everything that serves only to find
things.

A backend is *lawful* (`LawfulBackend`) if each of its writes does to the contents what the
operation says, and if its lists of nodes and relationships hold the contents, each element once.
The laws are asked for of *sound* stores only: what soundness means is each backend's own matter,
as long as the empty store is sound and every write keeps it so.

A backend need not keep a value as it was given.  Its function `settle` says what becomes of a value
that is written; it keeps `null` apart from other values, and so the empty list.  Nor need it be able
to read every value again: those that it can are the values that *fit* (`LawfulBackend.Fits`).
-/

namespace DatasetGraph

/-- What is in a store. -/
@[ext] structure Contents where
  /-- The node with an id. -/
  node? : String → Option StoredNode
  /-- The properties of the relationship with a key. -/
  edge? : RelationKey → Option Properties

/-- A relationship of given key and properties. -/
def RelationKey.withProperties (k : RelationKey) (p : Properties) : StoredEdge :=
  ⟨k.source, k.target, k.type, p⟩

/-- Whether a relationship with the key would start or end at a node. -/
def RelationKey.touches (k : RelationKey) (id : String) : Bool := k.source = id || k.target = id

@[simp] theorem RelationKey.key_withProperties (k : RelationKey) (p : Properties) :
    (k.withProperties p).key = k := rfl

@[simp] theorem StoredEdge.key_withProperties (e : StoredEdge) :
    e.key.withProperties e.properties = e := rfl

@[simp] theorem StoredEdge.touches_key (e : StoredEdge) (id : String) :
    e.key.touches id = e.touches id := rfl

theorem StoredEdge.touches_iff {e : StoredEdge} {id : String} :
    e.touches id = true ↔ e.source = id ∨ e.target = id := by
  simp [touches]

namespace Contents

/-! ## The operations -/

/-- Nothing. -/
def empty : Contents := ⟨fun _ => none, fun _ => none⟩

variable (settle : Json → Json)

/-- A node laid over the one that is there. -/
def mergedNode (old : Option StoredNode) (n : StoredNode) : StoredNode :=
  let m := old.getD ⟨n.id, [], .empty⟩
  ⟨n.id, addNew m.labels n.labels, (m.properties.overlay n.properties).mapValues settle⟩

/-- Properties laid over those that are there. -/
def mergedProperties (old : Option Properties) (p : Properties) : Properties :=
  ((old.getD .empty).overlay p).mapValues settle

/-- Lay a node over the one with its id. -/
def mergeNode (c : Contents) (n : StoredNode) : Contents :=
  { c with node? := fun id =>
      if id = n.id then some (mergedNode settle (c.node? id) n) else c.node? id }

/-- Lay a relationship over the one with its key. -/
def mergeEdge (c : Contents) (e : StoredEdge) : Contents :=
  { c with edge? := fun k =>
      if k = e.key then some (mergedProperties settle (c.edge? k) e.properties) else c.edge? k }

/-- A node with its properties changed. -/
def updatedNode (u : Properties) (n : StoredNode) : StoredNode :=
  { n with properties := (n.properties.update u).mapValues settle }

/-- Change properties of a node. -/
def updateNode (c : Contents) (u : PropertyUpdate) : Contents :=
  { c with node? := fun id =>
      if id = u.id then (c.node? id).map (updatedNode settle u.properties) else c.node? id }

/-- Remove a node and the relationships that touch it. -/
def deleteNode (c : Contents) (id : String) : Contents where
  node? := fun j => if j = id then none else c.node? j
  edge? := fun k => if k.touches id then none else c.edge? k

/-! ## What the operations hold -/

variable {settle} {c : Contents}

theorem node?_mergeNode (n : StoredNode) (id : String) : (c.mergeNode settle n).node? id =
    if id = n.id then some (mergedNode settle (c.node? id) n) else c.node? id := rfl

theorem edge?_mergeEdge (e : StoredEdge) (k : RelationKey) : (c.mergeEdge settle e).edge? k =
    if k = e.key then some (mergedProperties settle (c.edge? k) e.properties) else c.edge? k := rfl

theorem node?_updateNode (u : PropertyUpdate) (id : String) : (c.updateNode settle u).node? id =
    if id = u.id then (c.node? id).map (updatedNode settle u.properties) else c.node? id := rfl

theorem node?_deleteNode (id j : String) :
    (c.deleteNode id).node? j = if j = id then none else c.node? j := rfl

theorem edge?_deleteNode (id : String) (k : RelationKey) :
    (c.deleteNode id).edge? k = if k.touches id then none else c.edge? k := rfl

end Contents

/-! ## Lists by a key -/

/-- Of a list whose keys come once, looking for a key finds the member that has it. -/
theorem find?_key_eq_some_iff {α κ : Type} [DecidableEq κ] {key : α → κ} {xs : List α}
    (h : (xs.map key).Nodup) {k : κ} {x : α} :
    (xs.find? fun y => key y = k) = some x ↔ x ∈ xs ∧ key x = k := by
  constructor
  · intro hx
    exact ⟨List.mem_of_find?_eq_some hx, by simpa using List.find?_some hx⟩
  · rintro ⟨hx, rfl⟩
    cases hf : xs.find? fun y => key y = key x with
    | none =>
      have hne := List.find?_eq_none.1 hf x hx
      rw [decide_eq_true_eq] at hne
      exact absurd rfl hne
    | some y =>
      have hy : key y = key x := by simpa using List.find?_some hf
      exact congrArg some (List.inj_on_of_nodup_map h (List.mem_of_find?_eq_some hf) hx hy)

/-- Sorted by keys that come once, a list has strictly increasing keys. -/
theorem pairwise_mergeSort_key {α : Type} {key : α → String} {xs : List α}
    (h : (xs.map key).Nodup) :
    (xs.mergeSort fun x y => key x ≤ key y).Pairwise fun x y => key x < key y := by
  have hle : (xs.mergeSort fun x y => key x ≤ key y).Pairwise
      fun x y => decide (key x ≤ key y) = true := by
    apply List.pairwise_mergeSort
    · intro x y z hxy hyz
      rw [decide_eq_true_eq] at hxy hyz ⊢
      exact String.le_trans hxy hyz
    · intro x y
      simpa using String.le_total (key x) (key y)
  have hne : (xs.mergeSort fun x y => key x ≤ key y).Pairwise fun x y => key x ≠ key y := by
    rw [← List.pairwise_map]
    exact ((List.mergeSort_perm xs _).map key).nodup_iff.2 h
  refine hle.imp₂ ?_ hne
  intro x y hxy hne
  exact KeyMap.lt_of_not_lt_of_ne (String.not_lt.2 (of_decide_eq_true hxy)) (Ne.symm hne)

/-- Two lists with strictly increasing keys and the same members are the same list. -/
theorem eq_of_pairwise_key {α : Type} {key : α → String} {xs ys : List α}
    (hxs : xs.Pairwise fun x y => key x < key y) (hys : ys.Pairwise fun x y => key x < key y)
    (h : ∀ x, x ∈ xs ↔ x ∈ ys) : xs = ys := by
  have nodup : ∀ {zs : List α}, zs.Pairwise (fun x y => key x < key y) → zs.Nodup := by
    intro zs hzs
    refine hzs.imp ?_
    rintro x y hxy rfl
    exact String.lt_irrefl _ hxy
  apply List.Perm.eq_of_pairwise _ hxs hys
    ((List.perm_ext_iff_of_nodup (nodup hxs) (nodup hys)).2 h)
  intro x y _ _ hxy hyx
  exact absurd (String.lt_trans hxy hyx) (String.lt_irrefl _)

/-- Of two lists with strictly increasing keys, one that has all members of the other contains it. -/
theorem sublist_of_pairwise_key {α : Type} [DecidableEq α] {key : α → String} {xs ys : List α}
    (hxs : xs.Pairwise fun x y => key x < key y) (hys : ys.Pairwise fun x y => key x < key y)
    (h : xs ⊆ ys) : xs.Sublist ys := by
  have heq : xs = ys.filter fun y => y ∈ xs := by
    apply eq_of_pairwise_key hxs (hys.filter _)
    intro x
    simpa using fun hx => h hx
  rw [heq]
  exact List.filter_sublist

/-! ## Lawful backends -/

/-- A backend whose nodes and relationships can all be listed. -/
class ListedBackend (σ : Type) extends Backend σ where
  /-- Every node that is kept. -/
  allNodes : σ → List StoredNode
  /-- Every relationship that is kept. -/
  allEdges : σ → List StoredEdge

open ListedBackend (allNodes allEdges)

/-- What a store holds. -/
def contents {σ : Type} [ListedBackend σ] (s : σ) : Contents where
  node? := Backend.node? s
  edge? := fun k => ((allEdges s).find? fun e => e.key = k).map StoredEdge.properties

/-- A backend whose operations do what they are meant to do. -/
class LawfulBackend (σ : Type) extends ListedBackend σ where
  /-- What becomes of a value that is written. -/
  settle : Json → Json
  isNull_settle (v : Json) : (settle v).isNull = v.isNull
  eq_nil_of_settle_eq_nil {v : Json} : settle v = .arr [] → v = .arr []
  /-- Whether a value can be read once it is kept. -/
  Fits : Json → Prop
  fits_settle (v : Json) : Fits (settle v) ↔ Fits v
  legible_iff {p : Properties} : Backend.legible σ p = true ↔ p.All Fits
  /-- What holds of every store that is made from nothing by the writes. -/
  Sound : σ → Prop
  -- Nodes are written only with labels that come once, relationships only between stored nodes.
  sound_empty : Sound Backend.empty
  sound_mergeNode {s : σ} (hs : Sound s) {n : StoredNode} (hn : n.labels.Nodup) :
    Sound (Backend.mergeNode s n)
  sound_mergeEdge {s : σ} (hs : Sound s) {e : StoredEdge}
    (source : Backend.hasNode s e.source = true) (target : Backend.hasNode s e.target = true) :
    Sound (Backend.mergeEdge s e)
  sound_updateNode {s : σ} (hs : Sound s) (u : PropertyUpdate) : Sound (Backend.updateNode s u)
  sound_deleteNode {s : σ} (hs : Sound s) (id : String) : Sound (Backend.deleteNode s id)
  -- What is listed.
  nodup_ids {s : σ} (hs : Sound s) : ((allNodes s).map StoredNode.id).Nodup
  node?_eq_some_iff {s : σ} (hs : Sound s) {id : String} {n : StoredNode} :
    Backend.node? s id = some n ↔ n ∈ allNodes s ∧ n.id = id
  nodup_keys {s : σ} (hs : Sound s) : ((allEdges s).map StoredEdge.key).Nodup
  edge?_eq {s : σ} (hs : Sound s) (k : RelationKey) : Backend.edge? s k = (contents s).edge? k
  hasNode_ends {s : σ} (hs : Sound s) {e : StoredEdge} (he : e ∈ allEdges s) :
    Backend.hasNode s e.source = true ∧ Backend.hasNode s e.target = true
  pairwise_labelled {s : σ} (hs : Sound s) (l : Identifier) :
    (Backend.labelled s l).Pairwise fun m n => m.id < n.id
  mem_labelled {s : σ} (hs : Sound s) {l : Identifier} {n : StoredNode} :
    n ∈ Backend.labelled s l ↔ n ∈ allNodes s ∧ l ∈ n.labels
  nodup_incidentAll {s : σ} (hs : Sound s) (ids : List String) : (Backend.incidentAll s ids).Nodup
  mem_incidentAll {s : σ} (hs : Sound s) {ids : List String} {e : StoredEdge} :
    e ∈ Backend.incidentAll s ids ↔ e ∈ allEdges s ∧ ∃ id ∈ ids, e.touches id = true
  -- What the writes do.
  contents_empty : contents (Backend.empty : σ) = .empty
  contents_mergeNode {s : σ} (hs : Sound s) {n : StoredNode} (hn : n.labels.Nodup) :
    contents (Backend.mergeNode s n) = (contents s).mergeNode settle n
  contents_mergeEdge {s : σ} (hs : Sound s) {e : StoredEdge}
    (source : Backend.hasNode s e.source = true) (target : Backend.hasNode s e.target = true) :
    contents (Backend.mergeEdge s e) = (contents s).mergeEdge settle e
  contents_updateNode {s : σ} (hs : Sound s) (u : PropertyUpdate) :
    contents (Backend.updateNode s u) = (contents s).updateNode settle u
  contents_deleteNode {s : σ} (hs : Sound s) (id : String) :
    contents (Backend.deleteNode s id) = (contents s).deleteNode id

section

variable {σ : Type} [LawfulBackend σ] {s : σ}

open LawfulBackend

@[simp] theorem node?_contents (id : String) : (contents s).node? id = Backend.node? s id := rfl

theorem edge?_contents_eq_some_iff (hs : Sound s) {k : RelationKey} {p : Properties} :
    (contents s).edge? k = some p ↔ k.withProperties p ∈ allEdges s := by
  show ((allEdges s).find? fun e => e.key = k).map StoredEdge.properties = some p ↔ _
  rw [Option.map_eq_some_iff]
  constructor
  · intro h
    obtain ⟨e, he, rfl⟩ := h
    obtain ⟨hmem, rfl⟩ := (find?_key_eq_some_iff (nodup_keys hs)).1 he
    exact hmem
  · intro he
    exact ⟨k.withProperties p, (find?_key_eq_some_iff (nodup_keys hs)).2 ⟨he, rfl⟩, rfl⟩

theorem mem_allEdges_iff (hs : Sound s) {e : StoredEdge} :
    e ∈ allEdges s ↔ (contents s).edge? e.key = some e.properties := by
  rw [edge?_contents_eq_some_iff hs, StoredEdge.key_withProperties]

theorem mem_allNodes_iff (hs : Sound s) {n : StoredNode} :
    n ∈ allNodes s ↔ (contents s).node? n.id = some n := by
  rw [node?_contents, node?_eq_some_iff hs]
  exact ⟨fun h => ⟨h, rfl⟩, And.left⟩

/-- Stores with the same contents list the same nodes and relationships. -/
theorem perm_of_contents_eq {t : σ} (hs : Sound s) (ht : Sound t) (h : contents t = contents s) :
    (allNodes t).Perm (allNodes s) ∧ (allEdges t).Perm (allEdges s) := by
  constructor
  · apply (List.perm_ext_iff_of_nodup (nodup_ids ht).of_map (nodup_ids hs).of_map).2
    intro n
    rw [mem_allNodes_iff ht, mem_allNodes_iff hs, h]
  · apply (List.perm_ext_iff_of_nodup (nodup_keys ht).of_map (nodup_keys hs).of_map).2
    intro e
    rw [mem_allEdges_iff ht, mem_allEdges_iff hs, h]

end

end DatasetGraph
