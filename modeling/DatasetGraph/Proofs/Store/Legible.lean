import DatasetGraph.Proofs.Fallible
import DatasetGraph.Proofs.Store.Contents
import DatasetGraph.Store.Adjacency
import DatasetGraph.Store.Exchange

/-!
# What can be read

A store may keep properties that it cannot read again.  What has to read them fails
(`StoreError.unreadable`); everything else does what it would do if all could be read.

So there are two ways to look at a store.  A list of writes that succeeds comes to the plain list of
writes, in which nothing is read (`Backend.putNodes`, `Backend.putEdges`, `Backend.putUpdates`).  And
a store can be handed to a reader that reads everything (`DeepReader`): it holds the same, it is as
lawful as the store itself, and its operations never fail for this reason.  The operations of the
store follow its operations.
-/

namespace DatasetGraph

open ListedBackend (allNodes allEdges)

/-! ## Writes without reading -/

namespace Backend

section

variable {σ : Type} [Backend σ]

/-- Lay nodes over what is there, one after the other. -/
def putNodes (s : σ) (ns : List StoredNode) : WriteCount × σ :=
  (⟨ns.length, 0⟩, ns.foldl mergeNode s)

/-- Lay a relationship over what is there, if both its ends are stored, and count it. -/
def putEdge (acc : WriteCount × σ) (e : StoredEdge) : WriteCount × σ :=
  let (c, s) := acc
  if hasNode s e.source && hasNode s e.target then
    ({ c with written := c.written + 1 }, mergeEdge s e)
  else ({ c with skipped := c.skipped + 1 }, s)

/-- Lay relationships over what is there, one after the other. -/
def putEdges (s : σ) (es : List StoredEdge) : WriteCount × σ := es.foldl putEdge ({}, s)

/-- Change the properties of a stored node, and count it. -/
def putUpdate (acc : Nat × σ) (u : PropertyUpdate) : Nat × σ :=
  let (n, s) := acc
  if hasNode s u.id then (n + 1, updateNode s u) else (n, s)

/-- Apply updates one after the other. -/
def putUpdates (s : σ) (us : List PropertyUpdate) : Nat × σ := us.foldl putUpdate (0, s)

/-! ## What fails -/

/-- What is read is what is kept, if all of it can be read. -/
theorem readAll_eq {α : Type} (properties : α → Properties) (xs : List α) :
    readAll σ properties xs =
      if ∀ x ∈ xs, legible σ (properties x) = true then .ok xs else .error .unreadable := by
  induction xs with
  | nil => rfl
  | cons x xs ih =>
    rw [readAll, List.mapM_cons, ← readAll, ih]
    cases hx : legible σ (properties x) with
    | false => simp [check, hx]; rfl
    | true =>
      simp only [check, hx, if_true, List.forall_mem_cons, true_and]
      split
      · rfl
      · rfl

theorem check_of_legible {p : Properties} (h : legible σ p = true) : check σ p = .ok () := if_pos h

theorem check_of_illegible {p : Properties} (h : legible σ p = false) :
    check σ p = .error .unreadable := by
  rw [check, h]
  rfl

theorem check?_of_legible {o : Option Properties} (h : ∀ p, o = some p → legible σ p = true) :
    check? σ o = .ok () := by
  cases o with
  | none => rfl
  | some p => exact check_of_legible (h p rfl)

/-- A check has nothing to say of what there is. -/
theorem check_follows (p : Properties) : Fallible.Follows .unreadable True (check σ p) (.ok ()) := by
  cases h : legible σ p with
  | true => exact .inl (check_of_legible h)
  | false => exact .inr ⟨check_of_illegible h, trivial⟩

theorem check?_follows (p : Option Properties) :
    Fallible.Follows .unreadable True (check? σ p) (.ok ()) := by
  cases p with
  | none => exact .refl _
  | some q => exact check_follows q

theorem mergeNodeChecked_follows (s : σ) (n : StoredNode) :
    Fallible.Follows .unreadable True (mergeNodeChecked s n) (.ok (mergeNode s n)) :=
  (check?_follows _).bind_ok

theorem mergeEdgeChecked_follows (acc : WriteCount × σ) (e : StoredEdge) :
    Fallible.Follows .unreadable True (mergeEdgeChecked acc e) (.ok (putEdge acc e)) := by
  rw [mergeEdgeChecked, putEdge]
  split
  · exact (check?_follows _).bind_ok
  · exact .refl _

theorem updateNodeChecked_follows (acc : Nat × σ) (u : PropertyUpdate) :
    Fallible.Follows .unreadable True (updateNodeChecked acc u) (.ok (putUpdate acc u)) := by
  rw [updateNodeChecked, putUpdate, hasNode]
  cases node? acc.2 u.id with
  | none => exact .refl _
  | some m => exact (check_follows m.properties).bind_ok

/-- Nodes that are merged are laid over what is there. -/
theorem mergeNodes_follows (s : σ) (ns : List StoredNode) :
    Fallible.Follows .unreadable True (mergeNodes s ns) (.ok (putNodes s ns)) :=
  (Fallible.Follows.foldlM_pure mergeNodeChecked_follows ns s).bind_ok

/-- Relationships that are merged are laid over what is there. -/
theorem mergeEdges_follows (s : σ) (es : List StoredEdge) :
    Fallible.Follows .unreadable True (mergeEdges s es) (.ok (putEdges s es)) :=
  Fallible.Follows.foldlM_pure mergeEdgeChecked_follows es _

/-- Updates that are applied change what is there. -/
theorem updateNodes_follows (s : σ) (us : List PropertyUpdate) :
    Fallible.Follows .unreadable True (updateNodes s us) (.ok (putUpdates s us)) :=
  Fallible.Follows.foldlM_pure updateNodeChecked_follows us _

end

/-! ## Backends that read everything -/

/-- A backend that can read whatever it keeps. -/
class ReadsAll (σ : Type) [Backend σ] : Prop where
  legible_eq (p : Properties) : legible σ p = true

instance : ReadsAll AdjacencyStore := ⟨fun _ => rfl⟩

section

variable {σ : Type} [Backend σ] [ReadsAll σ]

theorem readAll_eq_ok {α : Type} (properties : α → Properties) (xs : List α) :
    readAll σ properties xs = .ok xs := by
  rw [readAll_eq, if_pos fun x _ => ReadsAll.legible_eq (properties x)]

end

end Backend

/-! ## What cannot be read -/

section

variable {σ : Type} [ListedBackend σ]

/-- A node is kept under the id and cannot be read. -/
def NodeUnreadable (s : σ) (id : String) : Prop :=
  ∃ n, Backend.node? s id = some n ∧ Backend.legible σ n.properties = false

/-- A relationship that starts or ends at the node is kept and cannot be read. -/
def EdgeUnreadable (s : σ) (id : String) : Prop :=
  ∃ e ∈ allEdges s, e.touches id = true ∧ Backend.legible σ e.properties = false

/-- All that is kept can be read. -/
structure Legible (s : σ) : Prop where
  node (id : String) : ¬NodeUnreadable s id
  edge (id : String) : ¬EdgeUnreadable s id

variable [Backend.ReadsAll σ] (s : σ) (id : String)

@[simp] theorem not_nodeUnreadable : ¬NodeUnreadable s id := by
  rintro ⟨n, _, hn⟩
  rw [Backend.ReadsAll.legible_eq] at hn
  cases hn

@[simp] theorem not_edgeUnreadable : ¬EdgeUnreadable s id := by
  rintro ⟨e, _, _, he⟩
  rw [Backend.ReadsAll.legible_eq] at he
  cases he

theorem legible_of_readsAll : Legible s := ⟨not_nodeUnreadable s, not_edgeUnreadable s⟩

end

/-! ## A reader that reads everything -/

/-- A store in the hands of a reader that can read every text. -/
structure DeepReader (σ : Type) where
  store : σ

namespace DeepReader

variable {σ : Type}

instance [Backend σ] : Backend (DeepReader σ) where
  empty := ⟨Backend.empty⟩
  legible _ := true
  node? s := Backend.node? s.store
  edge? s := Backend.edge? s.store
  labelled s := Backend.labelled s.store
  incidentAll s := Backend.incidentAll s.store
  mergeNode s n := ⟨Backend.mergeNode s.store n⟩
  mergeEdge s e := ⟨Backend.mergeEdge s.store e⟩
  updateNode s u := ⟨Backend.updateNode s.store u⟩
  deleteNode s id := ⟨Backend.deleteNode s.store id⟩

instance [Backend σ] : Backend.ReadsAll (DeepReader σ) := ⟨fun _ => rfl⟩

instance [ListedBackend σ] : ListedBackend (DeepReader σ) where
  allNodes s := allNodes s.store
  allEdges s := allEdges s.store

open LawfulBackend in
instance [LawfulBackend σ] : LawfulBackend (DeepReader σ) where
  settle := settle σ
  isNull_settle := isNull_settle
  eq_nil_of_settle_eq_nil := eq_nil_of_settle_eq_nil
  Fits _ := True
  fits_settle _ := .rfl
  legible_iff := iff_of_true rfl fun _ _ _ => trivial
  Sound s := Sound s.store
  sound_empty := sound_empty
  sound_mergeNode hs _ hn := sound_mergeNode hs hn
  sound_mergeEdge hs _ source target := sound_mergeEdge hs source target
  sound_updateNode hs u := sound_updateNode hs u
  sound_deleteNode hs id := sound_deleteNode hs id
  nodup_ids hs := nodup_ids hs
  node?_eq_some_iff hs _ _ := node?_eq_some_iff hs
  nodup_keys hs := nodup_keys hs
  edge?_eq hs k := edge?_eq hs k
  hasNode_ends hs _ he := hasNode_ends hs he
  pairwise_labelled hs l := pairwise_labelled hs l
  mem_labelled hs _ _ := mem_labelled hs
  nodup_incidentAll hs ids := nodup_incidentAll hs ids
  mem_incidentAll hs _ _ := mem_incidentAll hs
  contents_empty := contents_empty (σ := σ)
  contents_mergeNode hs _ hn := contents_mergeNode hs hn
  contents_mergeEdge hs _ source target := contents_mergeEdge hs source target
  contents_updateNode hs u := contents_updateNode hs u
  contents_deleteNode hs id := contents_deleteNode hs id

end DeepReader

/-- Whoever reads follows the reader that reads everything. -/
theorem Backend.readAll_follows {σ : Type} [Backend σ] {α : Type} (properties : α → Properties)
    (xs : List α) :
    Fallible.Follows .unreadable (∃ x ∈ xs, Backend.legible σ (properties x) = false)
      (Backend.readAll σ properties xs) (Backend.readAll (DeepReader σ) properties xs) := by
  have hdeep : Backend.readAll (DeepReader σ) properties xs = .ok xs := Backend.readAll_eq_ok ..
  rw [hdeep, Backend.readAll_eq]
  split
  · exact .refl _
  · next h => exact .inr ⟨rfl, by simpa using h⟩

end DatasetGraph
