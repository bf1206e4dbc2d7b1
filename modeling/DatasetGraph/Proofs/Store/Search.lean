import DatasetGraph.Proofs.Query.Reordering
import DatasetGraph.Proofs.Store.Legibility
import Mathlib

/-!
# Walks search breadth first

What a walk finds (`Walk`) comes in the order of a search by breadth: no node is listed before one
that is nearer.  In `Neighborhood.FindsNear` all of this is said in terms of distances: a node is
found if it is near enough, and an edge if both its ends are, and one of them is nearer still.

Nothing in that speaks of the order in which a backend lists the edges of a node.  A backend that
lists them in another order (`Reordered`) is as lawful as before, so its walks find the same nodes
at the same distances, and the same edges.  Nor does it matter for what a walk fails at: it fails
exactly if it comes to something that cannot be read, in whatever order it comes there.
-/

namespace DatasetGraph

/-! ## Nodes in order of their distance -/

namespace Walk

variable {σ : Type} [Backend σ] {s : σ} {pass : Node → Bool} {v v' : Nat} {p p' : Progress}

/-- The nodes come by their distance, and none is farther than `v`. -/
structure Progress.Sorted (v : Nat) (p : Progress) : Prop where
  pairwise : p.nodes.Pairwise fun a b => a.2 ≤ b.2
  le : ∀ e ∈ p.nodes, e.2 ≤ v

namespace Progress.Sorted

theorem mono (hp : p.Sorted v) (h : v ≤ v') : p.Sorted v' :=
  ⟨hp.pairwise, fun e he => (hp.le e he).trans h⟩

theorem congr (hp : p.Sorted v) (h : p'.nodes = p.nodes) : p'.Sorted v := by
  obtain ⟨hpairwise, hle⟩ := hp
  exact ⟨h ▸ hpairwise, h ▸ hle⟩

/-- A node at the greatest distance goes to the end. -/
theorem concat (hp : p.Sorted v) {n : Node} (h : p'.nodes = p.nodes ++ [(n, v)]) : p'.Sorted v := by
  constructor
  · rw [h, List.pairwise_append]
    refine ⟨hp.pairwise, List.pairwise_singleton _ _, fun a ha b hb => ?_⟩
    obtain rfl := List.mem_singleton.1 hb
    exact hp.le a ha
  · intro e he
    rw [h, List.mem_append, List.mem_singleton] at he
    rcases he with he | rfl
    · exact hp.le e he
    · exact le_refl v

theorem judge {id : String} {b : Bool} (hp : p.Sorted v)
    (h : judge s pass v p id = .ok (b, p')) : p'.Sorted v := by
  rw [Walk.judge] at h
  split at h
  · cases h
    exact hp
  · obtain ⟨ns, _, h⟩ := Fallible.bind_eq_ok_iff.1 h
    split at h
    · split at h
      · cases h
        exact hp.concat rfl
      · cases h
        exact hp.congr rfl
    · cases h
      exact hp.congr rfl

theorem meet {id : String} {e : Edge} (hp : p.Sorted v) (h : meet s pass v id p e = .ok p') :
    p'.Sorted v := by
  rw [Walk.meet] at h
  obtain ⟨⟨b, q⟩, hjudge, h⟩ := Fallible.bind_eq_ok_iff.1 h
  have hq : q.Sorted v := hp.judge hjudge
  dsimp only at h
  split at h
  · cases h
    exact hq.congr rfl
  · cases h
    exact hq

theorem visit {id : String} (hp : p.Sorted v) (h : visit s pass v p id = .ok p') :
    p'.Sorted v := by
  rw [Walk.visit] at h
  obtain ⟨es, _, h⟩ := Fallible.bind_eq_ok_iff.1 h
  exact Fallible.of_foldlM_eq_ok (fun q => q.Sorted v) h hp fun _ _ _ _ hq => hq.meet

/-- Each round adds nodes that are one hop farther than those before. -/
theorem goOn {hops : Nat} {frontier : List String} (hp : p.Sorted v)
    (h : goOn s pass hops (v + 1) frontier p = .ok p') : p'.Sorted (v + hops) := by
  induction hops generalizing v frontier p with
  | zero =>
    cases h
    exact hp
  | succ hops ih =>
    rw [Walk.goOn] at h
    split at h
    · cases h
      exact hp.mono (by omega)
    · obtain ⟨q, hround, h⟩ := Fallible.bind_eq_ok_iff.1 h
      have hq : q.Sorted (v + 1) :=
        Fallible.of_foldlM_eq_ok (fun q => q.Sorted (v + 1)) hround (hp.mono (by omega))
          fun _ _ _ _ hq => hq.visit
      have := ih hq h
      rwa [Nat.add_right_comm] at this

end Progress.Sorted

/-- A walk lists what it finds by distance. -/
theorem pairwise_nodes {root : String} {hops : Nat} {hood : Neighborhood}
    (h : Store.walk s root hops pass = .ok (some hood)) :
    hood.nodes.Pairwise fun a b => a.2 ≤ b.2 := by
  rw [Store.walk] at h
  obtain ⟨ns, _, h⟩ := Fallible.bind_eq_ok_iff.1 h
  split at h
  · cases h
  · obtain ⟨p, hgoOn, h⟩ := Fallible.bind_eq_ok_iff.1 h
    cases h
    have hstart : Progress.Sorted 0 ⟨[(root, true)], [], []⟩ :=
      ⟨List.Pairwise.nil, fun e he => absurd he List.not_mem_nil⟩
    exact (hstart.goOn hgoOn).pairwise

end Walk

/-! ## The order of edges -/

/-- Another order in which the edges of nodes are listed. -/
structure EdgeOrder (σ : Type) [Backend σ] where
  incident : σ → List String → List StoredEdge
  perm (s : σ) (ids : List String) : (incident s ids).Perm (Backend.incidentAll s ids)

/-- A store that lists the edges of nodes in that order. -/
structure Reordered (σ : Type) [Backend σ] (o : EdgeOrder σ) where
  store : σ

section

variable {σ : Type}

instance [Backend σ] (o : EdgeOrder σ) : Backend (Reordered σ o) where
  empty := ⟨Backend.empty⟩
  legible := Backend.legible σ
  node? s := Backend.node? s.store
  edge? s := Backend.edge? s.store
  labelled s := Backend.labelled s.store
  incidentAll s := o.incident s.store
  mergeNode s n := ⟨Backend.mergeNode s.store n⟩
  mergeEdge s e := ⟨Backend.mergeEdge s.store e⟩
  updateNode s u := ⟨Backend.updateNode s.store u⟩
  deleteNode s id := ⟨Backend.deleteNode s.store id⟩

instance [ListedBackend σ] (o : EdgeOrder σ) : ListedBackend (Reordered σ o) where
  allNodes s := ListedBackend.allNodes s.store
  allEdges s := ListedBackend.allEdges s.store

open LawfulBackend in
instance [LawfulBackend σ] (o : EdgeOrder σ) : LawfulBackend (Reordered σ o) where
  settle := settle σ
  isNull_settle := isNull_settle
  eq_nil_of_settle_eq_nil := eq_nil_of_settle_eq_nil
  Fits := Fits σ
  fits_settle := fits_settle
  legible_iff := legible_iff (σ := σ)
  Sound s := Sound s.store
  sound_empty := sound_empty
  sound_mergeNode hs := sound_mergeNode hs
  sound_mergeEdge hs := sound_mergeEdge hs
  sound_updateNode hs := sound_updateNode hs
  sound_deleteNode hs := sound_deleteNode hs
  nodup_ids hs := nodup_ids hs
  node?_eq_some_iff hs := node?_eq_some_iff hs
  nodup_keys hs := nodup_keys hs
  edge?_eq hs := edge?_eq hs
  hasNode_ends hs := hasNode_ends hs
  pairwise_labelled hs := pairwise_labelled hs
  mem_labelled hs := mem_labelled hs
  nodup_incidentAll {s} hs ids := (o.perm s.store ids).nodup_iff.2 (nodup_incidentAll hs ids)
  mem_incidentAll {s} hs {ids} {_} := (o.perm s.store ids).mem_iff.trans (mem_incidentAll hs)
  contents_empty := contents_empty (σ := σ)
  contents_mergeNode hs := contents_mergeNode (σ := σ) hs
  contents_mergeEdge hs := contents_mergeEdge (σ := σ) hs
  contents_updateNode hs u := contents_updateNode (σ := σ) hs u
  contents_deleteNode hs id := contents_deleteNode (σ := σ) hs id

variable [LawfulBackend σ] {s : σ}

theorem Valid.reordered (hs : Valid s) (o : EdgeOrder σ) : Valid (⟨s⟩ : Reordered σ o) :=
  { sound := hs.sound, wellFormed := hs.wellFormed }

end

/-! ## Walks -/

/-- What a walk of at most `hops` hops ought to find, and in which order. -/
structure Neighborhood.FindsNear (c : Contents) (pass : Node → Bool) (hops : Nat)
    (hood : Neighborhood) : Prop where
  nodup_ids : (hood.nodes.map fun e => e.1.id).Nodup
  mem_nodes_iff {n : Node} {d : Nat} : (n, d) ∈ hood.nodes ↔
    c.read? n.id = some n ∧ n.id ≠ hood.root ∧ d ≤ hops ∧ c.Distance pass hood.root d n.id
  pairwise : hood.nodes.Pairwise fun a b => a.2 ≤ b.2
  nodup_edges : hood.edges.Nodup
  mem_edges_iff {e : Edge} : e ∈ hood.edges ↔ c.HoldsEdge e ∧
    ∃ j k, c.Distance pass hood.root j e.source ∧ c.Distance pass hood.root k e.target ∧
      j ≤ hops ∧ k ≤ hops ∧ (j < hops ∨ k < hops)

/-- Two walks found the same, perhaps in another order. -/
structure Neighborhood.Alike (hood hood' : Neighborhood) : Prop where
  root_eq : hood.root = hood'.root
  nodes_perm : hood.nodes.Perm hood'.nodes
  edges_perm : hood.edges.Perm hood'.edges

namespace Neighborhood.IsExact

variable {c : Contents} {pass : Node → Bool} {hops : Nat} {hood hood' : Neighborhood}

/-- An edge is met from an end that is nearer than the bound. -/
theorem mem_edges_iff_distance (h : hood.IsExact c pass hops) {e : Edge} :
    e ∈ hood.edges ↔ c.HoldsEdge e ∧
      ∃ j k, c.Distance pass hood.root j e.source ∧ c.Distance pass hood.root k e.target ∧
        j ≤ hops ∧ k ≤ hops ∧ (j < hops ∨ k < hops) := by
  rw [h.mem_edges_iff, Contents.within_iff, Contents.within_iff]
  refine and_congr_right fun _ => ⟨?_, ?_⟩
  · rintro ⟨⟨j, hj, hsource⟩, ⟨k, hk, htarget⟩, id, i, hi, hpath, htouches⟩
    refine ⟨j, k, hsource, htarget, hj, hk, ?_⟩
    rcases Edge.touches_iff.1 htouches with rfl | rfl
    · exact .inl ((hsource.2 i hpath).trans_lt hi)
    · exact .inr ((htarget.2 i hpath).trans_lt hi)
  · rintro ⟨j, k, hsource, htarget, hj, hk, hlt⟩
    refine ⟨⟨j, hj, hsource⟩, ⟨k, hk, htarget⟩, ?_⟩
    rcases hlt with hlt | hlt
    · exact ⟨e.source, j, hlt, hsource.1, Edge.touches_iff.2 (.inl rfl)⟩
    · exact ⟨e.target, k, hlt, htarget.1, Edge.touches_iff.2 (.inr rfl)⟩

theorem findsNear (h : hood.IsExact c pass hops)
    (hpairwise : hood.nodes.Pairwise fun a b => a.2 ≤ b.2) : hood.FindsNear c pass hops where
  nodup_ids := h.nodup_ids
  mem_nodes_iff {n d} := by
    rw [h.mem_nodes_iff]
    constructor
    · rintro ⟨hread, hpos, hle, hdist⟩
      exact ⟨hread, hdist.ne_root hpos, hle, hdist⟩
    · rintro ⟨hread, hne, hle, hdist⟩
      refine ⟨hread, Nat.pos_of_ne_zero ?_, hle, hdist⟩
      rintro rfl
      exact hne (Contents.path_zero_iff.1 hdist.1)
  pairwise := hpairwise
  nodup_edges := h.nodup_edges
  mem_edges_iff := h.mem_edges_iff_distance

theorem alike (h : hood.IsExact c pass hops) (h' : hood'.IsExact c pass hops)
    (hroot : hood.root = hood'.root) : hood.Alike hood' :=
  ⟨hroot, h.nodes_perm h' hroot, h.edges_perm h' hroot⟩

end Neighborhood.IsExact

/-- A walk in a reachable store finds nothing exactly if its root is not stored.  It fails exactly if
it comes to something that cannot be read; else it finds what is near, by distance.  In whatever order
the edges of a node are listed, it fails or finds the same. -/
theorem walk_finds_near {σ : Type} [LawfulBackend σ] {s : σ} (h : Reachable s) (root : String)
    (hops : Nat) (pass : Node → Bool) :
    (Store.walk s root hops pass = .ok none ↔ (contents s).node? root = none) ∧
    (WalkUnreadable s root hops pass → Store.walk s root hops pass = .error .unreadable ∧
      ∀ o : EdgeOrder σ, Store.walk (⟨s⟩ : Reordered σ o) root hops pass = .error .unreadable) ∧
    (¬WalkUnreadable s root hops pass →
      ((contents s).node? root ≠ none → ∃ hood, Store.walk s root hops pass = .ok (some hood) ∧
        hood.root = root ∧ hood.FindsNear (contents s) pass hops) ∧
      ∀ o : EdgeOrder σ, ∃ found found', Store.walk s root hops pass = .ok found ∧
        Store.walk (⟨s⟩ : Reordered σ o) root hops pass = .ok found' ∧
        Option.Rel Neighborhood.Alike found found') := by
  classical
  have hs := h.valid
  -- Any two backends that list the same come to the same as a reader that reads everything.
  have hdeep := hs.walk_eq_ite root hops pass
  have hdeep' : ∀ o : EdgeOrder σ, Store.walk (⟨s⟩ : Reordered σ o) root hops pass =
      if WalkUnreadable s root hops pass then .error .unreadable
      else Store.walk (⟨⟨s⟩⟩ : DeepReader (Reordered σ o)) root hops pass := fun o =>
    (hs.reordered o).walk_eq_ite root hops pass
  cases hroot : (contents s).read? root with
  | none =>
    have hnone : (contents s).node? root = none := by
      rw [← Option.isNone_iff_eq_none, ← Option.not_isSome, ← hs.wellFormed.isSome_read?, hroot]
      rfl
    have hreadable := hs.not_walkUnreadable_of_none hroot hops pass
    have hwalk : Store.walk s root hops pass = .ok none := by
      rw [hdeep, if_neg hreadable, hs.deepReader.walk_eq_none hops pass hroot]
    refine ⟨iff_of_true hwalk hnone, fun h => absurd h hreadable, fun _ => ⟨fun h => absurd hnone h, ?_⟩⟩
    intro o
    refine ⟨none, none, hwalk, ?_, .none⟩
    rw [hdeep' o, if_neg hreadable, (hs.reordered o).deepReader.walk_eq_none hops pass hroot]
  | some r =>
    have hstored : (contents s).node? root ≠ none := by
      rw [← Option.isSome_iff_ne_none, ← hs.wellFormed.isSome_read?, hroot]
      rfl
    obtain ⟨hood, hwalk, hid, hexact⟩ := hs.deepReader.exists_walk_eq_some hops pass hroot
    refine ⟨iff_of_false ?_ hstored, fun hunreadable => ?_, fun hreadable => ?_⟩
    · rw [hdeep, hwalk]
      split <;> nofun
    · rw [hdeep, if_pos hunreadable]
      exact ⟨rfl, fun o => by rw [hdeep' o, if_pos hunreadable]⟩
    · rw [hdeep, if_neg hreadable]
      refine ⟨fun _ => ⟨hood, hwalk, hid, hexact.findsNear (Walk.pairwise_nodes hwalk)⟩, fun o => ?_⟩
      obtain ⟨hood', hwalk', hid', hexact'⟩ :=
        (hs.reordered o).deepReader.exists_walk_eq_some hops pass hroot
      refine ⟨some hood, some hood', hwalk, ?_, .some (hexact.alike hexact' (hid.trans hid'.symm))⟩
      rw [hdeep' o, if_neg hreadable, hwalk']

/-- From a dataset a walk finds the file that it shares, and behind it the other dataset. -/
theorem walk_finds_near_sharing :
    Reachable (sharing ["a", "b"] : TableStore) ∧
    (contents (sharing ["a", "b"] : TableStore)).node? "a" ≠ none ∧
    ∃ hood, Store.walk (sharing ["a", "b"] : TableStore) "a" 2 (fun _ => true) = .ok (some hood) ∧
      hood.FindsNear (contents (sharing ["a", "b"] : TableStore)) (fun _ => true) 2 ∧
      (hood.nodes.map fun e => (e.1.id, e.2)) = [("f", 1), ("b", 2)] ∧ hood.edges.length = 2 := by
  have hstored : (contents (sharing ["a", "b"] : TableStore)).node? "a" ≠ none := by
    decide +kernel
  obtain ⟨_, _, hfinds⟩ :=
    walk_finds_near (reachable_sharing (σ := TableStore) ["a", "b"]) "a" 2 fun _ => true
  obtain ⟨hood, hwalk, _, hnear⟩ :=
    (hfinds ((legible_sharing ["a", "b"]).not_walkUnreadable "a" 2 _)).1 hstored
  have hfound : (Store.walk (sharing ["a", "b"] : TableStore) "a" 2 fun _ => true).map
      (fun found => found.map fun hood =>
        ((hood.nodes.map fun e => (e.1.id, e.2)), hood.edges.length)) =
      .ok (some ([("f", 1), ("b", 2)], 2)) := by
    cbv
  rw [hwalk] at hfound
  obtain ⟨hnodes, hedges⟩ := Prod.mk.inj (Option.some.inj (Except.ok.inj hfound))
  exact ⟨reachable_sharing _, hstored, hood, hwalk, hnear, hnodes, hedges⟩

end DatasetGraph
