import DatasetGraph.Proofs.Store.Adjacency
import DatasetGraph.Proofs.Store.Table
import DatasetGraph.Proofs.Store.Walk
import Mathlib

/-!
# Deletions remove what hangs off a dataset

A deletion is asked for some datasets, its targets.  It dooms them and every dependent node that is
no dataset and is joined to a target by a path within the hop bound, on which no other dataset
stands.  It removes exactly the doomed nodes and the relationships that touch one, or it comes to
something that cannot be read and removes nothing (`cascadeDelete_exact`).

Its walks stop at every dataset, also at the target they came from; a path that comes back to its
target can be cut short (`Path.within_of_returning`).
-/

namespace DatasetGraph

open ListedBackend (allNodes allEdges)

namespace Contents

section

variable (c : Contents) (ids : List String)

/-- Whether the node with an id is the root of a dataset. -/
def isRoot (id : String) : Bool := (c.read? id).any Node.isDataset

/-- A dataset that a deletion is asked for; all are if no id is given. -/
def IsTarget (id : String) : Prop := c.isRoot id = true ∧ (ids = [] ∨ id ∈ ids)

/-- A node that hangs off a dataset. -/
def HangsOff (target id : String) : Prop :=
  ∃ n, c.read? id = some n ∧ n.isDependent = true ∧ n.isDataset = false ∧
    c.Within (fun m => m.id = target || !m.isDataset) target maxHops id

/-- What a deletion removes. -/
def Doomed (id : String) : Prop :=
  c.IsTarget ids id ∨ ∃ target, c.IsTarget ids target ∧ c.HangsOff target id

end

variable {c : Contents}

theorem isRoot_eq_true_iff {id : String} :
    c.isRoot id = true ↔ ∃ n, c.read? id = some n ∧ n.isDataset = true := by
  rw [isRoot, Option.any_eq_true]

theorem WellFormed.stored_of_doomed (hc : c.WellFormed) {ids : List String} {id : String}
    (h : c.Doomed ids id) : (c.node? id).isSome = true := by
  have hread : ∃ n, c.read? id = some n := by
    rcases h with ⟨hroot, _⟩ | ⟨_, _, n, hn, _⟩
    · obtain ⟨n, hn, _⟩ := isRoot_eq_true_iff.1 hroot
      exact ⟨n, hn⟩
    · exact ⟨n, hn⟩
  rw [← hc.isSome_read?, Option.isSome_iff_exists]
  exact hread

theorem not_doomed {ids : List String} (h : ∀ id, ¬c.IsTarget ids id) {id : String} :
    ¬c.Doomed ids id := by
  rintro (htarget | ⟨target, htarget, _⟩)
  · exact h id htarget
  · exact h target htarget

/-- A dataset is doomed only if it is asked for. -/
theorem Doomed.isTarget {ids : List String} {id : String} (h : c.Doomed ids id)
    (hroot : c.isRoot id = true) : c.IsTarget ids id := by
  rcases h with htarget | ⟨_, _, n, hn, _, hdataset, _⟩
  · exact htarget
  · obtain ⟨m, hm, hmdataset⟩ := isRoot_eq_true_iff.1 hroot
    cases Option.some.inj (hm.symm.trans hn)
    rw [hmdataset] at hdataset
    cases hdataset

/-- A path that comes back to its root can be cut short. -/
theorem WellFormed.within_of_returning (hc : c.WellFormed) {pass : Node → Bool} {root : String}
    {k : Nat} {id : String} (h : c.Path (fun m => m.id = root || pass m) root k id) :
    c.Within pass root k id := by
  induction h with
  | start => exact ⟨0, le_refl 0, .start⟩
  | @step k a b n _ joined read passes ih =>
    by_cases hb : b = root
    · subst hb
      exact ⟨0, Nat.zero_le _, .start⟩
    · obtain ⟨j, hj, hpath⟩ := ih
      have hpass : pass n = true := by
        simpa [hc.read?_id read, hb] using passes
      exact ⟨j + 1, Nat.succ_le_succ hj, .step hpath joined read hpass⟩

/-! ## Several removals -/

theorem node?_foldl_deleteNode (ids : List String) (id : String) :
    (ids.foldl deleteNode c).node? id = if id ∈ ids then none else c.node? id := by
  induction ids generalizing c with
  | nil => rfl
  | cons j ids ih =>
    rw [List.foldl_cons, ih, node?_deleteNode]
    by_cases hid : id ∈ ids
    · rw [if_pos hid, if_pos (List.mem_cons_of_mem _ hid)]
    · rw [if_neg hid]
      simp [hid]

theorem edge?_foldl_deleteNode (ids : List String) (k : RelationKey) :
    (ids.foldl deleteNode c).edge? k =
      if k.source ∈ ids ∨ k.target ∈ ids then none else c.edge? k := by
  induction ids generalizing c with
  | nil => simp
  | cons j ids ih =>
    rw [List.foldl_cons, ih, edge?_deleteNode]
    simp only [RelationKey.touches, Bool.or_eq_true, decide_eq_true_eq, List.mem_cons]
    by_cases hk : k.source ∈ ids ∨ k.target ∈ ids
    · rw [if_pos hk, if_pos (hk.imp .inr .inr)]
    · rw [if_neg hk]
      by_cases hj : k.source = j ∨ k.target = j
      · rw [if_pos hj, if_pos (hj.imp .inl .inl)]
      · rw [if_neg hj, if_neg]
        intro hx
        rcases hx with ⟨h | h⟩ | ⟨h | h⟩
        · exact hj (.inl h)
        · exact hk (.inl h)
        · exact hj (.inr h)
        · exact hk (.inr h)

end Contents

section

variable {σ : Type} [LawfulBackend σ] {s : σ}

open LawfulBackend

namespace Valid

/-- Stored nodes are removed one after the other, and each counts. -/
theorem deleteNodes_eq (hs : Valid s) {ids : List String} (hnodup : ids.Nodup)
    (hstored : ∀ id ∈ ids, Backend.hasNode s id = true) :
    Backend.deleteNodes s ids = (ids.length, ids.foldl Backend.deleteNode s) := by
  have go : ∀ (ids : List String) (count : Nat) (t : σ), Valid t → ids.Nodup →
      (∀ id ∈ ids, Backend.hasNode t id = true) →
      ids.foldl Backend.deleteNodeCounted (count, t) =
        (count + ids.length, ids.foldl Backend.deleteNode t) := by
    intro ids
    induction ids with
    | nil =>
      intro count t _ _ _
      rfl
    | cons id ids ih =>
      intro count t ht hnodup hstored
      obtain ⟨hid, hnodup⟩ := List.nodup_cons.1 hnodup
      have hstep : Backend.deleteNodeCounted (count, t) id = (count + 1, Backend.deleteNode t id) := by
        simp only [Backend.deleteNodeCounted]
        rw [if_pos (hstored id List.mem_cons_self)]
      -- The other nodes are still there.
      have hothers : ∀ j ∈ ids, Backend.hasNode (Backend.deleteNode t id) j = true := by
        intro j hj
        have hne : j ≠ id := by
          rintro rfl
          exact hid hj
        show ((contents (Backend.deleteNode t id)).node? j).isSome = true
        rw [contents_deleteNode ht.sound, Contents.node?_deleteNode, if_neg hne]
        exact hstored j (List.mem_cons_of_mem _ hj)
      rw [List.foldl_cons, List.foldl_cons, hstep, List.length_cons,
        ih (count + 1) _ (ht.deleteNode id) hnodup hothers, Nat.add_assoc, Nat.add_comm 1]
  rw [Backend.deleteNodes, go ids 0 s hs hnodup hstored, Nat.zero_add]

theorem contents_foldl_deleteNode (hs : Valid s) (ids : List String) :
    contents (ids.foldl Backend.deleteNode s) = ids.foldl Contents.deleteNode (contents s) := by
  induction ids generalizing s with
  | nil => rfl
  | cons id ids ih =>
    rw [List.foldl_cons, List.foldl_cons, ih (hs.deleteNode id), contents_deleteNode hs.sound]

theorem foldl_deleteNode (hs : Valid s) (ids : List String) :
    Valid (ids.foldl Backend.deleteNode s) :=
  List.foldlRecOn ids Backend.deleteNode (motive := Valid) hs fun _ ht id _ => ht.deleteNode id

/-- The nodes that are left are those that are not removed. -/
theorem mem_allNodes_foldl_deleteNode (hs : Valid s) (ids : List String) {n : StoredNode} :
    n ∈ ListedBackend.allNodes (ids.foldl Backend.deleteNode s) ↔
      n ∈ ListedBackend.allNodes s ∧ n.id ∉ ids := by
  rw [mem_allNodes_iff (hs.foldl_deleteNode ids).sound, mem_allNodes_iff hs.sound,
    hs.contents_foldl_deleteNode, Contents.node?_foldl_deleteNode]
  by_cases hn : n.id ∈ ids
  · rw [if_pos hn]
    exact iff_of_false nofun fun h => h.2 hn
  · rw [if_neg hn]
    exact (and_iff_left hn).symm

/-- The relationships that are left are those between nodes that are not removed. -/
theorem mem_allEdges_foldl_deleteNode (hs : Valid s) (ids : List String) {e : StoredEdge} :
    e ∈ ListedBackend.allEdges (ids.foldl Backend.deleteNode s) ↔
      e ∈ ListedBackend.allEdges s ∧ e.source ∉ ids ∧ e.target ∉ ids := by
  rw [mem_allEdges_iff (hs.foldl_deleteNode ids).sound, mem_allEdges_iff hs.sound,
    hs.contents_foldl_deleteNode, Contents.edge?_foldl_deleteNode, ← not_or]
  by_cases he : e.key.source ∈ ids ∨ e.key.target ∈ ids
  · rw [if_pos he]
    exact iff_of_false nofun fun h => h.2 he
  · rw [if_neg he]
    exact (and_iff_left he).symm

/-! ## Targets -/

section

variable [Backend.ReadsAll σ]

theorem exists_rootsToDelete (hs : Valid s) (ids : List String) :
    ∃ roots, Store.rootsToDelete s ids = .ok roots ∧
      (∀ id, id ∈ roots ↔ (contents s).IsTarget ids id) ∧
      (ids ≠ [] → roots = ids.filter (contents s).isRoot) ∧
      (ids = [] → roots.Pairwise (· < ·)) := by
  rw [Store.rootsToDelete]
  cases ids with
  | nil =>
    obtain ⟨ns, hns, hsorted, hmem⟩ := hs.exists_datasetRoots
    rw [if_pos List.isEmpty_nil, hns]
    refine ⟨_, rfl, ?_, fun h => absurd rfl h, fun _ => List.pairwise_map.2 hsorted⟩
    intro id
    rw [List.mem_map, Contents.IsTarget, Contents.isRoot_eq_true_iff]
    constructor
    · intro hx
      obtain ⟨n, hn, rfl⟩ := hx
      exact ⟨⟨n, (hmem n).1 hn⟩, .inl rfl⟩
    · intro hx
      obtain ⟨⟨n, hread, hdataset⟩, _⟩ := hx
      have hid := hs.wellFormed.read?_id hread
      exact ⟨n, (hmem n).2 ⟨by rwa [hid], hdataset⟩, hid⟩
  | cons i is =>
    have hfilter : (((i :: is).filterMap (contents s).read?).filter Node.isDataset).map Node.id =
        (i :: is).filter (contents s).isRoot := by
      generalize i :: is = ids
      induction ids with
      | nil => rfl
      | cons id ids ih =>
        rw [List.filter_cons, Contents.isRoot]
        cases hread : (contents s).read? id with
        | none =>
          rw [List.filterMap_cons_none hread, ih]
          rfl
        | some n =>
          rw [List.filterMap_cons_some hread, List.filter_cons, Option.any_some]
          by_cases hdataset : n.isDataset = true
          · rw [if_pos hdataset, if_pos hdataset, List.map_cons, ih, hs.wellFormed.read?_id hread]
          · rw [if_neg hdataset, if_neg hdataset, ih]
    rw [if_neg (by rw [List.isEmpty_cons]; decide), hs.readNodes_eq]
    refine ⟨_, rfl, ?_, fun _ => hfilter, fun h => absurd h (List.cons_ne_nil _ _)⟩
    intro id
    rw [hfilter, List.mem_filter, Contents.IsTarget, and_comm]
    simp

/-- A walk from a target finds what hangs off it. -/
theorem exists_doomedBy (hs : Valid s) {target : String}
    (htarget : (contents s).isRoot target = true) :
    ∃ ids, Store.doomedBy s target = .ok ids ∧
      ∀ id, id ∈ ids ↔ id = target ∨ (contents s).HangsOff target id := by
  obtain ⟨r, hr, hrdataset⟩ := Contents.isRoot_eq_true_iff.1 htarget
  obtain ⟨hood, hwalk, hroot, hexact⟩ :=
    hs.exists_walk_eq_some maxHops (fun n => !n.isDataset) hr
  rw [Store.doomedBy, hwalk]
  refine ⟨_, rfl, ?_⟩
  intro id
  rw [List.mem_cons]
  apply or_congr_right
  simp only [List.mem_map, List.mem_filter]
  constructor
  · intro h
    obtain ⟨n, ⟨⟨⟨n, d⟩, hn, rfl⟩, hdependent⟩, rfl⟩ := h
    obtain ⟨hread, hpos, hle, hdist⟩ := hexact.mem_nodes_iff.1 hn
    rw [hroot] at hdist
    have hpass : n.isDataset = false := by
      rcases hdist.1.read with heq | ⟨m, hm, hpass⟩
      · exact absurd heq (hdist.ne_root hpos)
      · cases Option.some.inj (hm.symm.trans hread)
        simpa using hpass
    refine ⟨n, hread, hdependent, hpass, d, hle, hdist.1.imp ?_⟩
    intro m hm
    rw [hm, Bool.or_true]
  · intro h
    obtain ⟨n, hread, hdependent, hdataset, k, hk, hpath⟩ := h
    have hid := hs.wellFormed.read?_id hread
    obtain ⟨d, hd, hdist⟩ := Contents.within_iff.1 (hs.wellFormed.within_of_returning hpath)
    -- The target is a dataset and the node is none.
    have hpos : 1 ≤ d := by
      by_contra hzero
      obtain rfl : d = 0 := by omega
      obtain rfl := Contents.path_zero_iff.1 hdist.1
      cases Option.some.inj (hr.symm.trans hread)
      rw [hrdataset] at hdataset
      cases hdataset
    refine ⟨n, ⟨⟨(n, d), hexact.mem_nodes_iff.2 ?_, rfl⟩, hdependent⟩, hid⟩
    rw [hroot, hid]
    exact ⟨hread, hpos, hd.trans hk, hdist⟩

theorem exists_doomed (hs : Valid s) {ids roots : List String}
    (hroots : ∀ id, id ∈ roots ↔ (contents s).IsTarget ids id) :
    ∃ doomed, roots.mapM (Store.doomedBy s) = .ok doomed ∧
      ∀ id, id ∈ doomed.flatten ↔ (contents s).Doomed ids id := by
  obtain ⟨doomed, hdoomed, _⟩ := Fallible.exists_mapM_ok fun target (ht : target ∈ roots) =>
    hs.exists_doomedBy ((hroots target).1 ht).1
  refine ⟨doomed, hdoomed, ?_⟩
  intro id
  rw [List.mem_flatten]
  constructor
  · intro h
    obtain ⟨is, his, hid⟩ := h
    obtain ⟨target, ht, hdoomedBy⟩ := (Fallible.mem_of_mapM_eq_ok hdoomed).1 his
    have htarget := (hroots target).1 ht
    obtain ⟨js, hjs, hmem⟩ := hs.exists_doomedBy htarget.1
    cases Except.ok.inj (hdoomedBy.symm.trans hjs)
    rcases (hmem id).1 hid with rfl | hhangs
    · exact .inl htarget
    · exact .inr ⟨target, htarget, hhangs⟩
  · have found : ∀ target, (contents s).IsTarget ids target →
        id = target ∨ (contents s).HangsOff target id → ∃ is, is ∈ doomed ∧ id ∈ is := by
      intro target htarget hid
      obtain ⟨is, his, hmem⟩ := hs.exists_doomedBy htarget.1
      exact ⟨is, (Fallible.mem_of_mapM_eq_ok hdoomed).2 ⟨target, (hroots target).2 htarget, his⟩,
        (hmem id).2 hid⟩
    intro h
    rcases h with htarget | ⟨target, htarget, hhangs⟩
    · exact found id htarget (.inl rfl)
    · exact found target htarget (.inr hhangs)

end

end Valid

/-! ## Deletions -/

/-- What is stored after a deletion, and what it reports. -/
structure Deletes (s : σ) (ids : List String) (status : DeleteStatus) (t : σ) : Prop where
  /-- What is not doomed stays as it was. -/
  mem_allNodes_iff (n : StoredNode) :
    n ∈ allNodes t ↔ n ∈ allNodes s ∧ ¬(contents s).Doomed ids n.id
  mem_allEdges_iff (e : StoredEdge) : e ∈ allEdges t ↔
    e ∈ allEdges s ∧ ¬(contents s).Doomed ids e.source ∧ ¬(contents s).Doomed ids e.target
  deleted_eq : ∃ doomed : Finset String,
    (∀ id, id ∈ doomed ↔ (contents s).Doomed ids id) ∧ status.deleted = doomed.card
  /-- The targets, in the order in which they are asked for, with repeats. -/
  roots_eq : ids ≠ [] → status.roots = ids.filter (contents s).isRoot
  roots_of_all : ids = [] → status.roots.Pairwise (· < ·) ∧
    ∀ id, id ∈ status.roots ↔ (contents s).isRoot id = true
  /-- No other dataset is removed. -/
  keeps_roots {id : String} : (contents s).isRoot id = true → ¬(contents s).IsTarget ids id →
    (contents t).read? id = (contents s).read? id
  eq_of_no_target : ids ≠ [] → (∀ id ∈ ids, (contents s).isRoot id = false) → t = s

theorem Deletes.node?_eq_some_iff {t : σ} {ids : List String} {status : DeleteStatus}
    (h : Deletes s ids status t) (hs : Valid s) (ht : Valid t) {id : String} {n : StoredNode} :
    (contents t).node? id = some n ↔
      (contents s).node? id = some n ∧ ¬(contents s).Doomed ids id := by
  rw [node?_contents, node?_contents, LawfulBackend.node?_eq_some_iff hs.sound,
    LawfulBackend.node?_eq_some_iff ht.sound, h.mem_allNodes_iff]
  constructor
  · intro hx
    obtain ⟨⟨hn, hdoomed⟩, rfl⟩ := hx
    exact ⟨⟨hn, rfl⟩, hdoomed⟩
  · intro hx
    obtain ⟨⟨hn, rfl⟩, hdoomed⟩ := hx
    exact ⟨⟨hn, hdoomed⟩, rfl⟩

theorem Deletes.edge?_eq_some_iff {t : σ} {ids : List String} {status : DeleteStatus}
    (h : Deletes s ids status t) (hs : Valid s) (ht : Valid t) {k : RelationKey}
    {p : Properties} : (contents t).edge? k = some p ↔ (contents s).edge? k = some p ∧
      ¬(contents s).Doomed ids k.source ∧ ¬(contents s).Doomed ids k.target := by
  rw [edge?_contents_eq_some_iff ht.sound, edge?_contents_eq_some_iff hs.sound,
    h.mem_allEdges_iff]
  rfl

/-! ## Deletions that come to what cannot be read -/

/-- A deletion is asked for a node that cannot be read, or for all datasets, one of which cannot. -/
def TargetsUnreadable (s : σ) (ids : List String) : Prop :=
  ids = [] ∧ DatasetUnreadable s ∨ ∃ id ∈ ids, NodeUnreadable s id

/-- A deletion has to read something that cannot be read, when it looks for its targets or on a walk
from one of them. -/
def DeletionUnreadable (s : σ) (ids : List String) : Prop :=
  TargetsUnreadable s ids ∨ ∃ target, (contents s).IsTarget ids target ∧
    WalkUnreadable s target maxHops fun n => !n.isDataset

theorem Legible.not_deletionUnreadable (h : Legible s) (ids : List String) :
    ¬DeletionUnreadable s ids := by
  rintro ((⟨_, hdataset⟩ | ⟨id, _, hid⟩) | ⟨target, _, hwalk⟩)
  · exact h.not_datasetUnreadable hdataset
  · exact h.node id hid
  · exact h.not_walkUnreadable _ _ _ hwalk

open Classical in
theorem Valid.rootsToDelete_eq_ite (hs : Valid s) (ids : List String) :
    Store.rootsToDelete s ids = if TargetsUnreadable s ids then .error .unreadable
      else Store.rootsToDelete (⟨s⟩ : DeepReader σ) ids := by
  rw [Store.rootsToDelete, Store.rootsToDelete]
  cases ids with
  | nil =>
    have htargets : TargetsUnreadable s [] ↔ DatasetUnreadable s := by simp [TargetsUnreadable]
    rw [if_pos List.isEmpty_nil, if_pos List.isEmpty_nil, hs.datasetRoots_eq_ite]
    simp only [htargets]
    split
    · rfl
    · rfl
  | cons i is =>
    have htargets : TargetsUnreadable s (i :: is) ↔ ∃ id ∈ i :: is, NodeUnreadable s id := by
      simp [TargetsUnreadable]
    have hsome : ¬(i :: is).isEmpty = true := by simp
    rw [if_neg hsome, if_neg hsome, hs.readNodes_eq_ite, hs.deepReader.readNodes_eq]
    simp only [htargets]
    split
    · rfl
    · rfl

open Classical in
theorem Valid.doomedBy_eq_ite (hs : Valid s) (target : String) :
    Store.doomedBy s target =
      if WalkUnreadable s target maxHops fun n => !n.isDataset then .error .unreadable
      else Store.doomedBy (⟨s⟩ : DeepReader σ) target := by
  rw [Store.doomedBy, Store.doomedBy, hs.walk_eq_ite]
  split
  · rfl
  · rfl

/-- What a deletion removes, and where it starts. -/
structure DeletionPlan (s : σ) (ids : List String) (doomed roots : List String) : Prop where
  nodup : doomed.Nodup
  mem_doomed_iff (id : String) : id ∈ doomed ↔ (contents s).Doomed ids id
  mem_roots_iff (id : String) : id ∈ roots ↔ (contents s).IsTarget ids id
  roots_eq : ids ≠ [] → roots = ids.filter (contents s).isRoot
  roots_of_all : ids = [] → roots.Pairwise (· < ·)

open Classical in
/-- A deletion removes the doomed nodes one after the other.  It fails exactly if it has to read
something that cannot be read. -/
theorem Valid.exists_cascadeDelete_eq (hs : Valid s) (ids : List String) :
    ∃ doomed roots, DeletionPlan s ids doomed roots ∧
      Store.cascadeDelete s ids = if DeletionUnreadable s ids then .error .unreadable
        else .ok (⟨doomed.length, roots⟩, doomed.foldl Backend.deleteNode s) := by
  obtain ⟨roots, hroots, htargets, hsome, hall⟩ := hs.deepReader.exists_rootsToDelete ids
  obtain ⟨doomed, hdoomed, hmem⟩ := hs.deepReader.exists_doomed htargets
  have hdistinct : ∀ id, id ∈ distinct doomed.flatten ↔ (contents s).Doomed ids id := by
    intro id
    rw [mem_distinct]
    exact hmem id
  have hwalks := Fallible.mapM_eq_ite (fun target _ => hs.doomedBy_eq_ite target) ⟨doomed, hdoomed⟩
  have hunreadable : DeletionUnreadable s ids ↔ TargetsUnreadable s ids ∨
      ∃ target ∈ roots, WalkUnreadable s target maxHops fun n => !n.isDataset :=
    or_congr_right (exists_congr fun target => and_congr_left fun _ => (htargets target).symm)
  refine ⟨distinct doomed.flatten, roots,
    ⟨nodup_distinct _, hdistinct, htargets, hsome, hall⟩, ?_⟩
  simp only [hunreadable]
  rw [Store.cascadeDelete, hs.rootsToDelete_eq_ite, hroots]
  by_cases hfirst : TargetsUnreadable s ids
  · rw [if_pos hfirst, if_pos (.inl hfirst)]
    rfl
  · rw [if_neg hfirst]
    show (roots.mapM (Store.doomedBy s) >>= _) = _
    rw [hwalks, hdoomed]
    by_cases hwalk : ∃ target ∈ roots, WalkUnreadable s target maxHops fun n => !n.isDataset
    · rw [if_pos hwalk, if_pos (.inr hwalk)]
      rfl
    · rw [if_neg hwalk, if_neg (not_or.2 ⟨hfirst, hwalk⟩)]
      have hdelete := hs.deleteNodes_eq (nodup_distinct doomed.flatten) fun id hid =>
        hs.wellFormed.stored_of_doomed ((hdistinct id).1 hid)
      show Except.ok (DeleteStatus.mk (Backend.deleteNodes s _).1 roots,
        (Backend.deleteNodes s _).2) = _
      rw [hdelete]

theorem Valid.cascadeDelete_of_unreadable (hs : Valid s) {ids : List String}
    (h : DeletionUnreadable s ids) : Store.cascadeDelete s ids = .error .unreadable := by
  obtain ⟨_, _, _, hdelete⟩ := hs.exists_cascadeDelete_eq ids
  rw [hdelete, if_pos h]

theorem Valid.exists_cascadeDelete (hs : Valid s) {ids : List String}
    (hreadable : ¬DeletionUnreadable s ids) :
    ∃ status t, Store.cascadeDelete s ids = .ok (status, t) ∧ Deletes s ids status t := by
  obtain ⟨doomed, roots, ⟨hnodup, hdoomed, htargets, hsome, hall⟩, hdelete⟩ :=
    hs.exists_cascadeDelete_eq ids
  rw [if_neg hreadable] at hdelete
  refine ⟨_, _, hdelete, ?_⟩
  constructor
  case mem_allNodes_iff =>
    intro n
    rw [hs.mem_allNodes_foldl_deleteNode, hdoomed]
  case mem_allEdges_iff =>
    intro e
    rw [hs.mem_allEdges_foldl_deleteNode, hdoomed, hdoomed]
  case deleted_eq =>
    refine ⟨doomed.toFinset, ?_, ?_⟩
    · intro id
      rw [List.mem_toFinset, hdoomed]
    · rw [List.toFinset_card_of_nodup hnodup]
  case roots_eq => exact hsome
  case roots_of_all =>
    intro hids
    refine ⟨hall hids, fun id => ?_⟩
    rw [htargets, Contents.IsTarget]
    simp [hids]
  case keeps_roots =>
    intro id hroot htarget
    have hid : id ∉ doomed := by
      rw [hdoomed]
      exact fun hid => htarget (hid.isTarget hroot)
    rw [Contents.read?, hs.contents_foldl_deleteNode, Contents.node?_foldl_deleteNode, if_neg hid,
      Contents.read?]
  case eq_of_no_target =>
    intro hids hnone
    have hempty : doomed = [] := by
      rw [List.eq_nil_iff_forall_not_mem]
      intro id hid
      refine Contents.not_doomed ?_ ((hdoomed id).1 hid)
      rintro j ⟨hroot, hj⟩
      rw [hnone j (hj.resolve_left hids)] at hroot
      cases hroot
    rw [hempty]
    rfl

/-- A deletion in a reachable store removes what is doomed and nothing else.  It fails exactly if it
comes to something that cannot be read. -/
theorem cascadeDelete_exact (h : Reachable s) (ids : List String) :
    (¬DeletionUnreadable s ids →
      ∃ status t, Store.cascadeDelete s ids = .ok (status, t) ∧ Deletes s ids status t) ∧
    (DeletionUnreadable s ids → Store.cascadeDelete s ids = .error .unreadable) :=
  ⟨h.valid.exists_cascadeDelete, h.valid.cascadeDelete_of_unreadable⟩

/-- A file goes with the first of two datasets that share it, and the second dataset stays. -/
theorem cascadeDelete_shared_file :
    (Reachable (sharing ["a", "b"] : AdjacencyStore) ∧ ∃ status t,
      Store.cascadeDelete (sharing ["a", "b"] : AdjacencyStore) ["a", "f"] = .ok (status, t) ∧
        Deletes (sharing ["a", "b"] : AdjacencyStore) ["a", "f"] status t ∧
          status = ⟨2, ["a"]⟩) ∧
    Reachable (sharing ["a", "b"] : TableStore) ∧ ∃ status t,
      Store.cascadeDelete (sharing ["a", "b"] : TableStore) ["a", "f"] = .ok (status, t) ∧
        Deletes (sharing ["a", "b"] : TableStore) ["a", "f"] status t ∧ status = ⟨2, ["a"]⟩ := by
  have hmemory : ((Store.cascadeDelete (sharing ["a", "b"] : AdjacencyStore) ["a", "f"]).map
      Prod.fst).toOption = some ⟨2, ["a"]⟩ := by decide +kernel
  have htables : ((Store.cascadeDelete (sharing ["a", "b"] : TableStore) ["a", "f"]).map
      Prod.fst).toOption = some ⟨2, ["a"]⟩ := by cbv
  refine ⟨⟨reachable_sharing _, ?_⟩, reachable_sharing _, ?_⟩
  · obtain ⟨hexact, hfails⟩ :=
      cascadeDelete_exact (reachable_sharing (σ := AdjacencyStore) ["a", "b"]) ["a", "f"]
    obtain ⟨status, t, h, hdeletes⟩ := hexact fun hunreadable => by
      rw [hfails hunreadable] at hmemory
      cases hmemory
    rw [h] at hmemory
    exact ⟨status, t, h, hdeletes, Option.some.inj hmemory⟩
  · obtain ⟨hexact, hfails⟩ :=
      cascadeDelete_exact (reachable_sharing (σ := TableStore) ["a", "b"]) ["a", "f"]
    obtain ⟨status, t, h, hdeletes⟩ := hexact fun hunreadable => by
      rw [hfails hunreadable] at htables
      cases htables
    rw [h] at htables
    exact ⟨status, t, h, hdeletes, Option.some.inj htables⟩

end

end DatasetGraph
