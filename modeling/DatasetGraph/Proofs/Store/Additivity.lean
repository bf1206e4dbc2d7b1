import DatasetGraph.Proofs.Store.Cascade

/-!
# Deletions add up

A deletion of several datasets removes just the nodes that deletions of each of them would remove
(`Contents.doomed_append`), and neither the order in which they are named nor repeats leave a trace.

Deletions one after the other remove no more than that.  They may remove less: the first one can cut
the paths by which the second dataset would have been left.  But what is left of a store is a part of
it (`Contents.PartOf`), so no path is new, and a node that is doomed then was doomed from the start.
Datasets do not go with others, so of these exactly the same are removed.  For the same reason the
second deletion does not come to anything that it would not have come to from the start, and can be
read if that could be read (`Deletes.unreadable`).
-/

namespace DatasetGraph

/-! ## Parts of contents -/

/-- All that is there is there in other contents as well. -/
structure Contents.PartOf (c d : Contents) : Prop where
  node {id : String} {n : StoredNode} : c.node? id = some n → d.node? id = some n
  edge {k : RelationKey} {p : Properties} : c.edge? k = some p → d.edge? k = some p

namespace Contents.PartOf

variable {c d : Contents}

theorem read? (h : c.PartOf d) {id : String} {n : Node} (hn : c.read? id = some n) :
    d.read? id = some n := by
  obtain ⟨m, hm, hmn⟩ := read?_eq_some_iff.1 hn
  exact read?_eq_some_iff.2 ⟨m, h.node hm, hmn⟩

theorem joined (h : c.PartOf d) {a b : String} (hab : c.Joined a b) : d.Joined a b := by
  obtain ⟨k, hk, hends⟩ := hab
  obtain ⟨p, hp⟩ := Option.isSome_iff_exists.1 hk
  exact ⟨k, Option.isSome_iff_exists.2 ⟨p, h.edge hp⟩, hends⟩

/-- No path is new in a part. -/
theorem path (h : c.PartOf d) {pass : Node → Bool} {root : String} {k : Nat} {id : String}
    (hpath : c.Path pass root k id) : d.Path pass root k id := by
  induction hpath with
  | start => exact .start
  | step _ joined read passes ih => exact .step ih (h.joined joined) (h.read? read) passes

theorem isRoot (h : c.PartOf d) {id : String} (hroot : c.isRoot id = true) :
    d.isRoot id = true := by
  obtain ⟨n, hn, hdataset⟩ := isRoot_eq_true_iff.1 hroot
  exact isRoot_eq_true_iff.2 ⟨n, h.read? hn, hdataset⟩

theorem isTarget (h : c.PartOf d) {ids : List String} {id : String} (ht : c.IsTarget ids id) :
    d.IsTarget ids id :=
  ⟨h.isRoot ht.1, ht.2⟩

theorem hangsOff (h : c.PartOf d) {target id : String} (hid : c.HangsOff target id) :
    d.HangsOff target id := by
  obtain ⟨n, hn, hdependent, hdataset, k, hk, hpath⟩ := hid
  exact ⟨n, h.read? hn, hdependent, hdataset, k, hk, h.path hpath⟩

/-- What is doomed in a part is doomed in the whole. -/
theorem doomed (h : c.PartOf d) {ids : List String} {id : String} (hid : c.Doomed ids id) :
    d.Doomed ids id := by
  rcases hid with htarget | ⟨target, htarget, hhangs⟩
  · exact .inl (h.isTarget htarget)
  · exact .inr ⟨target, h.isTarget htarget, h.hangsOff hhangs⟩

end Contents.PartOf

/-! ## Lists of datasets -/

namespace Contents

variable {c : Contents} {a b : List String} {id : String}

theorem isTarget_append (ha : a ≠ []) (hb : b ≠ []) :
    c.IsTarget (a ++ b) id ↔ c.IsTarget a id ∨ c.IsTarget b id := by
  simp [IsTarget, ha, hb, and_or_left]

/-- What two lists of datasets doom together, one of them dooms alone. -/
theorem doomed_append (ha : a ≠ []) (hb : b ≠ []) :
    c.Doomed (a ++ b) id ↔ c.Doomed a id ∨ c.Doomed b id := by
  simp only [Doomed, isTarget_append ha hb, or_and_right, exists_or]
  exact or_or_or_comm

theorem doomed_congr (h : ∀ i, i ∈ a ↔ i ∈ b) : c.Doomed a id ↔ c.Doomed b id := by
  have hnil : a = [] ↔ b = [] := by
    rw [List.eq_nil_iff_forall_not_mem, List.eq_nil_iff_forall_not_mem]
    exact forall_congr' fun i => not_congr (h i)
  have htarget : ∀ i, c.IsTarget a i ↔ c.IsTarget b i := by
    intro i
    rw [IsTarget, IsTarget, hnil, h]
  simp only [Doomed, htarget]

end Contents

/-! ## What a deletion removes -/

/-- Whether a deletion that led from one store to another removed the node with an id. -/
def Removes {σ : Type} [Backend σ] (s t : σ) (id : String) : Prop :=
  Backend.hasNode s id = true ∧ Backend.hasNode t id = false

section

variable {σ : Type} [LawfulBackend σ] {s t u : σ} {ids a b : List String} {status : DeleteStatus}

namespace Deletes

theorem partOf (h : Deletes s ids status t) (hs : Valid s) (ht : Valid t) :
    (contents t).PartOf (contents s) where
  node hn := ((h.node?_eq_some_iff hs ht).1 hn).1
  edge hp := ((h.edge?_eq_some_iff hs ht).1 hp).1

theorem hasNode_iff (h : Deletes s ids status t) (hs : Valid s) (ht : Valid t) {id : String} :
    Backend.hasNode t id = true ↔
      Backend.hasNode s id = true ∧ ¬(contents s).Doomed ids id := by
  show ((contents t).node? id).isSome = true ↔ ((contents s).node? id).isSome = true ∧ _
  simp only [Option.isSome_iff_exists, h.node?_eq_some_iff hs ht, exists_and_right]

/-- The nodes that are removed are the doomed ones. -/
theorem removes_iff (h : Deletes s ids status t) (hs : Valid s) (ht : Valid t) {id : String} :
    Removes s t id ↔ (contents s).Doomed ids id := by
  rw [Removes, ← Bool.not_eq_true, h.hasNode_iff hs ht, not_and, not_not]
  constructor
  · rintro ⟨hstored, hdoomed⟩
    exact hdoomed hstored
  · exact fun hdoomed => ⟨hs.wellFormed.stored_of_doomed hdoomed, fun _ => hdoomed⟩

/-- After a deletion no dataset is left that it was asked for. -/
theorem not_isTarget (h : Deletes s ids status t) (hs : Valid s) (ht : Valid t) {id : String} :
    ¬(contents t).IsTarget ids id := by
  intro htarget
  have hdoomed : (contents s).Doomed ids id := .inl ((h.partOf hs ht).isTarget htarget)
  have hstored := ht.wellFormed.stored_of_doomed (.inl htarget)
  exact ((h.hasNode_iff hs ht).1 hstored).2 hdoomed

end Deletes

/-- How the deletion of two lists of datasets at once, which led from `s` to `both`, compares with
their deletions on their own, which led to `first` and `second`, and with the second deletion after
the first, which led on to `after`. -/
structure AddUp (s both first second after : σ) : Prop where
  union (id : String) : Removes s both id ↔ Removes s first id ∨ Removes s second id
  subset {id : String} : Removes s after id → Removes s both id
  datasets {id : String} : (contents s).isRoot id = true →
    (Removes s after id ↔ Removes s both id)

/-! ### What cannot be read -/

namespace Deletes

theorem nodeUnreadable (h : Deletes s ids status t) (hs : Valid s) (ht : Valid t) {id : String}
    (hid : NodeUnreadable t id) : NodeUnreadable s id := by
  obtain ⟨n, hn, hnot⟩ := hid
  exact ⟨n, (h.partOf hs ht).node hn, hnot⟩

theorem edgeUnreadable (h : Deletes s ids status t) {id : String} (hid : EdgeUnreadable t id) :
    EdgeUnreadable s id := by
  obtain ⟨e, he, htouches, hnot⟩ := hid
  exact ⟨e, ((h.mem_allEdges_iff e).1 he).1, htouches, hnot⟩

theorem walkUnreadable (h : Deletes s ids status t) (hs : Valid s) (ht : Valid t) {root : String}
    {hops : Nat} {pass : Node → Bool} (hwalk : WalkUnreadable t root hops pass) :
    WalkUnreadable s root hops pass := by
  have hpart := h.partOf hs ht
  rcases hwalk with hroot | ⟨k, hk, id, hpath, hedge | ⟨b, hjoined, hb⟩⟩
  · exact .inl (h.nodeUnreadable hs ht hroot)
  · exact .inr ⟨k, hk, id, hpart.path hpath, .inl (h.edgeUnreadable hedge)⟩
  · exact .inr ⟨k, hk, id, hpart.path hpath,
      .inr ⟨b, hpart.joined hjoined, h.nodeUnreadable hs ht hb⟩⟩

/-- What cannot be read after a deletion could not be read before it. -/
theorem unreadable (h : Deletes s ids status t) (hs : Valid s) (ht : Valid t) {b : List String}
    (hb : DeletionUnreadable t b) : DeletionUnreadable s b := by
  have hpart := h.partOf hs ht
  rcases hb with (⟨hempty, id, n, hn, hdataset, hid⟩ | ⟨id, hid, hnot⟩) | ⟨target, htarget, hwalk⟩
  · exact .inl (.inl ⟨hempty, id, n, hpart.read? hn, hdataset, h.nodeUnreadable hs ht hid⟩)
  · exact .inl (.inr ⟨id, hid, h.nodeUnreadable hs ht hnot⟩)
  · exact .inr ⟨target, hpart.isTarget htarget, h.walkUnreadable hs ht hwalk⟩

end Deletes

theorem deletionUnreadable_append (ha : a ≠ []) (hb : b ≠ []) :
    DeletionUnreadable s (a ++ b) ↔ DeletionUnreadable s a ∨ DeletionUnreadable s b := by
  have htargets : TargetsUnreadable s (a ++ b) ↔ TargetsUnreadable s a ∨ TargetsUnreadable s b := by
    simp [TargetsUnreadable, ha, hb, or_and_right, exists_or]
  simp only [DeletionUnreadable, htargets, Contents.isTarget_append ha hb, or_and_right, exists_or]
  exact or_or_or_comm

theorem deletionUnreadable_congr (h : ∀ id, id ∈ a ↔ id ∈ b) :
    DeletionUnreadable s a ↔ DeletionUnreadable s b := by
  have hempty : a = [] ↔ b = [] := by
    simp only [List.eq_nil_iff_forall_not_mem, h]
  simp only [DeletionUnreadable, TargetsUnreadable, Contents.IsTarget, h, hempty]

/-- What a second deletion removes besides the first. -/
theorem Deletes.removes_after_iff {status' : DeleteStatus} (h : Deletes s a status t)
    (h' : Deletes t b status' u) (hs : Valid s) (ht : Valid t) (hu : Valid u) {id : String} :
    Removes s u id ↔ (contents s).Doomed a id ∨ (contents t).Doomed b id := by
  rw [Removes, ← Bool.not_eq_true, h'.hasNode_iff ht hu, h.hasNode_iff hs ht]
  constructor
  · rintro ⟨hstored, hgone⟩
    by_contra hnot
    rw [not_or] at hnot
    exact hgone ⟨⟨hstored, hnot.1⟩, hnot.2⟩
  · rintro (hdoomed | hdoomed)
    · exact ⟨hs.wellFormed.stored_of_doomed hdoomed, fun hkept => hkept.1.2 hdoomed⟩
    · have hstored := hs.wellFormed.stored_of_doomed ((h.partOf hs ht).doomed hdoomed)
      exact ⟨hstored, fun hkept => hkept.2 hdoomed⟩

theorem Valid.exists_addUp (hs : Valid s) (ha : a ≠ []) (hb : b ≠ [])
    (hreadable : ¬DeletionUnreadable s (a ++ b)) :
    ∃ both first second after, Store.cascadeDelete s (a ++ b) = .ok both ∧
      Store.cascadeDelete s a = .ok first ∧ Store.cascadeDelete s b = .ok second ∧
      Store.cascadeDelete first.2 b = .ok after ∧
      AddUp s both.2 first.2 second.2 after.2 := by
  have hboth := hreadable
  rw [deletionUnreadable_append ha hb, not_or] at hreadable
  obtain ⟨_, both, hboth, hdeletesBoth⟩ := hs.exists_cascadeDelete hboth
  obtain ⟨_, first, hfirst, hdeletesFirst⟩ := hs.exists_cascadeDelete hreadable.1
  obtain ⟨_, second, hsecond, hdeletesSecond⟩ := hs.exists_cascadeDelete hreadable.2
  have hvalid : Valid first := hs.cascadeDelete hfirst
  obtain ⟨_, after, hafter, hdeletesAfter⟩ :=
    hvalid.exists_cascadeDelete (mt (hdeletesFirst.unreadable hs hvalid) hreadable.2)
  have hpart := hdeletesFirst.partOf hs hvalid
  have hbothIff : ∀ id, Removes s both id ↔
      (contents s).Doomed a id ∨ (contents s).Doomed b id := by
    intro id
    rw [hdeletesBoth.removes_iff hs (hs.cascadeDelete hboth), Contents.doomed_append ha hb]
  have hafterIff : ∀ id, Removes s after id ↔
      (contents s).Doomed a id ∨ (contents first).Doomed b id := fun id =>
    hdeletesFirst.removes_after_iff hdeletesAfter hs hvalid (hvalid.cascadeDelete hafter)
  have hsubset : ∀ id, Removes s after id → Removes s both id := by
    intro id hid
    rw [hafterIff] at hid
    exact (hbothIff id).2 (hid.imp_right hpart.doomed)
  refine ⟨_, _, _, _, hboth, hfirst, hsecond, hafter, ?_, fun hid => hsubset _ hid, ?_⟩
  · intro id
    rw [hbothIff, hdeletesFirst.removes_iff hs hvalid,
      hdeletesSecond.removes_iff hs (hs.cascadeDelete hsecond)]
  · intro id hroot
    refine ⟨hsubset id, fun hid => (hafterIff id).2 ?_⟩
    -- A dataset that only the second list names is still there after the first deletion.
    by_cases htarget : (contents s).IsTarget a id
    · exact .inl (.inl htarget)
    · have hsecondTarget := (((hbothIff id).1 hid).resolve_left
        fun hdoomed => htarget (hdoomed.isTarget hroot)).isTarget hroot
      refine .inr (.inl ⟨?_, hsecondTarget.2⟩)
      rwa [Contents.isRoot, hdeletesFirst.keeps_roots hroot htarget, ← Contents.isRoot]

/-- A deletion that finds no dataset leaves the store as it is. -/
theorem Valid.cascadeDelete_of_no_target (hs : Valid s)
    (h : ∀ id, ¬(contents s).IsTarget ids id) (hreadable : ¬DeletionUnreadable s ids) :
    Store.cascadeDelete s ids = .ok (⟨0, []⟩, s) := by
  obtain ⟨doomed, roots, hplan, hdelete⟩ := hs.exists_cascadeDelete_eq ids
  have hroots : roots = [] := by
    rw [List.eq_nil_iff_forall_not_mem]
    exact fun id hid => h id ((hplan.mem_roots_iff id).1 hid)
  have hdoomed : doomed = [] := by
    rw [List.eq_nil_iff_forall_not_mem]
    exact fun id hid => Contents.not_doomed h ((hplan.mem_doomed_iff id).1 hid)
  rw [hdelete, if_neg hreadable, hroots, hdoomed]
  rfl

theorem Valid.exists_cascadeDelete_twice (hs : Valid s) (hreadable : ¬DeletionUnreadable s ids) :
    ∃ r, Store.cascadeDelete s ids = .ok r ∧ Store.cascadeDelete r.2 ids = .ok (⟨0, []⟩, r.2) := by
  obtain ⟨status, t, hdelete, hdeletes⟩ := hs.exists_cascadeDelete hreadable
  have ht : Valid t := hs.cascadeDelete hdelete
  exact ⟨_, hdelete, ht.cascadeDelete_of_no_target (fun _ => hdeletes.not_isTarget hs ht)
    (mt (hdeletes.unreadable hs ht) hreadable)⟩

end

/-! ## The order of deletions -/

/-- A backend in which the order of removals leaves no trace. -/
class TracelessBackend (σ : Type) extends LawfulBackend σ where
  deleteNode_comm (s : σ) (i j : String) : Backend.deleteNode (Backend.deleteNode s i) j =
    Backend.deleteNode (Backend.deleteNode s j) i

namespace TableStore

theorem deleteNode_comm (s : TableStore) (i j : String) :
    (s.deleteNode i).deleteNode j = (s.deleteNode j).deleteNode i := by
  simp [deleteNode, List.filter_filter, Bool.and_comm]

instance : TracelessBackend TableStore where
  deleteNode_comm := deleteNode_comm

end TableStore

namespace AdjacencyStore

variable {s : AdjacencyStore}

theorem deleteNode_of_get?_eq_none {id : String} (h : s.index.get? id = none) :
    s.deleteNode id = s := by
  rw [deleteNode, h]

theorem get?_index_deleteNode (i j : String) :
    (s.deleteNode i).index.get? j = if j = i then none else s.index.get? j := by
  cases hi : s.index.get? i with
  | none =>
    rw [deleteNode_of_get?_eq_none hi]
    split
    · next hij => rw [hij, hi]
    · rfl
  | some place =>
    rw [deleteNode, hi]
    exact KeyMap.get?_erase _ i j

theorem deleteNode_deleteNode {i j : String} {a b : Nat} (hij : j ≠ i)
    (hi : s.index.get? i = some a) (hj : s.index.get? j = some b) :
    (s.deleteNode i).deleteNode j =
      { s with
        places := (s.places.set a none).set b none
        index := (s.index.erase i).erase j
        links := s.links.filter fun l => !l.touches a && !l.touches b } := by
  have hlater : (s.deleteNode i).index.get? j = some b := by
    rw [get?_index_deleteNode, if_neg hij, hj]
  rw [deleteNode, hlater, deleteNode, hi]
  simp only [List.filter_filter, Bool.and_comm]

theorem deleteNode_comm (s : AdjacencyStore) (i j : String) :
    (s.deleteNode i).deleteNode j = (s.deleteNode j).deleteNode i := by
  by_cases hij : j = i
  · rw [hij]
  cases hi : s.index.get? i with
  | none =>
    have hlater : (s.deleteNode j).index.get? i = none := by
      rw [get?_index_deleteNode, if_neg (Ne.symm hij), hi]
    rw [deleteNode_of_get?_eq_none hi, deleteNode_of_get?_eq_none hlater]
  | some a =>
    cases hj : s.index.get? j with
    | none =>
      have hlater : (s.deleteNode i).index.get? j = none := by
        rw [get?_index_deleteNode, if_neg hij, hj]
      rw [deleteNode_of_get?_eq_none hj, deleteNode_of_get?_eq_none hlater]
    | some b =>
      have hplaces : (s.places.set a none).set b none = (s.places.set b none).set a none := by
        by_cases hab : a = b
        · rw [hab]
        · exact List.set_comm _ _ hab
      have hindex : (s.index.erase i).erase j = (s.index.erase j).erase i := by
        apply KeyMap.ext_get?
        intro k
        simp only [KeyMap.get?_erase]
        by_cases hk : k = j
        · simp only [if_pos hk, ite_self]
        · simp only [if_neg hk]
      rw [deleteNode_deleteNode hij hi hj, deleteNode_deleteNode (Ne.symm hij) hj hi, hplaces,
        hindex]
      simp only [Bool.and_comm]

instance : TracelessBackend AdjacencyStore where
  deleteNode_comm := deleteNode_comm

end AdjacencyStore

section

variable {σ : Type} [TracelessBackend σ] {s : σ} {a b : List String}

instance : RightCommutative (Backend.deleteNode : σ → String → σ) where
  right_comm := TracelessBackend.deleteNode_comm

/-- Neither the order nor repeats of ids leave a trace in the store or in the number of removals. -/
theorem Valid.exists_cascadeDelete_same (hs : Valid s) (h : ∀ id, id ∈ a ↔ id ∈ b)
    (hreadable : ¬DeletionUnreadable s a) :
    ∃ r q, Store.cascadeDelete s a = .ok r ∧ Store.cascadeDelete s b = .ok q ∧
      r.1.deleted = q.1.deleted ∧ r.2 = q.2 := by
  obtain ⟨doomed, _, hplan, hdelete⟩ := hs.exists_cascadeDelete_eq a
  obtain ⟨doomed', _, hplan', hdelete'⟩ := hs.exists_cascadeDelete_eq b
  rw [if_neg hreadable] at hdelete
  rw [if_neg (mt (deletionUnreadable_congr h).2 hreadable)] at hdelete'
  have hperm : doomed.Perm doomed' := by
    rw [List.perm_ext_iff_of_nodup hplan.nodup hplan'.nodup]
    intro id
    rw [hplan.mem_doomed_iff, hplan'.mem_doomed_iff, Contents.doomed_congr h]
  exact ⟨_, _, hdelete, hdelete', hperm.length_eq, hperm.foldl_eq s⟩

/-- A deletion of several datasets is made up of the deletions of each, whatever their order and
however often they are named, and done again it removes nothing.  It fails exactly if one of these
comes to something that cannot be read. -/
theorem cascadeDelete_distributes (h : Reachable s) :
    (∀ ids, DeletionUnreadable s ids → Store.cascadeDelete s ids = .error .unreadable) ∧
    (∀ a b, a ≠ [] → b ≠ [] →
      (DeletionUnreadable s (a ++ b) ↔ DeletionUnreadable s a ∨ DeletionUnreadable s b) ∧
      (¬DeletionUnreadable s (a ++ b) → ∃ both first second after,
        Store.cascadeDelete s (a ++ b) = .ok both ∧ Store.cascadeDelete s a = .ok first ∧
          Store.cascadeDelete s b = .ok second ∧ Store.cascadeDelete first.2 b = .ok after ∧
            AddUp s both.2 first.2 second.2 after.2)) ∧
    (∀ a b, (∀ id, id ∈ a ↔ id ∈ b) →
      (DeletionUnreadable s a ↔ DeletionUnreadable s b) ∧
      (¬DeletionUnreadable s a → ∃ r q, Store.cascadeDelete s a = .ok r ∧
        Store.cascadeDelete s b = .ok q ∧ r.1.deleted = q.1.deleted ∧ r.2 = q.2)) ∧
    ∀ ids, ¬DeletionUnreadable s ids → ∃ r, Store.cascadeDelete s ids = .ok r ∧
      Store.cascadeDelete r.2 ids = .ok (⟨0, []⟩, r.2) :=
  ⟨fun _ => h.valid.cascadeDelete_of_unreadable,
    fun _ _ ha hb => ⟨deletionUnreadable_append ha hb, h.valid.exists_addUp ha hb⟩,
    fun _ _ hab => ⟨deletionUnreadable_congr hab, h.valid.exists_cascadeDelete_same hab⟩,
    fun _ => h.valid.exists_cascadeDelete_twice⟩

/-- Two datasets that share a file, deleted at once and one by one. -/
theorem cascadeDelete_distributes_sharing :
    (Reachable (sharing ["a", "b"] : AdjacencyStore) ∧ ∃ both first second after,
      Store.cascadeDelete (sharing ["a", "b"] : AdjacencyStore) ["a", "b"] = .ok both ∧
        Store.cascadeDelete (sharing ["a", "b"] : AdjacencyStore) ["a"] = .ok first ∧
        Store.cascadeDelete (sharing ["a", "b"] : AdjacencyStore) ["b"] = .ok second ∧
        Store.cascadeDelete first.2 ["b"] = .ok after ∧
        AddUp (sharing ["a", "b"]) both.2 first.2 second.2 after.2 ∧ both.1 = ⟨3, ["a", "b"]⟩) ∧
    Reachable (sharing ["a", "b"] : TableStore) ∧ ∃ r q,
      Store.cascadeDelete (sharing ["a", "b"] : TableStore) ["a", "b"] = .ok r ∧
        Store.cascadeDelete (sharing ["a", "b"] : TableStore) ["b", "a", "b"] = .ok q ∧
        r.1.deleted = q.1.deleted ∧ r.2 = q.2 := by
  have hmemory : ((Store.cascadeDelete (sharing ["a", "b"] : AdjacencyStore) ["a", "b"]).map
      Prod.fst).toOption = some ⟨3, ["a", "b"]⟩ := by decide +kernel
  have htables : ((Store.cascadeDelete (sharing ["a", "b"] : TableStore) ["a", "b"]).map
      Prod.fst).toOption = some ⟨3, ["a", "b"]⟩ := by cbv
  refine ⟨⟨reachable_sharing _, ?_⟩, reachable_sharing _, ?_⟩
  · obtain ⟨hfails, hadds, _⟩ :=
      cascadeDelete_distributes (reachable_sharing (σ := AdjacencyStore) ["a", "b"])
    have hreadable : ¬DeletionUnreadable (sharing ["a", "b"] : AdjacencyStore) ["a", "b"] := by
      intro hunreadable
      rw [hfails _ hunreadable] at hmemory
      cases hmemory
    obtain ⟨both, first, second, after, hboth, hfirst, hsecond, hafter, hadd⟩ :=
      (hadds ["a"] ["b"] (by decide) (by decide)).2 hreadable
    rw [List.singleton_append] at hboth
    rw [hboth] at hmemory
    exact ⟨both, first, second, after, hboth, hfirst, hsecond, hafter, hadd,
      Option.some.inj hmemory⟩
  · obtain ⟨hfails, _, hsame, _⟩ :=
      cascadeDelete_distributes (reachable_sharing (σ := TableStore) ["a", "b"])
    refine (hsame ["a", "b"] ["b", "a", "b"] (by simp [or_comm])).2 fun hunreadable => ?_
    rw [hfails _ hunreadable] at htables
    cases htables

end

end DatasetGraph
