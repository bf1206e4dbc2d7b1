import DatasetGraph.Proofs.Json.Depth
import DatasetGraph.Proofs.Json.ReadBack
import DatasetGraph.Proofs.Store.Contents
import DatasetGraph.Store.Table

/-!
# The store in tables is lawful

The tables keep their constraints (`TableStore.Sound`): ids of nodes come once, so do labels of a
node and keys of relationships, and labels and relationships refer to nodes that are there.  A write
of one row keeps them, and a deletion takes with it the labels and relationships that would be left
behind.

Under the constraints the tables hold what `contents` says, and the rows of labels of one node are
its labels in the order in which they were given (`labelsOf_mergeNode`).
-/

namespace DatasetGraph

/-! ## Reading values back -/

theorem Json.isNull_reread (v : Json) : v.reread.isNull = v.isNull := by
  cases v <;> simp [Json.reread, Json.isNull]

theorem Json.eq_nil_of_reread_eq_nil {v : Json} (h : v.reread = .arr []) : v = .arr [] := by
  cases v with
  | arr items =>
    cases items with
    | nil => rfl
    | cons v vs => simp [Json.reread, Json.rereadItems] at h
  | _ => simp [Json.reread] at h

/-- Properties can be read exactly if each of their values leaves room for the object around it. -/
theorem Properties.isLegible_iff {p : Properties} :
    p.isLegible = true ↔ p.All fun v => v.depth < Json.maxDepth := by
  rw [isLegible, decide_eq_true_eq]
  show Json.depthMembers p.entries + 1 ≤ Json.maxDepth ↔ _
  rw [Json.maxDepth, Nat.succ_le_succ_iff, Json.depthMembers_le_iff]
  constructor
  · intro h k v hv
    exact Nat.lt_succ_of_le (h (k, v) (KeyMap.get?_eq_some_iff.1 hv))
  · intro h e he
    exact Nat.le_of_lt_succ (h e.1 e.2 (KeyMap.get?_eq_some_iff.2 he))

theorem Properties.toJson_reread (p : Properties) : p.reread.toJson = p.toJson.reread := by
  have hentries : ∀ ms : List (String × Json),
      (ms.map fun e => (e.1, e.2.reread)) = Json.rereadMembers ms := by
    intro ms
    induction ms with
    | nil => rfl
    | cons m ms ih => rw [List.map_cons, ih, Json.rereadMembers]
  exact congrArg Json.obj (hentries p.entries)

/-- What is read back from the text of properties: the properties with their values reread, if they
can be read at all. -/
theorem Properties.readBack?_toJson {p : Properties} (hexact : p.toJson.IsExact)
    (hordered : p.All Json.Ordered) :
    p.toJson.readBack? = if p.isLegible = true then some p.reread.toJson else none := by
  have hobject : p.toJson.Ordered :=
    Json.ordered_entries fun e he => hordered e.1 e.2 (KeyMap.get?_eq_some_iff.2 he)
  rw [Json.readBack?_eq hexact hobject, toJson_reread, isLegible]
  simp only [decide_eq_true_eq]

namespace TableStore

variable {s : TableStore}

/-! ## The constraints -/

/-- The ids of the rows of nodes. -/
def ids (s : TableStore) : List String := s.nodes.map NodeRow.id

/-- What the tables are declared to keep. -/
structure Sound (s : TableStore) : Prop where
  nodup_ids : s.ids.Nodup
  nodup_labels : s.labels.Nodup
  nodup_keys : (s.edges.map StoredEdge.key).Nodup
  id_of_label : ∀ r ∈ s.labels, r.id ∈ s.ids
  source_of_edge : ∀ e ∈ s.edges, e.source ∈ s.ids
  target_of_edge : ∀ e ∈ s.edges, e.target ∈ s.ids

/-- The node of a row. -/
def nodeOf (s : TableStore) (r : NodeRow) : StoredNode := ⟨r.id, s.labelsOf r.id, r.properties⟩

instance : ListedBackend TableStore where
  allNodes s := s.nodes.map s.nodeOf
  allEdges := edges

open ListedBackend (allNodes allEdges)

theorem row?_eq_some_iff (hs : s.Sound) {id : String} {r : NodeRow} :
    (s.nodes.find? fun r => r.id = id) = some r ↔ r ∈ s.nodes ∧ r.id = id :=
  find?_key_eq_some_iff hs.nodup_ids

theorem node?_eq_map (s : TableStore) (id : String) :
    s.node? id = (s.nodes.find? fun r => r.id = id).map s.nodeOf := by
  unfold node?
  cases hf : s.nodes.find? fun r => r.id = id with
  | none => rfl
  | some r =>
    have hid : r.id = id := by simpa using List.find?_some hf
    subst hid
    rfl

theorem node?_eq_some_iff (hs : s.Sound) {id : String} {n : StoredNode} :
    s.node? id = some n ↔ n ∈ allNodes s ∧ n.id = id := by
  rw [node?_eq_map, Option.map_eq_some_iff]
  show _ ↔ n ∈ s.nodes.map s.nodeOf ∧ _
  rw [List.mem_map]
  constructor
  · intro h
    obtain ⟨r, hr, rfl⟩ := h
    obtain ⟨hmem, hid⟩ := (row?_eq_some_iff hs).1 hr
    exact ⟨⟨r, hmem, rfl⟩, hid⟩
  · intro h
    obtain ⟨⟨r, hr, rfl⟩, hid⟩ := h
    exact ⟨r, (row?_eq_some_iff hs).2 ⟨hr, hid⟩, rfl⟩

theorem hasNode_iff {id : String} : Backend.hasNode s id = true ↔ id ∈ s.ids := by
  show (s.node? id).isSome = true ↔ _
  rw [node?_eq_map, Option.isSome_map, List.find?_isSome, ids, List.mem_map]
  simp

theorem mem_labelsOf {id : String} {l : Identifier} :
    l ∈ s.labelsOf id ↔ LabelRow.mk id l ∈ s.labels := by
  simp only [labelsOf, List.mem_map, List.mem_filter, decide_eq_true_eq]
  constructor
  · intro hx
    obtain ⟨⟨_, _⟩, ⟨hr, rfl⟩, rfl⟩ := hx
    exact hr
  · exact fun h => ⟨_, ⟨h, rfl⟩, rfl⟩

/-! ## Merging a node -/

/-- The labels of a node among rows. -/
private def labelsAmong (rows : List LabelRow) (id : String) : List Identifier :=
  (rows.filter fun r => r.id = id).map LabelRow.label

private theorem labelsAmong_insertNew (rows : List LabelRow) (r : LabelRow) (id : String) :
    labelsAmong (insertNew rows r) id =
      if id = r.id then insertNew (labelsAmong rows id) r.label else labelsAmong rows id := by
  have hmem : ∀ l, l ∈ labelsAmong rows id ↔ LabelRow.mk id l ∈ rows := fun l =>
    mem_labelsOf (s := ⟨[], rows, []⟩)
  obtain ⟨j, l⟩ := r
  by_cases hid : id = j
  · -- A row is new among all rows exactly if its label is new among those of the id.
    subst hid
    rw [if_pos rfl]
    by_cases hr : LabelRow.mk id l ∈ rows
    · rw [insertNew, insertNew, if_pos hr, if_pos ((hmem l).2 hr)]
    · rw [insertNew, insertNew, if_neg hr, if_neg fun h => hr ((hmem l).1 h)]
      simp [labelsAmong]
  · rw [if_neg hid, insertNew]
    split
    · rfl
    · simp [labelsAmong, Ne.symm hid]

private theorem labelsAmong_addNew (rows : List LabelRow) (j id : String) (ls : List Identifier) :
    labelsAmong (addNew rows (ls.map (LabelRow.mk j))) id =
      if id = j then addNew (labelsAmong rows id) ls else labelsAmong rows id := by
  induction ls generalizing rows with
  | nil => simp
  | cons l ls ih =>
    rw [List.map_cons, addNew_cons, ih, labelsAmong_insertNew]
    by_cases hid : id = j <;> simp [hid]

/-- The labels of the node that is written are extended, those of others stay. -/
theorem labelsOf_mergeNode (n : StoredNode) (id : String) :
    (s.mergeNode n).labelsOf id =
      if id = n.id then addNew (s.labelsOf id) n.labels else s.labelsOf id :=
  labelsAmong_addNew s.labels n.id id n.labels

theorem ids_mergeNode (n : StoredNode) : (s.mergeNode n).ids = insertNew s.ids n.id :=
  map_updateOrAppend NodeRow.id (by intro r; rfl) (by rfl) s.nodes

theorem labelsOf_eq_nil (hs : s.Sound) {id : String} (h : id ∉ s.ids) : s.labelsOf id = [] := by
  rw [List.eq_nil_iff_forall_not_mem]
  intro l hl
  exact h (hs.id_of_label _ (mem_labelsOf.1 hl))

theorem sound_mergeNode (hs : s.Sound) (n : StoredNode) : (s.mergeNode n).Sound where
  nodup_ids := by
    rw [ids_mergeNode]
    exact nodup_insertNew hs.nodup_ids n.id
  nodup_labels := nodup_addNew hs.nodup_labels _
  nodup_keys := hs.nodup_keys
  id_of_label := by
    intro r hr
    rw [ids_mergeNode, mem_insertNew]
    rcases mem_addNew.1 hr with hr | hr
    · exact .inl (hs.id_of_label r hr)
    · obtain ⟨l, _, rfl⟩ := List.mem_map.1 hr
      exact .inr rfl
  source_of_edge := by
    intro e he
    rw [ids_mergeNode, mem_insertNew]
    exact .inl (hs.source_of_edge e he)
  target_of_edge := by
    intro e he
    rw [ids_mergeNode, mem_insertNew]
    exact .inl (hs.target_of_edge e he)

theorem contents_mergeNode (hs : s.Sound) (n : StoredNode) :
    contents (s.mergeNode n) = (contents s).mergeNode Json.reread n := by
  apply Contents.ext
  · funext id
    show (s.mergeNode n).node? id =
      if id = n.id then some (Contents.mergedNode Json.reread (s.node? id) n) else s.node? id
    have hfind : ((s.mergeNode n).nodes.find? fun r => r.id = id) =
        if id = n.id then
          some (((s.nodes.find? fun r => r.id = n.id).map (NodeRow.merge · n.properties)).getD
            ⟨n.id, n.properties.reread⟩)
        else s.nodes.find? fun r => r.id = id :=
      find?_updateOrAppend NodeRow.id (by intro r; rfl) (by rfl) s.nodes id
    unfold node?
    rw [hfind, labelsOf_mergeNode]
    by_cases hid : id = n.id
    · subst hid
      rw [if_pos rfl, if_pos rfl, if_pos rfl]
      cases hr : s.nodes.find? fun r => r.id = n.id with
      | none =>
        -- Labels refer to nodes, so a new node has none yet.
        have hnew : n.id ∉ s.ids := by
          intro h
          obtain ⟨r, hmem, hid⟩ := List.mem_map.1 h
          rw [(row?_eq_some_iff hs).2 ⟨hmem, hid⟩] at hr
          cases hr
        simp [Contents.mergedNode, labelsOf_eq_nil hs hnew, Properties.reread]
      | some r => simp [Contents.mergedNode, NodeRow.merge, Properties.reread]
    · rw [if_neg hid, if_neg hid, if_neg hid]
  · rfl

/-! ## Merging a relationship -/

theorem sound_mergeEdge (hs : s.Sound) {e : StoredEdge} (source : e.source ∈ s.ids)
    (target : e.target ∈ s.ids) : (s.mergeEdge e).Sound where
  nodup_ids := hs.nodup_ids
  nodup_labels := hs.nodup_labels
  nodup_keys := by
    show ((updateOrAppend _ _ _ s.edges).map StoredEdge.key).Nodup
    rw [map_updateOrAppend StoredEdge.key (by intro f; rfl) (by rfl)]
    exact nodup_insertNew hs.nodup_keys e.key
  id_of_label := hs.id_of_label
  source_of_edge := by
    intro f hf
    rcases (mem_updateOrAppend hf) with hf | ⟨g, hg, rfl⟩ | rfl
    · exact hs.source_of_edge f hf
    · exact hs.source_of_edge g hg
    · exact source
  target_of_edge := by
    intro f hf
    rcases (mem_updateOrAppend hf) with hf | ⟨g, hg, rfl⟩ | rfl
    · exact hs.target_of_edge f hf
    · exact hs.target_of_edge g hg
    · exact target

theorem contents_mergeEdge (e : StoredEdge) :
    contents (s.mergeEdge e) = (contents s).mergeEdge Json.reread e := by
  apply Contents.ext
  · rfl
  · funext k
    show ((s.mergeEdge e).edges.find? fun f => f.key = k).map StoredEdge.properties = _
    rw [mergeEdge, find?_updateOrAppend StoredEdge.key (by intro f; rfl) (by rfl)]
    show _ = if k = e.key then some (Contents.mergedProperties Json.reread
      ((s.edges.find? fun f => f.key = k).map StoredEdge.properties) e.properties) else
        (s.edges.find? fun f => f.key = k).map StoredEdge.properties
    by_cases hk : k = e.key
    · subst hk
      rw [if_pos rfl, if_pos rfl]
      cases s.edges.find? fun f => f.key = e.key with
      | none => simp [Contents.mergedProperties, Properties.reread]
      | some f => simp [Contents.mergedProperties, Properties.reread]
    · rw [if_neg hk, if_neg hk]

/-! ## Changing properties -/

/-- A change of rows that leaves their ids alone is seen row by row. -/
theorem find?_map_of_id {f : NodeRow → NodeRow} (hf : ∀ r, (f r).id = r.id) (rows : List NodeRow)
    (id : String) :
    ((rows.map f).find? fun r => r.id = id) = (rows.find? fun r => r.id = id).map f := by
  rw [List.find?_map]
  congr 2
  funext r
  simp [hf]

theorem ids_updateNode (u : PropertyUpdate) : (s.updateNode u).ids = s.ids := by
  show (s.nodes.map _).map NodeRow.id = s.nodes.map NodeRow.id
  rw [List.map_map]
  congr 1
  funext r
  show (if r.id = u.id then _ else r).id = r.id
  split <;> rfl

theorem sound_updateNode (hs : s.Sound) (u : PropertyUpdate) : (s.updateNode u).Sound where
  nodup_ids := by
    rw [ids_updateNode]
    exact hs.nodup_ids
  nodup_labels := hs.nodup_labels
  nodup_keys := hs.nodup_keys
  id_of_label := by
    rw [ids_updateNode]
    exact hs.id_of_label
  source_of_edge := by
    rw [ids_updateNode]
    exact hs.source_of_edge
  target_of_edge := by
    rw [ids_updateNode]
    exact hs.target_of_edge

theorem contents_updateNode (u : PropertyUpdate) :
    contents (s.updateNode u) = (contents s).updateNode Json.reread u := by
  apply Contents.ext
  · funext id
    show (s.updateNode u).node? id = if id = u.id then
      (s.node? id).map (Contents.updatedNode Json.reread u.properties) else s.node? id
    unfold node?
    show (((s.nodes.map _).find? fun r : NodeRow => r.id = id).map fun r =>
      StoredNode.mk id (s.labelsOf id) r.properties) = _
    rw [find?_map_of_id (by intro r; split <;> rfl)]
    cases hr : s.nodes.find? fun r => r.id = id with
    | none => simp
    | some r =>
      have hid : r.id = id := by simpa using List.find?_some hr
      by_cases hu : id = u.id <;> simp [hid, hu, Contents.updatedNode, Properties.reread]
  · rfl

/-! ## Deleting -/

theorem mem_ids_deleteNode {id j : String} : j ∈ (s.deleteNode id).ids ↔ j ∈ s.ids ∧ j ≠ id := by
  simp only [ids, deleteNode, List.mem_map, List.mem_filter, decide_eq_true_eq]
  constructor
  · intro h
    obtain ⟨r, ⟨hr, hne⟩, rfl⟩ := h
    exact ⟨⟨r, hr, rfl⟩, hne⟩
  · intro h
    obtain ⟨⟨r, hr, rfl⟩, hne⟩ := h
    exact ⟨r, ⟨hr, hne⟩, rfl⟩

theorem mem_edges_deleteNode {id : String} {e : StoredEdge} :
    e ∈ (s.deleteNode id).edges ↔ e ∈ s.edges ∧ e.source ≠ id ∧ e.target ≠ id := by
  simp [deleteNode, StoredEdge.touches]

theorem sound_deleteNode (hs : s.Sound) (id : String) : (s.deleteNode id).Sound where
  nodup_ids := hs.nodup_ids.sublist (List.filter_sublist.map _)
  nodup_labels := hs.nodup_labels.filter _
  nodup_keys := hs.nodup_keys.sublist (List.filter_sublist.map _)
  id_of_label := by
    intro r hr
    obtain ⟨hr, hne⟩ := List.mem_filter.1 hr
    exact mem_ids_deleteNode.2 ⟨hs.id_of_label r hr, by simpa using hne⟩
  source_of_edge := by
    intro e he
    obtain ⟨he, hne, _⟩ := mem_edges_deleteNode.1 he
    exact mem_ids_deleteNode.2 ⟨hs.source_of_edge e he, hne⟩
  target_of_edge := by
    intro e he
    obtain ⟨he, _, hne⟩ := mem_edges_deleteNode.1 he
    exact mem_ids_deleteNode.2 ⟨hs.target_of_edge e he, hne⟩

theorem labelsOf_deleteNode {id j : String} (h : j ≠ id) :
    (s.deleteNode id).labelsOf j = s.labelsOf j := by
  show ((s.labels.filter _).filter _).map _ = _
  rw [List.filter_filter]
  unfold labelsOf
  congr 2
  funext r
  by_cases hr : r.id = j <;> simp [hr, h]

theorem contents_deleteNode (id : String) :
    contents (s.deleteNode id) = (contents s).deleteNode id := by
  apply Contents.ext
  · funext j
    show (s.deleteNode id).node? j = if j = id then none else s.node? j
    unfold node?
    show (((s.nodes.filter _).find? _).map _) = _
    rw [List.find?_filter]
    by_cases hj : j = id
    · subst hj
      rw [if_pos rfl, Option.map_eq_none_iff, List.find?_eq_none]
      intro r _
      simp
    · rw [if_neg hj, labelsOf_deleteNode hj]
      congr 2
      funext r
      by_cases hr : r.id = j <;> simp [hr, hj]
  · funext k
    show ((s.edges.filter _).find? _).map _ = if k.touches id then none else _
    rw [List.find?_filter]
    -- The relationships with this key are dropped all together or stay all together.
    cases hk : k.touches id with
    | true =>
      rw [if_pos rfl, Option.map_eq_none_iff, List.find?_eq_none]
      rintro e _ he
      simp only [Bool.decide_and, Bool.decide_eq_true, Bool.and_eq_true, decide_eq_true_eq] at he
      obtain ⟨htouch, rfl⟩ := he
      rw [StoredEdge.touches_key] at hk
      simp [hk] at htouch
    | false =>
      rw [if_neg (by decide)]
      show _ = (s.edges.find? fun e => e.key = k).map _
      congr 2
      funext e
      by_cases he : e.key = k
      · subst he
        rw [StoredEdge.touches_key] at hk
        simp [hk]
      · simp [he]

/-! ## Lists -/

theorem pairwise_labelled (hs : s.Sound) (l : Identifier) :
    (s.labelled l).Pairwise fun m n => m.id < n.id := by
  -- Among the rows of one label no id comes twice.
  have hnodup : (((s.labels.filter fun r => r.label = l).map LabelRow.id).map id).Nodup := by
    rw [List.map_id]
    refine (hs.nodup_labels.filter _).map_on ?_
    rintro ⟨i, li⟩ hi ⟨j, lj⟩ hj rfl
    have hli : li = l := by simpa using (List.mem_filter.1 hi).2
    have hlj : lj = l := by simpa using (List.mem_filter.1 hj).2
    rw [hli, hlj]
  refine (pairwise_mergeSort_key hnodup).filterMap _ ?_
  intro i j hij m hm n hn
  rw [((node?_eq_some_iff hs).1 hm).2, ((node?_eq_some_iff hs).1 hn).2]
  exact hij

theorem mem_labelled (hs : s.Sound) {l : Identifier} {n : StoredNode} :
    n ∈ s.labelled l ↔ n ∈ allNodes s ∧ l ∈ n.labels := by
  unfold labelled
  rw [List.mem_filterMap]
  simp only [List.mem_mergeSort, List.mem_map, List.mem_filter, decide_eq_true_eq]
  constructor
  · intro h
    obtain ⟨id, ⟨⟨i, li⟩, ⟨hr, rfl⟩, rfl⟩, hn⟩ := h
    obtain ⟨hmem, hid⟩ := (node?_eq_some_iff hs).1 hn
    obtain ⟨r, _, rfl⟩ := List.mem_map.1 hmem
    refine ⟨hmem, mem_labelsOf.2 ?_⟩
    rw [show r.id = i from hid]
    exact hr
  · intro h
    obtain ⟨hmem, hl⟩ := h
    obtain ⟨r, _, rfl⟩ := List.mem_map.1 hmem
    exact ⟨r.id, ⟨_, ⟨mem_labelsOf.1 hl, rfl⟩, rfl⟩, (node?_eq_some_iff hs).2 ⟨hmem, rfl⟩⟩

theorem mem_incidentAll (hs : s.Sound) {ids : List String} {e : StoredEdge} :
    e ∈ s.incidentAll ids ↔ e ∈ s.edges ∧ ∃ id ∈ ids, e.touches id = true := by
  have hmem : ∀ e, e ∈ ids.flatMap s.incident ↔ e ∈ s.edges ∧ ∃ id ∈ ids, e.touches id = true := by
    intro e
    simp only [List.mem_flatMap, incident, List.mem_mergeSort, List.mem_filter]
    constructor
    · intro h
      obtain ⟨id, hid, he, htouch⟩ := h
      exact ⟨he, id, hid, htouch⟩
    · intro h
      obtain ⟨he, id, hid, htouch⟩ := h
      exact ⟨id, hid, he, htouch⟩
  rw [incidentAll, mem_distinctOn_of_injOn, hmem]
  intro e he f hf hk
  exact List.inj_on_of_nodup_map hs.nodup_keys ((hmem e).1 he).1 ((hmem f).1 hf).1 hk

instance : LawfulBackend TableStore where
  settle := Json.reread
  isNull_settle := Json.isNull_reread
  eq_nil_of_settle_eq_nil := Json.eq_nil_of_reread_eq_nil
  Fits v := v.depth < Json.maxDepth
  fits_settle v := by rw [v.depth_reread]
  legible_iff := Properties.isLegible_iff
  Sound := Sound
  sound_empty := ⟨List.nodup_nil, List.nodup_nil, List.nodup_nil, nofun, nofun, nofun⟩
  sound_mergeNode hs n _ := sound_mergeNode hs n
  sound_mergeEdge hs _ source target :=
    sound_mergeEdge hs (hasNode_iff.1 source) (hasNode_iff.1 target)
  sound_updateNode := sound_updateNode
  sound_deleteNode := sound_deleteNode
  nodup_ids hs := by
    show ((List.map _ _).map StoredNode.id).Nodup
    rw [List.map_map]
    exact hs.nodup_ids
  node?_eq_some_iff := node?_eq_some_iff
  nodup_keys := Sound.nodup_keys
  edge?_eq _ _ := rfl
  hasNode_ends hs e he :=
    ⟨hasNode_iff.2 (hs.source_of_edge e he), hasNode_iff.2 (hs.target_of_edge e he)⟩
  pairwise_labelled := pairwise_labelled
  mem_labelled := mem_labelled
  nodup_incidentAll _ ids := (nodup_map_distinctOn StoredEdge.key _).of_map _
  mem_incidentAll := mem_incidentAll
  contents_empty := rfl
  contents_mergeNode hs n _ := contents_mergeNode hs n
  contents_mergeEdge _ e _ _ := contents_mergeEdge e
  contents_updateNode _ u := contents_updateNode u
  contents_deleteNode _ id := contents_deleteNode id

end TableStore

end DatasetGraph
