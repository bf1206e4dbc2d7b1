import DatasetGraph.Proofs.Store.Contents
import DatasetGraph.Store.Adjacency

/-!
# The store in memory is lawful

What has to be kept in memory (`AdjacencyStore.Sound`) is that the index and the places agree: the
index leads from an id to a place exactly if the node at that place has the id.  Then no two places
hold nodes of one id.  Besides, relationships join places that are taken, at most one of each type
joins the same two places in the same direction, and their serial numbers tell them apart.

A relationship is found by the places of its ends (`edge?_contents_eq`).  A deletion frees a place,
and the place may be given to another node; this does no harm since the relationships of a place go
with its node.
-/

namespace DatasetGraph

namespace AdjacencyStore

variable {s : AdjacencyStore}

/-- What is kept in memory. -/
structure Sound (s : AdjacencyStore) : Prop where
  /-- The index and the places agree. -/
  index_iff : ∀ id place, s.index.get? id = some place ↔ ∃ n, s.at? place = some n ∧ n.id = id
  source_taken : ∀ l ∈ s.links, (s.at? l.source).isSome = true
  target_taken : ∀ l ∈ s.links, (s.at? l.target).isSome = true
  nodup_ends : (s.links.map Link.ends).Nodup
  nodup_serials : (s.links.map Link.serial).Nodup
  serial_lt : ∀ l ∈ s.links, l.serial < s.nextSerial

instance : ListedBackend AdjacencyStore where
  allNodes := nodes
  allEdges := edges

open ListedBackend (allNodes allEdges)

/-! ## Nodes -/

theorem mem_nodes {n : StoredNode} : n ∈ s.nodes ↔ ∃ place, s.at? place = some n := by
  simp only [nodes, at?, List.mem_filterMap, id_eq, Option.join_eq_some_iff]
  constructor
  · intro h
    obtain ⟨_, hmem, rfl⟩ := h
    exact List.mem_iff_getElem?.1 hmem
  · intro h
    obtain ⟨place, hp⟩ := h
    exact ⟨some n, List.mem_of_getElem? hp, rfl⟩

theorem Sound.index_id (hs : s.Sound) {place : Nat} {n : StoredNode} (h : s.at? place = some n) :
    s.index.get? n.id = some place :=
  (hs.index_iff n.id place).2 ⟨n, h, rfl⟩

theorem Sound.at?_of_index (hs : s.Sound) {id : String} {place : Nat}
    (h : s.index.get? id = some place) : ∃ n, s.at? place = some n ∧ n.id = id :=
  (hs.index_iff id place).1 h

theorem Sound.id_eq_of_index (hs : s.Sound) {id : String} {place : Nat} {n : StoredNode}
    (h : s.index.get? id = some place) (hn : s.at? place = some n) : n.id = id := by
  obtain ⟨m, hm, hid⟩ := hs.at?_of_index h
  rw [hm] at hn
  rwa [← Option.some.inj hn]

/-- The index leads to a place from one id only. -/
theorem Sound.index_inj (hs : s.Sound) {i j : String} {place : Nat}
    (hi : s.index.get? i = some place) (hj : s.index.get? j = some place) : i = j := by
  obtain ⟨n, hn, rfl⟩ := hs.at?_of_index hi
  exact hs.id_eq_of_index hj hn

theorem node?_eq_some_iff (hs : s.Sound) {id : String} {n : StoredNode} :
    s.node? id = some n ↔ n ∈ s.nodes ∧ n.id = id := by
  rw [node?, Option.bind_eq_some_iff, mem_nodes]
  constructor
  · intro h
    obtain ⟨place, hplace, hn⟩ := h
    exact ⟨⟨place, hn⟩, hs.id_eq_of_index hplace hn⟩
  · intro h
    obtain ⟨⟨place, hn⟩, rfl⟩ := h
    exact ⟨place, hs.index_id hn, hn⟩

/-- Where the index leads to one place and the place is as it was, one node is found. -/
theorem node?_congr {t : AdjacencyStore} {id : String} (hindex : t.index.get? id = s.index.get? id)
    (hat : ∀ place, s.index.get? id = some place → t.at? place = s.at? place) :
    t.node? id = s.node? id := by
  rw [node?, node?, hindex]
  cases hplace : s.index.get? id with
  | none => rfl
  | some place => exact hat place hplace

theorem hasNode_iff (hs : s.Sound) {id : String} :
    Backend.hasNode s id = true ↔ ∃ place, s.index.get? id = some place := by
  show (s.node? id).isSome = true ↔ _
  rw [node?, Option.isSome_iff_exists]
  constructor
  · intro h
    obtain ⟨n, hn⟩ := h
    obtain ⟨place, hplace, _⟩ := Option.bind_eq_some_iff.1 hn
    exact ⟨place, hplace⟩
  · intro h
    obtain ⟨place, hplace⟩ := h
    obtain ⟨n, hn, _⟩ := hs.at?_of_index hplace
    exact ⟨n, Option.bind_eq_some_iff.2 ⟨place, hplace, hn⟩⟩

theorem nodup_ids (hs : s.Sound) : (s.nodes.map StoredNode.id).Nodup := by
  rw [List.Nodup, List.pairwise_map]
  -- The index leads to one place, so two places do not hold one id.
  have hplaces : s.places.Pairwise fun a b => ∀ m, a = some m → ∀ n, b = some n → m.id ≠ n.id := by
    rw [List.pairwise_iff_getElem]
    intro i j hi hj hij m hm n hn hid
    have him : s.at? i = some m := by rw [at?, List.getElem?_eq_getElem hi, hm]; rfl
    have hjn : s.at? j = some n := by rw [at?, List.getElem?_eq_getElem hj, hn]; rfl
    have hplace := hs.index_id him
    rw [hid, hs.index_id hjn] at hplace
    exact absurd (Option.some.inj hplace) (Nat.ne_of_gt hij)
  exact hplaces.filterMap id fun a b hab m hm n hn => hab m hm n hn

/-! ## Relationships -/

theorem edge?_eq_some_iff {l : Link} {e : StoredEdge} :
    s.edge? l = some e ↔ ∃ m n, s.at? l.source = some m ∧ s.at? l.target = some n ∧
      e = ⟨m.id, n.id, l.type, l.properties⟩ := by
  simp only [edge?, Option.bind_eq_bind, Option.bind_eq_some_iff, Option.pure_def, Option.some.injEq]
  constructor
  · intro h
    obtain ⟨m, hm, n, hn, rfl⟩ := h
    exact ⟨m, n, hm, hn, rfl⟩
  · intro h
    obtain ⟨m, n, hm, hn, rfl⟩ := h
    exact ⟨m, hm, n, hn, rfl⟩

/-- The index leads from the ends of a relationship to the places that it joins. -/
theorem Sound.index_ends (hs : s.Sound) {l : Link} {e : StoredEdge} (h : s.edge? l = some e) :
    s.index.get? e.source = some l.source ∧ s.index.get? e.target = some l.target := by
  obtain ⟨m, n, hm, hn, rfl⟩ := edge?_eq_some_iff.1 h
  exact ⟨hs.index_id hm, hs.index_id hn⟩

theorem Sound.ends_eq_of_key_eq (hs : s.Sound) {l k : Link} {e f : StoredEdge}
    (hl : s.edge? l = some e) (hk : s.edge? k = some f) (h : e.key = f.key) : l.ends = k.ends := by
  have htypes : l.type = e.type ∧ k.type = f.type := by
    obtain ⟨_, _, _, _, rfl⟩ := edge?_eq_some_iff.1 hl
    obtain ⟨_, _, _, _, rfl⟩ := edge?_eq_some_iff.1 hk
    exact ⟨rfl, rfl⟩
  obtain ⟨hls, hlt⟩ := hs.index_ends hl
  obtain ⟨hks, hkt⟩ := hs.index_ends hk
  have hsource : e.source = f.source := congrArg RelationKey.source h
  have htarget : e.target = f.target := congrArg RelationKey.target h
  have htype : e.type = f.type := congrArg RelationKey.type h
  rw [hsource, hks] at hls
  rw [htarget, hkt] at hlt
  rw [Link.ends, Link.ends, ← Option.some.inj hls, ← Option.some.inj hlt, htypes.1, htypes.2, htype]

theorem nodup_keys (hs : s.Sound) : (s.edges.map StoredEdge.key).Nodup := by
  rw [List.Nodup, List.pairwise_map]
  have hends := hs.nodup_ends
  rw [List.Nodup, List.pairwise_map] at hends
  exact hends.filterMap s.edge? fun l k hlk e he f hf hkey => hlk (hs.ends_eq_of_key_eq he hf hkey)

theorem Sound.exists_edge? (hs : s.Sound) {l : Link} (h : l ∈ s.links) :
    ∃ e, s.edge? l = some e := by
  obtain ⟨m, hm⟩ := Option.isSome_iff_exists.1 (hs.source_taken l h)
  obtain ⟨n, hn⟩ := Option.isSome_iff_exists.1 (hs.target_taken l h)
  exact ⟨_, edge?_eq_some_iff.2 ⟨m, n, hm, hn, rfl⟩⟩

/-- A relationship is found by the places of its ends. -/
theorem edge?_contents_eq (hs : s.Sound) (k : RelationKey) :
    (contents s).edge? k =
      (s.index.get? k.source).bind fun source => (s.index.get? k.target).bind fun target =>
        (s.links.find? fun l => l.ends = (source, target, k.type)).map Link.properties := by
  apply Option.ext
  intro p
  show ((s.edges.find? fun e => e.key = k).map StoredEdge.properties) = some p ↔ _
  simp only [Option.map_eq_some_iff, Option.bind_eq_some_iff,
    find?_key_eq_some_iff (nodup_keys hs), find?_key_eq_some_iff hs.nodup_ends]
  constructor
  · -- The index leads from the ends of the relationship to the places that it joins.
    intro h
    obtain ⟨e, ⟨he, rfl⟩, rfl⟩ := h
    obtain ⟨l, hl, hle⟩ := List.mem_filterMap.1 he
    obtain ⟨hsource, htarget⟩ := hs.index_ends hle
    obtain ⟨m, n, hm, hn, rfl⟩ := edge?_eq_some_iff.1 hle
    exact ⟨l.source, hsource, l.target, htarget, l, ⟨hl, rfl⟩, rfl⟩
  · -- A relationship between the places has the ids that led there.
    intro h
    obtain ⟨source, hsource, target, htarget, l, ⟨hl, hends⟩, rfl⟩ := h
    obtain ⟨e, hle⟩ := hs.exists_edge? hl
    refine ⟨e, ⟨List.mem_filterMap.2 ⟨l, hl, hle⟩, ?_⟩, ?_⟩
    · obtain ⟨m, n, hm, hn, rfl⟩ := edge?_eq_some_iff.1 hle
      simp only [Link.ends, Prod.mk.injEq] at hends
      obtain ⟨hls, hlt, htype⟩ := hends
      show RelationKey.mk m.id n.id l.type = k
      rw [hs.id_eq_of_index hsource (hls ▸ hm), hs.id_eq_of_index htarget (hlt ▸ hn), htype]
    · obtain ⟨m, n, hm, hn, rfl⟩ := edge?_eq_some_iff.1 hle
      rfl

theorem properties?_eq (hs : s.Sound) (k : RelationKey) :
    s.properties? k = (contents s).edge? k := by
  rw [edge?_contents_eq hs, properties?]
  refine congrArg _ (funext fun source => congrArg _ (funext fun target => ?_))
  exact Option.map_eq_bind.symm

/-! ## Changing a node -/

theorem at?_changeAt (place i : Nat) (f : StoredNode → StoredNode) :
    (s.changeAt place f).at? i = if i = place then (s.at? i).map f else s.at? i := by
  show ((s.places.modify place (Option.map f))[i]?).join = _
  rw [List.getElem?_modify, at?]
  by_cases h : i = place
  · subst h
    rw [if_pos rfl]
    cases s.places[i]? with
    | none => simp
    | some p => simp
  · rw [if_neg h]
    cases s.places[i]? with
    | none => rfl
    | some p => simp [Ne.symm h]

theorem isSome_at?_changeAt (place i : Nat) (f : StoredNode → StoredNode) :
    ((s.changeAt place f).at? i).isSome = (s.at? i).isSome := by
  rw [at?_changeAt]
  split
  · rw [Option.isSome_map]
  · rfl

/-- A change of a node that leaves its id alone keeps the store sound. -/
theorem Sound.changeAt (hs : s.Sound) (place : Nat) {f : StoredNode → StoredNode}
    (hf : ∀ n, (f n).id = n.id) : (s.changeAt place f).Sound where
  index_iff := by
    intro id i
    rw [at?_changeAt]
    refine (hs.index_iff id i).trans ?_
    split
    · constructor
      · intro h
        obtain ⟨n, hn, rfl⟩ := h
        exact ⟨f n, by rw [hn, Option.map_some], hf n⟩
      · intro h
        obtain ⟨m, hm, rfl⟩ := h
        obtain ⟨n, hn, rfl⟩ := Option.map_eq_some_iff.1 hm
        exact ⟨n, hn, (hf n).symm⟩
    · rfl
  source_taken := fun l hl => (isSome_at?_changeAt place _ f).trans (hs.source_taken l hl)
  target_taken := fun l hl => (isSome_at?_changeAt place _ f).trans (hs.target_taken l hl)
  nodup_ends := hs.nodup_ends
  nodup_serials := hs.nodup_serials
  serial_lt := hs.serial_lt

theorem node?_changeAt (hs : s.Sound) {place : Nat} {j : String}
    (hj : s.index.get? j = some place) (f : StoredNode → StoredNode) (id : String) :
    (s.changeAt place f).node? id = if id = j then (s.node? id).map f else s.node? id := by
  by_cases hid : id = j
  · subst hid
    show (s.index.get? id).bind (s.changeAt place f).at? = _
    rw [if_pos rfl, node?, hj, Option.bind_some, Option.bind_some, at?_changeAt, if_pos rfl]
  · rw [if_neg hid]
    apply node?_congr
    · rfl
    · intro i hi
      have hne : i ≠ place := by
        rintro rfl
        exact hid (hs.index_inj hi hj)
      rw [at?_changeAt, if_neg hne]

theorem edge?_changeAt (hs : s.Sound) (place : Nat) {f : StoredNode → StoredNode}
    (hf : ∀ n, (f n).id = n.id) (k : RelationKey) :
    (contents (s.changeAt place f)).edge? k = (contents s).edge? k := by
  rw [edge?_contents_eq (hs.changeAt place hf), edge?_contents_eq hs]
  rfl

theorem mapValues_id (p : Properties) : p.mapValues id = p :=
  KeyMap.mapValues_eq_self fun _ _ _ => rfl

/-! ## Adding a node -/

/-- A node at the first free place. -/
def addNode (s : AdjacencyStore) (n : StoredNode) : AdjacencyStore :=
  { s with places := occupy n s.places, index := s.index.insert n.id (firstFree s.places) }

theorem at?_addNode (n : StoredNode) (i : Nat) :
    (s.addNode n).at? i = if i = firstFree s.places then some n else s.at? i :=
  getElem?_occupy n s.places i

theorem ne_firstFree_of_at? {i : Nat} (h : (s.at? i).isSome = true) : i ≠ firstFree s.places := by
  rintro rfl
  rw [at?, getElem?_firstFree] at h
  cases h

theorem index_addNode (n : StoredNode) (id : String) :
    (s.addNode n).index.get? id =
      if id = n.id then some (firstFree s.places) else s.index.get? id :=
  KeyMap.get?_insert s.index n.id id _

theorem Sound.ne_firstFree_of_index (hs : s.Sound) {id : String} {place : Nat}
    (h : s.index.get? id = some place) : place ≠ firstFree s.places := by
  obtain ⟨n, hn, _⟩ := hs.at?_of_index h
  exact ne_firstFree_of_at? (by rw [hn]; rfl)

theorem Sound.addNode (hs : s.Sound) {n : StoredNode} (hn : s.index.get? n.id = none) :
    (s.addNode n).Sound where
  index_iff := by
    intro id place
    rw [index_addNode, at?_addNode]
    by_cases hid : id = n.id
    · subst hid
      rw [if_pos rfl]
      constructor
      · intro hx
        obtain ⟨⟩ := hx
        exact ⟨n, by rw [if_pos rfl], rfl⟩
      · intro hx
        obtain ⟨m, hm, hmid⟩ := hx
        split at hm
        · next h => rw [h]
        · have := hs.index_id hm
          rw [hmid, hn] at this
          cases this
    · rw [if_neg hid]
      constructor
      · intro h
        rw [if_neg (hs.ne_firstFree_of_index h)]
        exact hs.at?_of_index h
      · intro hx
        obtain ⟨m, hm, hmid⟩ := hx
        split at hm
        · cases hm
          exact absurd hmid.symm hid
        · exact (hs.index_iff id place).2 ⟨m, hm, hmid⟩
  source_taken := by
    intro l hl
    have h := hs.source_taken l hl
    rwa [at?_addNode, if_neg (ne_firstFree_of_at? h)]
  target_taken := by
    intro l hl
    have h := hs.target_taken l hl
    rwa [at?_addNode, if_neg (ne_firstFree_of_at? h)]
  nodup_ends := hs.nodup_ends
  nodup_serials := hs.nodup_serials
  serial_lt := hs.serial_lt

theorem node?_addNode (hs : s.Sound) (n : StoredNode) (id : String) :
    (s.addNode n).node? id = if id = n.id then some n else s.node? id := by
  by_cases hid : id = n.id
  · show ((s.addNode n).index.get? id).bind (s.addNode n).at? = _
    rw [index_addNode, if_pos hid, if_pos hid, Option.bind_some, at?_addNode, if_pos rfl]
  · rw [if_neg hid]
    apply node?_congr
    · rw [index_addNode, if_neg hid]
    · intro i hi
      rw [at?_addNode, if_neg (hs.ne_firstFree_of_index hi)]

/-- No relationship touches a place that is free. -/
theorem Sound.find?_ends_eq_none (hs : s.Sound) {a b : Nat} {t : Identifier}
    (h : a = firstFree s.places ∨ b = firstFree s.places) :
    (s.links.find? fun l => l.ends = (a, b, t)) = none := by
  rw [List.find?_eq_none]
  intro l hl hends
  rw [decide_eq_true_eq] at hends
  cases hends
  rcases h with h | h
  · exact ne_firstFree_of_at? (hs.source_taken l hl) h
  · exact ne_firstFree_of_at? (hs.target_taken l hl) h

theorem edge?_addNode (hs : s.Sound) {n : StoredNode} (hn : s.index.get? n.id = none)
    (k : RelationKey) : (contents (s.addNode n)).edge? k = (contents s).edge? k := by
  rw [edge?_contents_eq (hs.addNode hn), edge?_contents_eq hs, index_addNode, index_addNode]
  show (Option.bind _ fun source => Option.bind _ fun target =>
    (s.links.find? fun l => l.ends = (source, target, k.type)).map Link.properties) = _
  -- The new node had no place before, and none of the relationships touches the one it is given.
  by_cases hsource : k.source = n.id
  · rw [if_pos hsource, hsource, hn, Option.bind_some, Option.bind_none, Option.bind_eq_none_iff]
    intro target _
    rw [hs.find?_ends_eq_none (.inl rfl), Option.map_none]
  · rw [if_neg hsource]
    by_cases htarget : k.target = n.id
    · rw [if_pos htarget, htarget, hn]
      congr 1
      funext source
      rw [Option.bind_some, Option.bind_none, hs.find?_ends_eq_none (.inr rfl), Option.map_none]
    · rw [if_neg htarget]

/-! ## The writes of a node -/

theorem sound_mergeNode (hs : s.Sound) (n : StoredNode) : (s.mergeNode n).Sound := by
  unfold mergeNode
  split
  · exact hs.changeAt _ fun _ => rfl
  · next hn => exact hs.addNode hn

theorem contents_mergeNode (hs : s.Sound) {n : StoredNode} (hlabels : n.labels.Nodup) :
    contents (s.mergeNode n) = (contents s).mergeNode id n := by
  unfold mergeNode
  split
  · next place hplace =>
    apply Contents.ext
    · funext id
      show (s.changeAt place (·.merge n)).node? id =
        if id = n.id then some (Contents.mergedNode _ (s.node? id) n) else s.node? id
      rw [node?_changeAt hs hplace]
      by_cases hid : id = n.id
      · obtain ⟨m, hm, hmid⟩ := hs.at?_of_index hplace
        have hnode : s.node? id = some m := by rw [node?, hid, hplace, Option.bind_some, hm]
        rw [if_pos hid, if_pos hid, hnode]
        simp only [Option.map_some, Contents.mergedNode, StoredNode.merge, Option.getD_some,
          mapValues_id]
        rw [hmid]
      · rw [if_neg hid, if_neg hid]
    · funext k
      exact edge?_changeAt hs place (by intro n; rfl) k
  · next hn =>
    apply Contents.ext
    · funext id
      show (s.addNode n).node? id =
        if id = n.id then some (Contents.mergedNode _ (s.node? id) n) else s.node? id
      rw [node?_addNode hs]
      by_cases hid : id = n.id
      · have hnode : s.node? id = none := by rw [node?, hid, hn, Option.bind_none]
        have hdistinct : addNew [] n.labels = n.labels := distinct_of_nodup hlabels
        rw [if_pos hid, if_pos hid, hnode]
        simp [Contents.mergedNode, hdistinct, mapValues_id]
      · rw [if_neg hid, if_neg hid]
    · funext k
      exact edge?_addNode hs hn k

theorem sound_updateNode (hs : s.Sound) (u : PropertyUpdate) : (s.updateNode u).Sound := by
  unfold updateNode
  split
  · exact hs.changeAt _ fun _ => rfl
  · exact hs

theorem contents_updateNode (hs : s.Sound) (u : PropertyUpdate) :
    contents (s.updateNode u) = (contents s).updateNode id u := by
  have hchange : Contents.updatedNode id u.properties =
      fun n => { n with properties := n.properties.update u.properties } := by
    funext n
    rw [Contents.updatedNode, mapValues_id]
  unfold updateNode
  split
  · next place hplace =>
    apply Contents.ext
    · funext id
      show (s.changeAt place _).node? id =
        if id = u.id then (s.node? id).map (Contents.updatedNode _ u.properties) else s.node? id
      rw [node?_changeAt hs hplace, hchange]
    · funext k
      exact edge?_changeAt hs place (by intro n; rfl) k
  · next hnone =>
    apply Contents.ext
    · funext id
      show s.node? id =
        if id = u.id then (s.node? id).map (Contents.updatedNode _ u.properties) else s.node? id
      by_cases hid : id = u.id
      · have hnode : s.node? id = none := by rw [node?, hid, hnone, Option.bind_none]
        rw [if_pos hid, hnode, Option.map_none]
      · rw [if_neg hid]
    · rfl

/-! ## Merging a relationship -/

/-- Relationships may be exchanged for others with the same ends and serial numbers. -/
theorem Sound.withLinks (hs : s.Sound) {links : List Link}
    (hends : links.map Link.ends = s.links.map Link.ends)
    (hserials : links.map Link.serial = s.links.map Link.serial) :
    ({ s with links := links } : AdjacencyStore).Sound := by
  have hold : ∀ l ∈ links, ∃ k ∈ s.links, k.ends = l.ends := by
    intro l hl
    have h := List.mem_map_of_mem (f := Link.ends) hl
    rw [hends] at h
    exact List.mem_map.1 h
  constructor
  case index_iff => exact hs.index_iff
  case source_taken =>
    intro l hl
    obtain ⟨k, hk, hkl⟩ := hold l hl
    have hsource : k.source = l.source := congrArg Prod.fst hkl
    rw [← hsource]
    exact hs.source_taken k hk
  case target_taken =>
    intro l hl
    obtain ⟨k, hk, hkl⟩ := hold l hl
    have htarget : k.target = l.target := congrArg (fun x => x.2.1) hkl
    rw [← htarget]
    exact hs.target_taken k hk
  case nodup_ends => exact hends.symm ▸ hs.nodup_ends
  case nodup_serials => exact hserials.symm ▸ hs.nodup_serials
  case serial_lt =>
    intro l hl
    have h := List.mem_map_of_mem (f := Link.serial) hl
    rw [hserials] at h
    obtain ⟨k, hk, hkl⟩ := List.mem_map.1 h
    rw [← hkl]
    exact hs.serial_lt k hk

/-- A relationship may be added between two places that are taken, if none of its type is there. -/
theorem Sound.consLink (hs : s.Sound) {a b : Nat} (ha : (s.at? a).isSome = true)
    (hb : (s.at? b).isSome = true) {t : Identifier} (p : Properties)
    (hnew : ∀ l ∈ s.links, l.ends ≠ (a, b, t)) :
    ({ s with
      links := ⟨s.nextSerial, a, b, t, p⟩ :: s.links
      nextSerial := s.nextSerial + 1 } : AdjacencyStore).Sound where
  index_iff := hs.index_iff
  source_taken := List.forall_mem_cons.2 ⟨ha, hs.source_taken⟩
  target_taken := List.forall_mem_cons.2 ⟨hb, hs.target_taken⟩
  nodup_ends := by
    refine List.nodup_cons.2 ⟨?_, hs.nodup_ends⟩
    intro h
    obtain ⟨l, hl, hends⟩ := List.mem_map.1 h
    exact hnew l hl hends
  nodup_serials := by
    refine List.nodup_cons.2 ⟨?_, hs.nodup_serials⟩
    -- The number was not given to any relationship before.
    intro h
    obtain ⟨l, hl, hserial⟩ := List.mem_map.1 h
    have hlt := hs.serial_lt l hl
    rw [hserial] at hlt
    exact absurd hlt (Nat.lt_irrefl _)
  serial_lt := List.forall_mem_cons.2
    ⟨Nat.lt_succ_self _, fun l hl => Nat.lt_succ_of_lt (hs.serial_lt l hl)⟩

theorem sound_mergeLink (hs : s.Sound) {a b : Nat} (ha : (s.at? a).isSome = true)
    (hb : (s.at? b).isSome = true) (t : Identifier) (p : Properties) :
    (s.mergeLink a b t p).Sound := by
  unfold mergeLink
  split
  · -- The relationship that is there keeps its ends and its serial number.
    apply hs.withLinks
    · exact map_changeFirst Link.ends (by intro l; rfl) s.links
    · exact map_changeFirst Link.serial (by intro l; rfl) s.links
  · next hnone =>
    apply hs.consLink ha hb p
    intro l hl hends
    exact hnone (List.any_eq_true.2 ⟨l, hl, decide_eq_true hends⟩)

/-- The relationship between two places after a merge. -/
theorem find?_mergeLink (a b : Nat) (t : Identifier) (p : Properties) (k : Nat × Nat × Identifier) :
    ((s.mergeLink a b t p).links.find? fun l => l.ends = k).map Link.properties =
      if k = (a, b, t) then
        some ((((s.links.find? fun l => l.ends = k).map Link.properties).getD .empty).overlay p)
      else (s.links.find? fun l => l.ends = k).map Link.properties := by
  unfold mergeLink
  split
  · next h =>
    show ((changeFirst _ _ s.links).find? _).map _ = _
    rw [find?_changeFirst Link.ends (by intro l; rfl)]
    by_cases hk : k = (a, b, t)
    · subst hk
      rw [if_pos rfl, if_pos rfl]
      cases hf : s.links.find? fun l => l.ends = (a, b, t) with
      | some l => rfl
      | none =>
        obtain ⟨l, hl, hends⟩ := List.any_eq_true.1 h
        exact absurd hends (List.find?_eq_none.1 hf l hl)
    · rw [if_neg hk, if_neg hk]
  · next h =>
    show ((Link.mk _ a b t p :: s.links).find? _).map _ = _
    rw [List.find?_cons]
    by_cases hk : k = (a, b, t)
    · subst hk
      have hnone : (s.links.find? fun l => l.ends = (a, b, t)) = none :=
        List.find?_eq_none.2 fun l hl hends => h (List.any_eq_true.2 ⟨l, hl, hends⟩)
      have hends : (Link.mk s.nextSerial a b t p).ends = (a, b, t) := rfl
      rw [if_pos rfl, hnone, hends, decide_eq_true rfl]
      simp
    · have hne : ¬ (Link.mk s.nextSerial a b t p).ends = k := fun h => hk h.symm
      simp [hk, hne]

theorem sound_mergeEdge (hs : s.Sound) (e : StoredEdge) : (s.mergeEdge e).Sound := by
  unfold mergeEdge
  split
  · next a b ha hb =>
    obtain ⟨m, hm, _⟩ := hs.at?_of_index ha
    obtain ⟨n, hn, _⟩ := hs.at?_of_index hb
    exact sound_mergeLink hs (by rw [hm]; rfl) (by rw [hn]; rfl) _ _
  · exact hs

theorem contents_mergeEdge (hs : s.Sound) {e : StoredEdge}
    (source : Backend.hasNode s e.source = true) (target : Backend.hasNode s e.target = true) :
    contents (s.mergeEdge e) = (contents s).mergeEdge id e := by
  obtain ⟨a, ha⟩ := (hasNode_iff hs).1 source
  obtain ⟨b, hb⟩ := (hasNode_iff hs).1 target
  have hmerge : s.mergeEdge e = s.mergeLink a b e.type e.properties := by
    unfold mergeEdge
    rw [ha, hb]
  have hindex : (s.mergeEdge e).index = s.index := by
    rw [hmerge, mergeLink]
    split <;> rfl
  have hat : (s.mergeEdge e).at? = s.at? := by
    rw [hmerge, mergeLink]
    split <;> rfl
  apply Contents.ext
  · funext id
    show (s.mergeEdge e).node? id = s.node? id
    apply node?_congr
    · rw [hindex]
    · intro place _
      rw [hat]
  · funext k
    show _ = if k = e.key then some (Contents.mergedProperties _ ((contents s).edge? k) e.properties)
      else (contents s).edge? k
    rw [edge?_contents_eq (sound_mergeEdge hs e), edge?_contents_eq hs, hindex]
    by_cases hk : k = e.key
    · have hks : k.source = e.source := congrArg RelationKey.source hk
      have hkt : k.target = e.target := congrArg RelationKey.target hk
      have hktype : k.type = e.type := congrArg RelationKey.type hk
      rw [if_pos hk, hks, hkt, hktype, ha, hb]
      simp only [Option.bind_some]
      rw [hmerge, find?_mergeLink, if_pos rfl, Contents.mergedProperties, mapValues_id]
    · rw [if_neg hk]
      cases hks : s.index.get? k.source with
      | none => rfl
      | some a' =>
        cases hkt : s.index.get? k.target with
        | none => rfl
        | some b' =>
          rw [Option.bind_some, Option.bind_some, Option.bind_some, Option.bind_some, hmerge,
            find?_mergeLink, if_neg]
          -- Two keys with the same places have the same ids.
          intro heq
          simp only [Prod.mk.injEq] at heq
          obtain ⟨rfl, rfl, htype⟩ := heq
          apply hk
          show RelationKey.mk k.source k.target k.type = e.key
          rw [hs.index_inj hks ha, hs.index_inj hkt hb, htype, StoredEdge.key]

/-! ## Removing a node -/

/-- A place becomes free, together with the relationships that touch it. -/
def vacate (s : AdjacencyStore) (id : String) (place : Nat) : AdjacencyStore :=
  { s with
    places := s.places.set place none
    index := s.index.erase id
    links := s.links.filter fun l => !l.touches place }

theorem at?_vacate (id : String) (place i : Nat) :
    (s.vacate id place).at? i = if i = place then none else s.at? i := by
  show (s.places.set place none)[i]?.join = _
  rw [List.getElem?_set, at?]
  by_cases h : i = place
  · subst h
    rw [if_pos rfl, if_pos rfl]
    split <;> rfl
  · rw [if_neg (Ne.symm h), if_neg h]

theorem index_vacate (id : String) (place : Nat) (j : String) :
    (s.vacate id place).index.get? j = if j = id then none else s.index.get? j :=
  KeyMap.get?_erase s.index id j

theorem mem_links_vacate {id : String} {place : Nat} {l : Link} :
    l ∈ (s.vacate id place).links ↔ l ∈ s.links ∧ l.source ≠ place ∧ l.target ≠ place := by
  simp [vacate, Link.touches]

theorem Sound.vacate (hs : s.Sound) {id : String} {place : Nat}
    (hplace : s.index.get? id = some place) : (s.vacate id place).Sound where
  index_iff := by
    intro j i
    rw [index_vacate, at?_vacate]
    by_cases hj : j = id
    · subst hj
      rw [if_pos rfl]
      constructor
      · intro h
        cases h
      · intro hx
        obtain ⟨n, hn, hid⟩ := hx
        split at hn
        · cases hn
        · next hi =>
          have h := hs.index_id hn
          rw [hid, hplace] at h
          exact absurd (Option.some.inj h).symm hi
    · rw [if_neg hj]
      constructor
      · intro h
        have hi : i ≠ place := by
          rintro rfl
          exact hj (hs.index_inj h hplace)
        rw [if_neg hi]
        exact hs.at?_of_index h
      · intro hx
        obtain ⟨n, hn, hid⟩ := hx
        split at hn
        · cases hn
        · exact (hs.index_iff j i).2 ⟨n, hn, hid⟩
  source_taken := by
    intro l hl
    obtain ⟨hmem, hsource, _⟩ := mem_links_vacate.1 hl
    rw [at?_vacate, if_neg hsource]
    exact hs.source_taken l hmem
  target_taken := by
    intro l hl
    obtain ⟨hmem, _, htarget⟩ := mem_links_vacate.1 hl
    rw [at?_vacate, if_neg htarget]
    exact hs.target_taken l hmem
  nodup_ends := (List.filter_sublist.map Link.ends).nodup hs.nodup_ends
  nodup_serials := (List.filter_sublist.map Link.serial).nodup hs.nodup_serials
  serial_lt := fun l hl => hs.serial_lt l (mem_links_vacate.1 hl).1

theorem node?_vacate (hs : s.Sound) {id : String} {place : Nat}
    (hplace : s.index.get? id = some place) (j : String) :
    (s.vacate id place).node? j = if j = id then none else s.node? j := by
  by_cases hj : j = id
  · rw [node?, index_vacate, if_pos hj, if_pos hj, Option.bind_none]
  · rw [if_neg hj]
    apply node?_congr
    · rw [index_vacate, if_neg hj]
    · intro i hi
      have hne : i ≠ place := by
        rintro rfl
        exact hj (hs.index_inj hi hplace)
      rw [at?_vacate, if_neg hne]

theorem edge?_vacate (hs : s.Sound) {id : String} {place : Nat}
    (hplace : s.index.get? id = some place) (k : RelationKey) :
    (contents (s.vacate id place)).edge? k =
      if k.touches id then none else (contents s).edge? k := by
  rw [edge?_contents_eq (hs.vacate hplace), edge?_contents_eq hs, index_vacate, index_vacate]
  by_cases hsource : k.source = id
  · simp [hsource, RelationKey.touches]
  by_cases htarget : k.target = id
  · simp [htarget, RelationKey.touches]
  have htouches : k.touches id = false := by simp [RelationKey.touches, hsource, htarget]
  rw [if_neg hsource, if_neg htarget, htouches, if_neg (by decide)]
  cases hi : s.index.get? k.source with
  | none => rfl
  | some i =>
    cases hj : s.index.get? k.target with
    | none => rfl
    | some j =>
      rw [Option.bind_some, Option.bind_some, Option.bind_some, Option.bind_some]
      congr 1
      show (s.links.filter fun l => !l.touches place).find? (fun l => l.ends = (i, j, k.type)) =
        s.links.find? fun l => l.ends = (i, j, k.type)
      rw [List.find?_filter]
      congr 1
      funext l
      -- A relationship between two other places does not touch the one that becomes free.
      by_cases hends : l.ends = (i, j, k.type)
      · have hls : l.source = i := congrArg Prod.fst hends
        have hlt : l.target = j := congrArg (fun x => x.2.1) hends
        have hine : i ≠ place := by
          rintro rfl
          exact hsource (hs.index_inj hi hplace)
        have hjne : j ≠ place := by
          rintro rfl
          exact htarget (hs.index_inj hj hplace)
        simp [hends, Link.touches, hls, hlt, hine, hjne]
      · simp [hends]

theorem sound_deleteNode (hs : s.Sound) (id : String) : (s.deleteNode id).Sound := by
  unfold deleteNode
  split
  · next hplace => exact hs.vacate hplace
  · exact hs

theorem contents_deleteNode (hs : s.Sound) (id : String) :
    contents (s.deleteNode id) = (contents s).deleteNode id := by
  unfold deleteNode
  split
  · next place hplace =>
    apply Contents.ext
    · funext j
      exact node?_vacate hs hplace j
    · funext k
      exact edge?_vacate hs hplace k
  · next hnone =>
    apply Contents.ext
    · funext j
      show s.node? j = if j = id then none else s.node? j
      by_cases hj : j = id
      · rw [if_pos hj, node?, hj, hnone, Option.bind_none]
      · rw [if_neg hj]
    · funext k
      show (contents s).edge? k = if k.touches id then none else (contents s).edge? k
      split
      · next htouches =>
        rw [edge?_contents_eq hs]
        rcases (by simpa [RelationKey.touches] using htouches) with hk | hk
        · rw [hk, hnone, Option.bind_none]
        · rw [hk, hnone, Option.bind_eq_none_iff]
          exact fun _ _ => rfl
      · rfl

/-! ## Lists -/

theorem pairwise_labelled (hs : s.Sound) (l : Identifier) :
    (s.labelled l).Pairwise fun m n => m.id < n.id :=
  pairwise_mergeSort_key ((List.filter_sublist.map StoredNode.id).nodup (nodup_ids hs))

theorem mem_labelled {l : Identifier} {n : StoredNode} :
    n ∈ s.labelled l ↔ n ∈ s.nodes ∧ l ∈ n.labels := by
  rw [labelled, List.mem_mergeSort, List.mem_filter, List.contains_iff_mem]

theorem mem_linksAt {place : Nat} {l : Link} :
    l ∈ s.linksAt place ↔ l ∈ s.links ∧ l.touches place = true := by
  simp only [linksAt, Link.touches, List.mem_append, List.mem_filter, Bool.or_eq_true]
  exact and_or_left.symm

theorem mem_incidentLinks (hs : s.Sound) {ids : List String} {l : Link} :
    l ∈ distinctOn Link.serial ((ids.filterMap s.index.get?).flatMap s.linksAt) ↔
      l ∈ s.links ∧ ∃ id ∈ ids, ∃ place, s.index.get? id = some place ∧ l.touches place = true := by
  have hinj : ∀ l ∈ (ids.filterMap s.index.get?).flatMap s.linksAt,
      ∀ k ∈ (ids.filterMap s.index.get?).flatMap s.linksAt, l.serial = k.serial → l = k := by
    intro l hl k hk
    obtain ⟨_, _, hl⟩ := List.mem_flatMap.1 hl
    obtain ⟨_, _, hk⟩ := List.mem_flatMap.1 hk
    exact List.inj_on_of_nodup_map hs.nodup_serials (mem_linksAt.1 hl).1 (mem_linksAt.1 hk).1
  rw [mem_distinctOn_of_injOn hinj]
  simp only [List.mem_flatMap, List.mem_filterMap, mem_linksAt]
  constructor
  · intro h
    obtain ⟨place, ⟨id, hid, hplace⟩, hl, htouches⟩ := h
    exact ⟨hl, id, hid, place, hplace, htouches⟩
  · intro h
    obtain ⟨hl, id, hid, place, hplace, htouches⟩ := h
    exact ⟨place, ⟨id, hid, hplace⟩, hl, htouches⟩

/-- A relationship touches a place exactly if it is read as touching the id of the place. -/
theorem Sound.touches_iff (hs : s.Sound) {l : Link} {e : StoredEdge} (h : s.edge? l = some e)
    {id : String} :
    (∃ place, s.index.get? id = some place ∧ l.touches place = true) ↔ e.touches id = true := by
  obtain ⟨hsource, htarget⟩ := hs.index_ends h
  simp only [Link.touches, Bool.or_eq_true, decide_eq_true_eq, StoredEdge.touches_iff]
  constructor
  · intro hx
    obtain ⟨place, hplace, rfl | rfl⟩ := hx
    · exact .inl (hs.index_inj hsource hplace)
    · exact .inr (hs.index_inj htarget hplace)
  · intro hx
    rcases hx with rfl | rfl
    · exact ⟨_, hsource, .inl rfl⟩
    · exact ⟨_, htarget, .inr rfl⟩

theorem mem_incidentAll (hs : s.Sound) {ids : List String} {e : StoredEdge} :
    e ∈ s.incidentAll ids ↔ e ∈ s.edges ∧ ∃ id ∈ ids, e.touches id = true := by
  rw [incidentAll, edges, List.mem_filterMap, List.mem_filterMap]
  constructor
  · intro h
    obtain ⟨l, hl, he⟩ := h
    obtain ⟨hmem, id, hid, htouches⟩ := (mem_incidentLinks hs).1 hl
    exact ⟨⟨l, hmem, he⟩, id, hid, (hs.touches_iff he).1 htouches⟩
  · intro h
    obtain ⟨⟨l, hmem, he⟩, id, hid, htouches⟩ := h
    exact ⟨l, (mem_incidentLinks hs).2 ⟨hmem, id, hid, (hs.touches_iff he).2 htouches⟩, he⟩

theorem nodup_incidentAll (hs : s.Sound) (ids : List String) : (s.incidentAll ids).Nodup := by
  have hserials := nodup_map_distinctOn Link.serial ((ids.filterMap s.index.get?).flatMap s.linksAt)
  rw [List.Nodup, List.pairwise_map] at hserials
  refine (List.Pairwise.and_mem.1 hserials).filterMap s.edge? ?_
  -- Two relationships that are read as one have the same ends, and so are one.
  rintro l k ⟨hl, hk, hne⟩ e he f hf rfl
  have hends : l.ends = k.ends := hs.ends_eq_of_key_eq he hf rfl
  have hlk : l = k := List.inj_on_of_nodup_map hs.nodup_ends ((mem_incidentLinks hs).1 hl).1
    ((mem_incidentLinks hs).1 hk).1 hends
  exact hne (congrArg Link.serial hlk)

theorem hasNode_ends (hs : s.Sound) {e : StoredEdge} (he : e ∈ s.edges) :
    Backend.hasNode s e.source = true ∧ Backend.hasNode s e.target = true := by
  obtain ⟨l, _, hle⟩ := List.mem_filterMap.1 he
  obtain ⟨hsource, htarget⟩ := hs.index_ends hle
  exact ⟨(hasNode_iff hs).2 ⟨_, hsource⟩, (hasNode_iff hs).2 ⟨_, htarget⟩⟩

theorem sound_empty : (Backend.empty : AdjacencyStore).Sound where
  index_iff := by
    intro id place
    constructor
    · intro h
      cases h
    · intro hx
      obtain ⟨n, hn, _⟩ := hx
      rw [show (Backend.empty : AdjacencyStore).at? place = ([] : List (Option StoredNode))[place]?.join
        from rfl, List.getElem?_nil] at hn
      cases hn
  source_taken := List.forall_mem_nil _
  target_taken := List.forall_mem_nil _
  nodup_ends := List.nodup_nil
  nodup_serials := List.nodup_nil
  serial_lt := List.forall_mem_nil _

instance : LawfulBackend AdjacencyStore where
  settle := id
  isNull_settle _ := rfl
  eq_nil_of_settle_eq_nil := id
  Fits _ := True
  fits_settle _ := .rfl
  legible_iff := iff_of_true rfl fun _ _ _ => trivial
  Sound := Sound
  sound_empty := sound_empty
  sound_mergeNode := fun hs n _ => sound_mergeNode hs n
  sound_mergeEdge := fun hs e _ _ => sound_mergeEdge hs e
  sound_updateNode := sound_updateNode
  sound_deleteNode := sound_deleteNode
  nodup_ids := nodup_ids
  node?_eq_some_iff := node?_eq_some_iff
  nodup_keys := nodup_keys
  edge?_eq := properties?_eq
  hasNode_ends := hasNode_ends
  pairwise_labelled := pairwise_labelled
  mem_labelled _ {_ _} := mem_labelled
  nodup_incidentAll := nodup_incidentAll
  mem_incidentAll := mem_incidentAll
  contents_empty := rfl
  contents_mergeNode := contents_mergeNode
  contents_mergeEdge := contents_mergeEdge
  contents_updateNode := contents_updateNode
  contents_deleteNode := contents_deleteNode

end AdjacencyStore

end DatasetGraph
