import DatasetGraph.Proofs.Store.Run

/-!
# What is read of a store

Contents in the form in which clients see them: the node with an id (`Contents.read?`), and whether
an edge is there (`Contents.HoldsEdge`).  The three readings of a valid store answer with just that,
and they fail exactly if some of what they have to read cannot be read: `readNodes_eq_ite`,
`exists_incidentEdges_eq_ite` and `exists_datasetRoots_eq_ite`.  A reader that reads everything never
fails, and any other follows it.
-/

namespace DatasetGraph

/-- Whether the edge starts or ends at a node. -/
def Edge.touches (e : Edge) (id : String) : Bool := e.source = id || e.target = id

theorem Edge.touches_iff {e : Edge} {id : String} :
    e.touches id = true ↔ e.source = id ∨ e.target = id := by
  simp [touches]

namespace Contents

/-- The node with an id, as it is read. -/
def read? (c : Contents) (id : String) : Option Node :=
  (c.node? id).bind fun n => n.toNode.toOption

/-- Whether something is stored that is read as this edge. -/
def HoldsEdge (c : Contents) (e : Edge) : Prop :=
  ∃ k p, c.edge? k = some p ∧ (k.withProperties p).toEdge = .ok e

/-- Whether an edge joins two nodes, in either direction. -/
def Joined (c : Contents) (a b : String) : Prop :=
  ∃ k, (c.edge? k).isSome = true ∧ (k.source = a ∧ k.target = b ∨ k.source = b ∧ k.target = a)

end Contents

/-! ## Nodes -/

theorem mapM_token {ls : List Identifier} (h : ∀ l ∈ ls, l.IsProper) :
    ∃ ts, ls.mapM Identifier.token = .ok ts ∧
      ∀ t, t ∈ ts ↔ t ≠ "" ∧ (⟨Identifier.escape t⟩ : Identifier) ∈ ls := by
  have hmap : ls.mapM Identifier.token =
      .ok (ls.map fun l => (l.token).toOption.getD "") := by
    apply Fallible.mapM_eq_ok_map
    intro l hl
    obtain ⟨t, ht, _⟩ := (h l hl).token_eq
    rw [ht]
    rfl
  refine ⟨_, hmap, ?_⟩
  intro t
  rw [Fallible.mem_of_mapM_eq_ok hmap]
  constructor
  · intro hx
    obtain ⟨l, hl, ht⟩ := hx
    obtain ⟨u, hu, hne, htext⟩ := (h l hl).token_eq
    rw [hu] at ht
    cases ht
    exact ⟨hne, by rwa [← htext]⟩
  · intro hx
    obtain ⟨_, hl⟩ := hx
    exact ⟨_, hl, Identifier.token_escape t⟩

theorem StoredNode.toNode_eq_ok {m : StoredNode} {n : Node} (h : m.toNode = .ok n) :
    ∃ ts, m.labels.mapM Identifier.token = .ok ts ∧ n = ⟨m.id, ts, m.properties.decode⟩ := by
  rw [toNode] at h
  obtain ⟨ts, hts, h⟩ := Fallible.bind_eq_ok_iff.1 h
  exact ⟨ts, hts, (Except.ok.inj h).symm⟩

theorem StoredNode.WellFormed.exists_toNode {m : StoredNode} (hm : m.WellFormed) :
    ∃ n, m.toNode = .ok n := by
  obtain ⟨ts, hts, _⟩ := mapM_token hm.proper
  refine ⟨⟨m.id, ts, m.properties.decode⟩, ?_⟩
  rw [StoredNode.toNode, hts]
  rfl

theorem StoredNode.id_of_toNode {m : StoredNode} {n : Node} (h : m.toNode = .ok n) :
    n.id = m.id := by
  obtain ⟨ts, _, rfl⟩ := toNode_eq_ok h
  rfl

/-- The labels of a node that is read are those that it is stored with. -/
theorem StoredNode.WellFormed.mem_labels_iff {m : StoredNode} {n : Node} (hm : m.WellFormed)
    (h : m.toNode = .ok n) {t : String} :
    t ∈ n.labels ↔ t ≠ "" ∧ (⟨Identifier.escape t⟩ : Identifier) ∈ m.labels := by
  obtain ⟨ts, hts, rfl⟩ := StoredNode.toNode_eq_ok h
  obtain ⟨us, hus, hmem⟩ := mapM_token hm.proper
  rw [hts] at hus
  cases hus
  exact hmem t

/-- A node is read with a label exactly if it is stored with it. -/
theorem StoredNode.WellFormed.hasLabel_iff {m : StoredNode} {n : Node} (hm : m.WellFormed)
    (h : m.toNode = .ok n) {l : Label} (hl : l.token ≠ "") :
    n.hasLabel l = true ↔ Identifier.ofLabel l ∈ m.labels := by
  rw [Node.hasLabel_iff, hm.mem_labels_iff h]
  exact and_iff_right hl

namespace Contents

variable {c : Contents}

theorem read?_eq_some_iff {id : String} {n : Node} :
    c.read? id = some n ↔ ∃ m, c.node? id = some m ∧ m.toNode = .ok n := by
  rw [read?, Option.bind_eq_some_iff]
  refine exists_congr fun m => and_congr_right fun _ => ?_
  cases m.toNode with
  | error e => exact ⟨nofun, nofun⟩
  | ok n' => exact ⟨fun h => congrArg _ (Option.some.inj h), fun h => congrArg _ (Except.ok.inj h)⟩

theorem WellFormed.read?_id (hc : c.WellFormed) {id : String} {n : Node}
    (h : c.read? id = some n) : n.id = id := by
  obtain ⟨m, hm, hmn⟩ := read?_eq_some_iff.1 h
  rw [StoredNode.id_of_toNode hmn, hc.id_eq hm]

/-- Every node that is there can be read. -/
theorem WellFormed.isSome_read? (hc : c.WellFormed) (id : String) :
    (c.read? id).isSome = (c.node? id).isSome := by
  cases hm : c.node? id with
  | none =>
    rw [read?, hm]
    rfl
  | some m =>
    obtain ⟨n, hn⟩ := (hc.node hm).exists_toNode
    rw [read?_eq_some_iff.2 ⟨m, hm, hn⟩]
    rfl

/-! ## Edges -/

theorem toEdge_eq_ok {e : StoredEdge} {f : Edge} (h : e.toEdge = .ok f) :
    ∃ t, e.type.token = .ok t ∧ f = ⟨e.source, e.target, [t], e.properties.decode⟩ := by
  rw [StoredEdge.toEdge] at h
  obtain ⟨t, ht, h⟩ := Fallible.bind_eq_ok_iff.1 h
  exact ⟨t, ht, (Except.ok.inj h).symm⟩

theorem exists_toEdge {e : StoredEdge} (he : e.WellFormed) : ∃ f, e.toEdge = .ok f := by
  obtain ⟨t, ht, _⟩ := he.proper.token_eq
  refine ⟨⟨e.source, e.target, [t], e.properties.decode⟩, ?_⟩
  rw [StoredEdge.toEdge, ht]
  rfl

/-- What is read of a relationship has its ends. -/
theorem touches_of_toEdge {e : StoredEdge} {f : Edge} (h : e.toEdge = .ok f) (id : String) :
    f.touches id = e.touches id := by
  obtain ⟨t, _, rfl⟩ := toEdge_eq_ok h
  rfl

/-- Two relationships whose edges have one key have one key. -/
theorem key_eq_of_toEdge {e e' : StoredEdge} {f f' : Edge} (he : e.WellFormed) (he' : e'.WellFormed)
    (h : e.toEdge = .ok f) (h' : e'.toEdge = .ok f') (hkey : f.key = f'.key) : e.key = e'.key := by
  obtain ⟨t, ht, rfl⟩ := toEdge_eq_ok h
  obtain ⟨t', ht', rfl⟩ := toEdge_eq_ok h'
  have hlabels : sortTexts [t] = sortTexts [t'] := congrArg EdgeKey.labels hkey
  rw [sortTexts, sortTexts, List.mergeSort_singleton, List.mergeSort_singleton] at hlabels
  have htype : e.type = e'.type := he.proper.eq_of_token he'.proper (by
    rw [ht, ht', List.singleton_inj.1 hlabels])
  have hsource : e.source = e'.source := congrArg EdgeKey.source hkey
  have htarget : e.target = e'.target := congrArg EdgeKey.target hkey
  rw [StoredEdge.key, StoredEdge.key, hsource, htarget, htype]

/-- Edges that are there are told apart by their keys. -/
theorem WellFormed.eq_of_key_eq (hc : c.WellFormed) {e f : Edge} (he : c.HoldsEdge e)
    (hf : c.HoldsEdge f) (h : e.key = f.key) : e = f := by
  obtain ⟨k, p, hp, hke⟩ := he
  obtain ⟨j, q, hq, hjf⟩ := hf
  have hkj : k = j := key_eq_of_toEdge (hc.edge hp) (hc.edge hq) hke hjf h
  subst hkj
  rw [hp] at hq
  cases hq
  rw [hke] at hjf
  exact Except.ok.inj hjf

/-- Two nodes are joined exactly if an edge is there that has them as its ends. -/
theorem WellFormed.joined_iff (hc : c.WellFormed) {a b : String} :
    c.Joined a b ↔ ∃ e, c.HoldsEdge e ∧
      (e.source = a ∧ e.target = b ∨ e.source = b ∧ e.target = a) := by
  constructor
  · intro h
    obtain ⟨k, hk, hends⟩ := h
    obtain ⟨p, hp⟩ := Option.isSome_iff_exists.1 hk
    obtain ⟨e, he⟩ := exists_toEdge (hc.edge hp)
    refine ⟨e, ⟨k, p, hp, he⟩, ?_⟩
    obtain ⟨t, _, rfl⟩ := toEdge_eq_ok he
    exact hends
  · intro h
    obtain ⟨e, ⟨k, p, hp, he⟩, hends⟩ := h
    refine ⟨k, Option.isSome_iff_exists.2 ⟨p, hp⟩, ?_⟩
    obtain ⟨t, _, rfl⟩ := toEdge_eq_ok he
    exact hends

end Contents

/-- An edge is there exactly if one of the relationships that are listed is read as it. -/
theorem holdsEdge_iff {σ : Type} [LawfulBackend σ] {s : σ} (hs : LawfulBackend.Sound s) {e : Edge} :
    (contents s).HoldsEdge e ↔ ∃ f ∈ ListedBackend.allEdges s, f.toEdge = .ok e := by
  constructor
  · intro h
    obtain ⟨k, p, hp, he⟩ := h
    exact ⟨k.withProperties p, (edge?_contents_eq_some_iff hs).1 hp, he⟩
  · intro h
    obtain ⟨f, hf, he⟩ := h
    exact ⟨f.key, f.properties, (mem_allEdges_iff hs).1 hf, he⟩

/-! ## The readings -/

open Classical in
/-- What is kept is read and then decoded. -/
theorem Backend.readAll_mapM {σ α β : Type} [Backend σ] {properties : α → Properties}
    {decode : α → Except InvalidIdentifier β} {xs : List α} {ys : List β}
    (h : xs.mapM decode = .ok ys) :
    (do ((← readAll σ properties xs).mapM decode).mapError StoreError.identifier) =
      if ∃ x ∈ xs, legible σ (properties x) = false then .error .unreadable else .ok ys := by
  rw [readAll_eq]
  by_cases hall : ∀ x ∈ xs, legible σ (properties x) = true
  · rw [if_pos hall, if_neg (by simpa using hall)]
    show (xs.mapM decode).mapError StoreError.identifier = _
    rw [h]
    rfl
  · rw [if_neg hall, if_pos (by simpa using hall)]
    rfl

/-- A dataset is kept and cannot be read. -/
def DatasetUnreadable {σ : Type} [ListedBackend σ] (s : σ) : Prop :=
  ∃ id n, (contents s).read? id = some n ∧ n.isDataset = true ∧ NodeUnreadable s id

theorem Legible.not_datasetUnreadable {σ : Type} [ListedBackend σ] {s : σ} (h : Legible s) :
    ¬DatasetUnreadable s := by
  rintro ⟨id, _, _, _, hid⟩
  exact h.node id hid

namespace Valid

variable {σ : Type} [LawfulBackend σ] {s : σ}

open ListedBackend (allNodes allEdges)
open LawfulBackend

open Classical in
/-- Nodes are read in the order in which they are asked for. -/
theorem readNodes_eq_ite (hs : Valid s) (ids : List String) :
    Store.readNodes s ids = if ∃ id ∈ ids, NodeUnreadable s id then .error .unreadable
      else .ok (ids.filterMap (contents s).read?) := by
  have hdecode : (ids.filterMap (Backend.node? s)).mapM StoredNode.toNode =
      .ok (ids.filterMap (contents s).read?) := by
    rw [Fallible.mapM_eq_ok_iff]
    induction ids with
    | nil => exact List.Forall₂.nil
    | cons id ids ih =>
      cases hm : Backend.node? s id with
      | none =>
        have hread : (contents s).read? id = none := by
          rw [Contents.read?, node?_contents, hm]
          rfl
        rw [List.filterMap_cons_none hm, List.filterMap_cons_none hread]
        exact ih
      | some m =>
        obtain ⟨n, hn⟩ := (hs.wellFormed.node hm).exists_toNode
        rw [List.filterMap_cons_some hm,
          List.filterMap_cons_some (Contents.read?_eq_some_iff.2 ⟨m, hm, hn⟩)]
        exact List.Forall₂.cons hn ih
  rw [Store.readNodes, Backend.nodes, Backend.readAll_mapM hdecode]
  congr 1
  simp only [List.mem_filterMap, NodeUnreadable, eq_iff_iff]
  constructor
  · rintro ⟨n, ⟨id, hid, hn⟩, hnot⟩
    exact ⟨id, hid, n, hn, hnot⟩
  · rintro ⟨id, hid, n, hn, hnot⟩
    exact ⟨n, ⟨id, hid, hn⟩, hnot⟩

open Classical in
/-- The edges of nodes come once, and they are those that touch one of the nodes. -/
theorem exists_incidentEdges_eq_ite (hs : Valid s) (ids : List String) :
    ∃ es : List Edge, Store.incidentEdges s ids =
        (if ∃ id ∈ ids, EdgeUnreadable s id then .error .unreadable else .ok es) ∧ es.Nodup ∧
      ∀ e, e ∈ es ↔ (contents s).HoldsEdge e ∧ ∃ id ∈ ids, e.touches id = true := by
  have hstored : ∀ {e}, e ∈ allEdges s → (contents s).edge? e.key = some e.properties :=
    fun he => (mem_allEdges_iff hs.sound).1 he
  have hdecode : ∀ {e}, e ∈ allEdges s → ∃ f, e.toEdge = .ok f := fun he =>
    Contents.exists_toEdge (hs.wellFormed.edge (hstored he))
  have hmem : ∀ e, e ∈ Backend.incidentAll s ids ↔
      e ∈ allEdges s ∧ ∃ id ∈ ids, e.touches id = true := fun _ => mem_incidentAll hs.sound
  have hread : (Backend.incidentAll s ids).mapM StoredEdge.toEdge =
      .ok ((Backend.incidentAll s ids).map fun e => e.toEdge.toOption.getD (.plain "" "" "")) := by
    apply Fallible.mapM_eq_ok_map
    intro e he
    obtain ⟨f, hf⟩ := hdecode ((hmem e).1 he).1
    rw [hf]
    rfl
  refine ⟨(Backend.incidentAll s ids).map fun e => e.toEdge.toOption.getD (.plain "" "" ""),
    ?_, ?_, ?_⟩
  · rw [Store.incidentEdges, Backend.incidentEdges, Backend.readAll_mapM hread]
    congr 1
    simp only [hmem, EdgeUnreadable, eq_iff_iff]
    constructor
    · rintro ⟨e, ⟨he, id, hid, htouches⟩, hnot⟩
      exact ⟨id, hid, e, he, htouches, hnot⟩
    · rintro ⟨id, hid, e, he, htouches, hnot⟩
      exact ⟨e, ⟨he, id, hid, htouches⟩, hnot⟩
  · -- Two relationships that are read as one edge have one key, and so are one.
    apply List.Nodup.map_on _ (nodup_incidentAll hs.sound ids)
    intro e he e' he' h
    obtain ⟨f, hf⟩ := hdecode ((hmem e).1 he).1
    obtain ⟨f', hf'⟩ := hdecode ((hmem e').1 he').1
    rw [hf, hf'] at h
    have hff : f = f' := h
    have hkey := Contents.key_eq_of_toEdge (hs.wellFormed.edge (hstored ((hmem e).1 he).1))
      (hs.wellFormed.edge (hstored ((hmem e').1 he').1)) hf hf' (congrArg Edge.key hff)
    exact List.inj_on_of_nodup_map (nodup_keys hs.sound) ((hmem e).1 he).1 ((hmem e').1 he').1 hkey
  · intro f
    rw [Fallible.mem_of_mapM_eq_ok hread]
    constructor
    · intro hx
      obtain ⟨e, he, hf⟩ := hx
      obtain ⟨hall, id, hid, htouches⟩ := (hmem e).1 he
      refine ⟨⟨e.key, e.properties, hstored hall, hf⟩, id, hid, ?_⟩
      rwa [Contents.touches_of_toEdge hf]
    · intro hx
      obtain ⟨⟨k, p, hp, hf⟩, id, hid, htouches⟩ := hx
      refine ⟨k.withProperties p, (hmem _).2 ⟨(edge?_contents_eq_some_iff hs.sound).1 hp, id, hid, ?_⟩,
        hf⟩
      rwa [← Contents.touches_of_toEdge hf]

/-- A stored node is among those with the label of datasets exactly if it is read as a dataset. -/
theorem mem_labelled_dataset_iff (hs : Valid s) {m : StoredNode} {n : Node}
    (hm : (contents s).node? m.id = some m) (hmn : m.toNode = .ok n) :
    m ∈ Backend.labelled s (Identifier.ofLabel .dataset) ↔ n.isDataset = true := by
  rw [mem_labelled hs.sound, mem_allNodes_iff hs.sound, and_iff_right hm]
  exact ((hs.wellFormed.node hm).hasLabel_iff hmn (by decide)).symm

theorem exists_of_mem_labelled (hs : Valid s) {l : Identifier} {m : StoredNode}
    (h : m ∈ Backend.labelled s l) :
    (contents s).node? m.id = some m ∧ ∃ n, m.toNode = .ok n := by
  have hm := (mem_allNodes_iff hs.sound).1 ((mem_labelled hs.sound).1 h).1
  exact ⟨hm, (hs.wellFormed.node hm).exists_toNode⟩

theorem datasetUnreadable_iff (hs : Valid s) : DatasetUnreadable s ↔
    ∃ m ∈ Backend.labelled s (Identifier.ofLabel .dataset),
      Backend.legible σ m.properties = false := by
  constructor
  · rintro ⟨id, n, hn, hdataset, m, hm, hnot⟩
    obtain ⟨m', hm', hmn⟩ := Contents.read?_eq_some_iff.1 hn
    obtain rfl : m' = m := Option.some.inj (hm'.symm.trans hm)
    have hid : m'.id = id := hs.wellFormed.id_eq hm'
    exact ⟨m', (hs.mem_labelled_dataset_iff (hid ▸ hm') hmn).2 hdataset, hnot⟩
  · rintro ⟨m, hm, hnot⟩
    obtain ⟨hnode, n, hn⟩ := hs.exists_of_mem_labelled hm
    exact ⟨m.id, n, Contents.read?_eq_some_iff.2 ⟨m, hnode, hn⟩,
      (hs.mem_labelled_dataset_iff hnode hn).1 hm, m, hnode, hnot⟩

open Classical in
/-- The roots of datasets come in order of their ids, and they are all nodes with that label. -/
theorem exists_datasetRoots_eq_ite (hs : Valid s) :
    ∃ ns, Store.datasetRoots s =
        (if DatasetUnreadable s then .error .unreadable else .ok ns) ∧
      ns.Pairwise (fun m n => m.id < n.id) ∧
      ∀ n, n ∈ ns ↔ (contents s).read? n.id = some n ∧ n.isDataset = true := by
  have hread : (Backend.labelled s (Identifier.ofLabel .dataset)).mapM StoredNode.toNode =
      .ok ((Backend.labelled s (Identifier.ofLabel .dataset)).map
        fun m => m.toNode.toOption.getD ⟨m.id, [], .empty⟩) := by
    apply Fallible.mapM_eq_ok_map
    intro m hm
    obtain ⟨_, n, hn⟩ := hs.exists_of_mem_labelled hm
    rw [hn]
    rfl
  refine ⟨(Backend.labelled s (Identifier.ofLabel .dataset)).map
    fun m => m.toNode.toOption.getD ⟨m.id, [], .empty⟩, ?_, ?_, ?_⟩
  · rw [Store.datasetRoots, Store.nodesWithLabel, Backend.nodesLabelled,
      Backend.readAll_mapM hread]
    simp only [hs.datasetUnreadable_iff]
  · rw [List.pairwise_map]
    refine (pairwise_labelled hs.sound _).imp_of_mem ?_
    intro m m' hm hm' hlt
    obtain ⟨_, n, hn⟩ := hs.exists_of_mem_labelled hm
    obtain ⟨_, n', hn'⟩ := hs.exists_of_mem_labelled hm'
    rw [hn, hn']
    show n.id < n'.id
    rwa [StoredNode.id_of_toNode hn, StoredNode.id_of_toNode hn']
  · intro n
    rw [Fallible.mem_of_mapM_eq_ok hread]
    constructor
    · rintro ⟨m, hm, hn⟩
      obtain ⟨hnode, _⟩ := hs.exists_of_mem_labelled hm
      have hdataset := (hs.mem_labelled_dataset_iff hnode hn).1 hm
      rw [← StoredNode.id_of_toNode hn] at hnode
      exact ⟨Contents.read?_eq_some_iff.2 ⟨m, hnode, hn⟩, hdataset⟩
    · rintro ⟨hn, hdataset⟩
      obtain ⟨m, hm, hmn⟩ := Contents.read?_eq_some_iff.1 hn
      rw [StoredNode.id_of_toNode hmn] at hm
      exact ⟨m, (hs.mem_labelled_dataset_iff hm hmn).2 hdataset, hmn⟩

/-- What was read can be read. -/
theorem not_nodeUnreadable_of_readNodes (hs : Valid s) {ids : List String} {ns : List Node}
    (h : Store.readNodes s ids = .ok ns) : ∀ id ∈ ids, ¬NodeUnreadable s id := by
  classical
  intro id hid hnot
  rw [hs.readNodes_eq_ite, if_pos ⟨id, hid, hnot⟩] at h
  cases h

theorem of_incidentEdges_eq_ok (hs : Valid s) {ids : List String} {es : List Edge}
    (h : Store.incidentEdges s ids = .ok es) : (∀ id ∈ ids, ¬EdgeUnreadable s id) ∧
      ∀ e, e ∈ es ↔ (contents s).HoldsEdge e ∧ ∃ id ∈ ids, e.touches id = true := by
  classical
  obtain ⟨es', hes', _, hmem⟩ := hs.exists_incidentEdges_eq_ite ids
  rw [hes'] at h
  split at h
  · cases h
  · next hnot =>
    cases h
    exact ⟨fun id hid hedge => hnot ⟨id, hid, hedge⟩, hmem⟩

/-! ## Where everything can be read -/

section

variable [Backend.ReadsAll σ]

theorem readNodes_eq (hs : Valid s) (ids : List String) :
    Store.readNodes s ids = .ok (ids.filterMap (contents s).read?) := by
  rw [hs.readNodes_eq_ite, if_neg (by simp)]

theorem readNodes_singleton (hs : Valid s) (id : String) :
    Store.readNodes s [id] = .ok ((contents s).read? id).toList := by
  rw [hs.readNodes_eq]
  cases h : (contents s).read? id with
  | none => rw [List.filterMap_cons_none h]; rfl
  | some n => rw [List.filterMap_cons_some h]; rfl

theorem exists_incidentEdges (hs : Valid s) (ids : List String) :
    ∃ es, Store.incidentEdges s ids = .ok es ∧ es.Nodup ∧
      ∀ e, e ∈ es ↔ (contents s).HoldsEdge e ∧ ∃ id ∈ ids, e.touches id = true := by
  obtain ⟨es, hes, hprops⟩ := hs.exists_incidentEdges_eq_ite ids
  rw [if_neg (by simp)] at hes
  exact ⟨es, hes, hprops⟩

theorem exists_datasetRoots (hs : Valid s) :
    ∃ ns, Store.datasetRoots s = .ok ns ∧ ns.Pairwise (fun m n => m.id < n.id) ∧
      ∀ n, n ∈ ns ↔ (contents s).read? n.id = some n ∧ n.isDataset = true := by
  obtain ⟨ns, hns, hprops⟩ := hs.exists_datasetRoots_eq_ite
  rw [if_neg (legible_of_readsAll s).not_datasetUnreadable] at hns
  exact ⟨ns, hns, hprops⟩

end

end Valid

/-! ## In the hands of a reader that reads everything -/

theorem Store.readNodes_follows {σ : Type} [ListedBackend σ] (s : σ) (ids : List String) :
    Fallible.Follows .unreadable (∃ id ∈ ids, NodeUnreadable s id) (Store.readNodes s ids)
      (Store.readNodes (⟨s⟩ : DeepReader σ) ids) := by
  apply Fallible.Follows.bind _ fun _ _ => .refl _
  refine (Backend.readAll_follows (σ := σ) StoredNode.properties _).imp ?_
  rintro ⟨n, hn, hnot⟩
  obtain ⟨id, hid, hn⟩ := List.mem_filterMap.1 hn
  exact ⟨id, hid, n, hn, hnot⟩

namespace Valid

variable {σ : Type} [LawfulBackend σ] {s : σ}

open LawfulBackend

theorem deepReader (hs : Valid s) : Valid (⟨s⟩ : DeepReader σ) := ⟨hs.sound, hs.wellFormed⟩

theorem incidentEdges_follows (hs : Valid s) (ids : List String) :
    Fallible.Follows .unreadable (∃ id ∈ ids, EdgeUnreadable s id) (Store.incidentEdges s ids)
      (Store.incidentEdges (⟨s⟩ : DeepReader σ) ids) := by
  apply Fallible.Follows.bind _ fun _ _ => .refl _
  refine (Backend.readAll_follows (σ := σ) StoredEdge.properties _).imp ?_
  rintro ⟨e, he, hnot⟩
  obtain ⟨he, id, hid, htouches⟩ := (mem_incidentAll hs.sound).1 he
  exact ⟨id, hid, e, he, htouches, hnot⟩

open Classical in
theorem datasetRoots_eq_ite (hs : Valid s) :
    Store.datasetRoots s = if DatasetUnreadable s then .error .unreadable
      else Store.datasetRoots (⟨s⟩ : DeepReader σ) := by
  obtain ⟨ns, hns, _⟩ := hs.exists_datasetRoots_eq_ite
  have hfollows : Fallible.Follows .unreadable True (Store.datasetRoots s)
      (Store.datasetRoots (⟨s⟩ : DeepReader σ)) :=
    ((Backend.readAll_follows (σ := σ) StoredNode.properties _).imp fun _ => trivial).bind
      fun _ _ => .refl _
  rw [hns]
  split
  · rfl
  · next hreadable =>
    rw [if_neg hreadable] at hns
    exact (hfollows.eq_of_ok hns).symm

end Valid

end DatasetGraph
