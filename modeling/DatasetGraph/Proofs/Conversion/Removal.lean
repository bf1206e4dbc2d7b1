import DatasetGraph.Proofs.Conversion.Labels
import DatasetGraph.Proofs.Store.Adjacency
import DatasetGraph.Proofs.Store.Cascade
import DatasetGraph.Proofs.Store.Legibility

/-!
# A document is taken back whole

A document goes into a store that knows none of its ids, and its dataset is deleted: the store is
as it was (`delete_takes_back`).

The deletion goes far enough, since every node of the graph but the root hangs off the root.  It
carries a label of a family; it is no dataset, unless an entry calls itself one; and edges of the
graph lead to it in at most three steps.  The deletion does not go too far either, since nothing
joins the graph to what was there before.
-/

namespace DatasetGraph

namespace Document

variable {d : Document}

/-! ## What is written -/

theorem isWritable_graph (d : Document) : d.graph.IsWritable where
  node := by
    intro n hn _ hempty
    obtain ⟨m, hm, _, hempty⟩ := (Graph.mem_labels_iff hn).1 hempty
    exact (node_mem_elements_iff.1 hm).empty_not_mem_labels hempty
  edge := by
    intro e he
    obtain ⟨_, r, _, _, rfl⟩ := mem_edges_graph_iff.1 he
    simp [Edge.plain, r.token_ne.symm]

theorem identifier?_ne {o : Option String} {id : String} (h : identifier? o = some id) :
    id ≠ "" := by
  simpa using (Option.filter_eq_some_iff.1 h).2

theorem identifier?_ne_some {o : Option String} {root id : String} (h : identifier? o = some root)
    (hid : id ≠ root) : identifier? o ≠ some id := by
  rw [h]
  exact fun heq => hid (Option.some.inj heq).symm

theorem Shows.id_ne {n : Node} (h : d.Shows n) : n.id ≠ "" := by
  cases h with
  | dataset h => exact identifier?_ne h
  | distribution h => exact identifier?_ne h.id_eq
  | recordSet h => exact identifier?_ne h.id_eq
  | field h => exact identifier?_ne h.id_eq
  | statistics h => exact identifier?_ne h.id_eq

/-- Every node has an id, so every node is written. -/
theorem storedIds_graph (d : Document) : d.graph.storedIds = d.graph.nodes.map Node.id := by
  have hall : d.graph.nodes.filter (fun n => n.id ≠ "") = d.graph.nodes := by
    rw [List.filter_eq_self]
    intro n hn
    obtain ⟨m, hm, hid⟩ := mem_ids_graph_iff.1 (List.mem_map_of_mem hn)
    simpa [hid] using hm.id_ne
  rw [Graph.storedIds, Graph.storedNodes, hall, List.map_map]
  rfl

end Document

/-! ## Walks from the root -/

/-- No path leads out of a new graph. -/
theorem Graph.IsNewTo.mem_of_path {g : Graph} {c : Contents} {settle : Json → Json}
    (hg : g.IsNewTo c) (hc : c.WellFormed) {pass : Node → Bool} {root id : String} {k : Nat}
    (h : (c.ingest settle g).Path pass root k id) (hroot : root ∈ g.storedIds) :
    id ∈ g.storedIds := by
  induction h with
  | start => exact hroot
  | step _ joined _ _ ih =>
    obtain ⟨k, hk, hends⟩ := joined
    rcases hends with ⟨rfl, rfl⟩ | ⟨rfl, rfl⟩
    · exact ((hg.ends hc hk).resolve_left fun h => h.1 ih).2
    · exact ((hg.ends hc hk).resolve_left fun h => h.2 ih).1

namespace Document

/-- An edge to a node of the graph is stored. -/
theorem Relates.joined {d : Document} {c : Contents} {settle : Json → Json}
    {source target : String} {r : Relationship} (h : d.Relates source r target)
    (htarget : target ∈ d.graph.nodes.map Node.id) :
    (c.ingest settle d.graph).Joined source target := by
  have hstored : ∀ {id}, id ∈ d.graph.nodes.map Node.id →
      ((c.ingest settle d.graph).node? id).isSome = true := by
    intro id hid
    rw [← storedIds_graph] at hid
    exact (Contents.isSome_node?_ingest d.graph id).2 (.inr hid)
  have hedge : Edge.plain source target r.token ∈ d.graph.edges :=
    mem_edges_graph_iff.2 ⟨source, r, target, h, rfl⟩
  refine ⟨⟨source, target, ⟨Identifier.escape r.token⟩⟩, ?_, .inl ⟨rfl, rfl⟩⟩
  refine (Contents.isSome_edge?_ingest d.graph _).2 (.inr ⟨?_, hstored h.source_mem, hstored htarget⟩)
  exact ⟨_, Graph.mem_storedEdges.2 ⟨_, hedge, List.mem_singleton_self _⟩, rfl⟩

section

variable {d : Document} {c : Contents} {settle : Json → Json} (hg : d.graph.IsNewTo c)
  (ht : (c.ingest settle d.graph).WellFormed)

include ht

/-- Whatever was stored before, an entity is there with its labels. -/
theorem Shows.exists_stored {m : Node} (h : d.Shows m) :
    ∃ n, (c.ingest settle d.graph).read? m.id = some n ∧
      ∀ l : Label, m.hasLabel l = true → n.hasLabel l = true := by
  obtain ⟨g, hg, hid⟩ := List.mem_map.1 h.id_mem
  have hstored : g.stored ∈ d.graph.storedNodes :=
    Graph.mem_storedNodes.2 ⟨g, hg, hid ▸ h.id_ne, rfl⟩
  have hcovers : (c.ingest settle d.graph).Covers d.graph := c.covers_ingest d.graph
  obtain ⟨hsome, hlabels⟩ := hcovers.node hstored
  rw [Node.id_stored, hid] at hsome hlabels
  obtain ⟨k, hk⟩ := Option.isSome_iff_exists.1 hsome
  obtain ⟨n, hn⟩ := (ht.node hk).exists_toNode
  refine ⟨n, Contents.read?_eq_some_iff.2 ⟨k, hk, hn⟩, ?_⟩
  intro l hl
  have hmem : l.token ∈ g.labels :=
    (Graph.mem_labels_iff hg).2 ⟨m, h.mem_elements, hid.symm, Node.hasLabel_iff.1 hl⟩
  have hkept : Identifier.ofLabel l ∈ k.labels := by
    have hkept := hlabels _ (Node.mem_labels_stored.2 hmem)
    rwa [Contents.labels, hk] at hkept
  exact ((ht.node hk).hasLabel_iff hn l.token_ne).2 hkept

theorem isRoot_root {root : String} (hroot : identifier? d.id = some root) :
    (c.ingest settle d.graph).isRoot root = true := by
  obtain ⟨n, hread, hkept⟩ := (Shows.dataset hroot).exists_stored ht
  refine Contents.isRoot_eq_true_iff.2 ⟨n, hread, hkept .dataset ?_⟩
  exact Node.hasLabel_iff.2 (TaggedKind.primary_mem_withTag? .dataset _)

include hg

/-- Under the id of an entity stand the labels of all entities of that id. -/
theorem Shows.exists_read {m : Node} (h : d.Shows m) :
    ∃ n, (c.ingest settle d.graph).read? m.id = some n ∧
      ∀ l : Label, n.hasLabel l = true ↔ ∃ m', d.Shows m' ∧ m'.id = m.id ∧ m'.hasLabel l = true := by
  have hid : m.id ∈ d.graph.storedIds := d.storedIds_graph ▸ h.id_mem
  obtain ⟨n, hread, _⟩ := h.exists_stored ht
  refine ⟨n, hread, fun l => ⟨?_, ?_⟩⟩
  · intro hl
    obtain ⟨k, hk, hn⟩ := Contents.read?_eq_some_iff.1 hread
    have hlabels : Identifier.ofLabel l ∈ (c.ingest settle d.graph).labels m.id := by
      rw [Contents.labels, hk]
      exact ((ht.node hk).hasLabel_iff hn l.token_ne).1 hl
    obtain ⟨g, hgraph, hgid, hl⟩ := (hg.mem_labels_iff hid).1 hlabels
    obtain ⟨m', hm', hmid, hl⟩ := (Graph.mem_labels_iff hgraph).1 hl
    exact ⟨m', node_mem_elements_iff.1 hm', hmid.trans hgid, Node.hasLabel_iff.2 hl⟩
  · rintro ⟨m', hm', hmid, hl⟩
    obtain ⟨n', hread', hkept⟩ := hm'.exists_stored ht
    rw [hmid, hread] at hread'
    cases hread'
    exact hkept l hl

end

/-! ## What hangs off the root -/

section

variable {d : Document} {c : Contents} {settle : Json → Json} {root : String}
  (hg : d.graph.IsNewTo c) (ht : (c.ingest settle d.graph).WellFormed)
  (hroot : identifier? d.id = some root) (htypes : Label.dataset.token ∉ d.types)

include hg ht hroot htypes

theorem Shows.passes {m n : Node} (h : d.Shows m)
    (hread : (c.ingest settle d.graph).read? m.id = some n) :
    (n.id = root || !n.isDataset) = true := by
  by_cases hid : m.id = root
  · simp [ht.read?_id hread, hid]
  obtain ⟨n', hread', hlabels⟩ := h.exists_read hg ht
  cases Option.some.inj (hread.symm.trans hread')
  have hdataset : n.isDataset = false := by
    rw [Bool.eq_false_iff]
    intro hdataset
    obtain ⟨m', hm', hmid, hdataset⟩ := (hlabels .dataset).1 hdataset
    have hne : identifier? d.id ≠ some m'.id := identifier?_ne_some hroot (hmid ▸ hid)
    rw [← Node.isDataset, hm'.isDataset_eq_false hne htypes] at hdataset
    cases hdataset
  simp [hdataset]

/-- A path goes on along an edge to a node of the graph. -/
theorem Relates.path_succ {k : Nat} {source : String} {r : Relationship} {m : Node}
    (h : d.Relates source r m.id) (hm : d.Shows m)
    (hpath : (c.ingest settle d.graph).Path (fun n => n.id = root || !n.isDataset) root k source) :
    (c.ingest settle d.graph).Path (fun n => n.id = root || !n.isDataset) root (k + 1) m.id := by
  obtain ⟨n, hread, _⟩ := hm.exists_read hg ht
  exact .step hpath (h.joined hm.id_mem) hread (hm.passes hg ht hroot htypes hread)

/-- Record sets are one step from the root, fields two and statistics three. -/
theorem Shows.within {m : Node} (h : d.Shows m) : (c.ingest settle d.graph).Within
    (fun n => n.id = root || !n.isDataset) root maxHops m.id := by
  have hdataset : ∀ {dataset}, identifier? d.id = some dataset → dataset = root :=
    fun h => Option.some.inj (h.symm.trans hroot)
  have hrecordSet : ∀ {dataset r id}, d.HasRecordSet dataset r id →
      (c.ingest settle d.graph).Path (fun n => n.id = root || !n.isDataset) root 1 id := by
    intro dataset r id h
    obtain rfl := hdataset h.dataset_eq
    exact (Relates.recordSet h).path_succ hg ht hroot htypes (.recordSet h) .start
  have hfield : ∀ {recordSet f id}, d.HasField recordSet f id →
      (c.ingest settle d.graph).Path (fun n => n.id = root || !n.isDataset) root 2 id := by
    intro recordSet f id h
    obtain ⟨_, _, hr, _⟩ := h.mem
    exact (Relates.field h).path_succ hg ht hroot htypes (.field h) (hrecordSet hr)
  cases h with
  | dataset h =>
    obtain rfl := hdataset h
    exact ⟨0, by decide, .start⟩
  | distribution h =>
    obtain rfl := hdataset h.dataset_eq
    exact ⟨1, by decide,
      (Relates.distribution h).path_succ hg ht hroot htypes (.distribution h) .start⟩
  | recordSet h => exact ⟨1, by decide, hrecordSet h⟩
  | field h => exact ⟨2, by decide, hfield h⟩
  | statistics h =>
    obtain ⟨_, _, hf, _⟩ := h.statistics_eq
    exact ⟨3, by decide,
      (Relates.statistics h).path_succ hg ht hroot htypes (.statistics h) (hfield hf)⟩

/-- A deletion of the root dooms the nodes of the graph and no other. -/
theorem doomed_iff (hc : c.WellFormed) {id : String} :
    (c.ingest settle d.graph).Doomed [root] id ↔ id ∈ d.graph.storedIds := by
  have hrootmem : root ∈ d.graph.storedIds := by
    rw [storedIds_graph]
    exact (Shows.dataset hroot).id_mem
  have htarget : (c.ingest settle d.graph).IsTarget [root] root :=
    ⟨isRoot_root ht hroot, .inr (List.mem_singleton_self root)⟩
  constructor
  · rintro (⟨_, hids⟩ | ⟨target, ⟨_, hids⟩, _, _, _, _, k, _, hpath⟩)
    · obtain rfl : id = root := by simpa using hids
      exact hrootmem
    · obtain rfl : target = root := by simpa using hids
      exact hg.mem_of_path hc hpath hrootmem
  · intro hid
    rw [storedIds_graph] at hid
    obtain ⟨m, hm, rfl⟩ := mem_ids_graph_iff.1 hid
    by_cases hne : m.id = root
    · rw [hne]
      exact .inl htarget
    have hne' : identifier? d.id ≠ some m.id := identifier?_ne_some hroot hne
    obtain ⟨n, hread, hlabels⟩ := hm.exists_read hg ht
    have hpass := hm.passes hg ht hroot htypes hread
    refine .inr ⟨root, htarget, n, hread, ?_, ?_, hm.within hg ht hroot htypes⟩
    · obtain ⟨f, l, hl, hhas⟩ := Node.isDependent_iff.1 (hm.isDependent hne')
      exact Node.isDependent_iff.2 ⟨f, l, hl, (hlabels l).2 ⟨m, hm, rfl, hhas⟩⟩
    · simpa [ht.read?_id hread, hne] using hpass

end

end Document

/-! ## Taking a document back -/

open ListedBackend (allNodes allEdges)

section

variable {σ : Type}

/-- What a store `u` holds after a graph went from `s` to `t` and its root was deleted again. -/
structure TakenBack [ListedBackend σ] (g : Graph) (root : String) (s t : σ) (status : DeleteStatus)
    (u : σ) : Prop where
  status_eq : status = ⟨g.nodes.length, [root]⟩
  /-- The nodes that are removed are those of the graph. -/
  removed_iff (id : String) : Backend.hasNode t id = true ∧ Backend.hasNode u id = false ↔
    id ∈ g.nodes.map Node.id
  nodes_perm : (allNodes u).Perm (allNodes s)
  edges_perm : (allEdges u).Perm (allEdges s)

variable [LawfulBackend σ] {s : σ}

open LawfulBackend

namespace Graph.IsNewTo

variable {g : Graph} {t u : σ}

/-- A deletion that dooms just a new graph takes it back. -/
theorem contents_eq_of_deletes (hg : g.IsNewTo (contents s)) (hs : Valid s) (ht : Valid t)
    (hu : Valid u) (hingested : contents t = (contents s).ingest (settle σ) g) {ids : List String}
    {status : DeleteStatus} (hdeletes : Deletes t ids status u)
    (hdoomed : ∀ id, (contents t).Doomed ids id ↔ id ∈ g.storedIds) : contents u = contents s := by
  apply Contents.ext
  · funext id
    apply Option.ext
    intro n
    rw [hdeletes.node?_eq_some_iff ht hu, hdoomed, hingested]
    exact hg.node?_eq_some_iff
  · funext k
    apply Option.ext
    intro p
    rw [hdeletes.edge?_eq_some_iff ht hu, hdoomed, hdoomed, hingested]
    exact hg.edge?_eq_some_iff hs.wellFormed

theorem removed_iff (hg : g.IsNewTo (contents s))
    (hingested : contents t = (contents s).ingest (settle σ) g) (hback : contents u = contents s)
    (id : String) :
    Backend.hasNode t id = true ∧ Backend.hasNode u id = false ↔ id ∈ g.storedIds := by
  have hstored : Backend.hasNode t id = true ↔
      Backend.hasNode s id = true ∨ id ∈ g.storedIds := by
    show ((contents t).node? id).isSome = true ↔ _
    rw [hingested, Contents.isSome_node?_ingest]
    rfl
  have hsame : Backend.hasNode u id = Backend.hasNode s id :=
    congrArg (fun c : Contents => (c.node? id).isSome) hback
  rw [hstored, hsame]
  constructor
  · rintro ⟨hold | hid, hnone⟩
    · rw [hold] at hnone
      cases hnone
    · exact hid
  · intro hid
    refine ⟨.inr hid, ?_⟩
    show ((contents s).node? id).isSome = false
    rw [hg.node?_eq_none hid]
    rfl

/-! ### What cannot be read -/

/-- A new graph with distinct ids is not merged into anything, so it can be taken in. -/
theorem not_ingestBlocked (hg : g.IsNewTo (contents s)) (hs : Valid s) (hwritable : g.IsWritable)
    (hnodup : g.storedIds.Nodup) (hedges : ∀ e ∈ g.storedEdges, Backend.legible σ e.properties = true) :
    ¬IngestBlocked s g := by
  rintro (⟨before, n, after, heq, ⟨p, hp, _⟩ | ⟨m, hm, hid, _⟩⟩ | hblocked)
  · obtain ⟨k, hk, _⟩ := Option.map_eq_some_iff.1 hp
    have hid : n.id ∈ g.storedIds := by
      rw [storedIds, heq]
      simp
    have hnone := hg.node?_eq_none hid
    rw [node?_contents, hk] at hnone
    cases hnone
  · rw [storedIds, heq, List.map_append, List.map_cons] at hnodup
    exact (List.nodup_append.1 hnodup).2.2 m.id (List.mem_map_of_mem hm) n.id (by simp) hid
  · refine not_blocked_of_legible (fun f hf p hp => ?_) (fun f hf => ?_) hblocked
    · -- A relationship of the graph was not there, since its source was not.
      obtain ⟨e, he, hfe⟩ := mem_storedEdges.1 (List.mem_filter.1 hf).1
      rw [edge?_eq (hs.putNodes hwritable.nodes.wellFormed).sound,
        hs.contents_putNodes hwritable.nodes.wellFormed, Contents.edge?_mergeNodes] at hp
      have hsource := hs.wellFormed.source_stored hp
      rw [show f.key.source = e.source from (Edge.ends_of_mem_stored hfe).1, hg.source he] at hsource
      cases hsource
    · exact hedges f (List.mem_filter.1 hf).1

section

variable (hg : g.IsNewTo (contents s)) (hs : Valid s) (hwritable : g.IsWritable)
  (hfree : ¬IngestBlocked s g)

include hg hs hwritable hfree

/-- A node of the graph cannot be read if the graph brings something to it that cannot. -/
theorem nodeUnreadable_iff {id : String} (hid : id ∈ g.storedIds) :
    NodeUnreadable (Backend.putGraph s g) id ↔
      ∃ n ∈ g.storedNodes, n.id = id ∧ Backend.legible σ n.properties = false := by
  have hold : ¬NodeUnreadable s id := by
    rintro ⟨m, hm, _⟩
    cases (hg.node?_eq_none hid).symm.trans hm
  rw [Backend.putGraph,
    (hs.putNodes hwritable.nodes.wellFormed).nodeUnreadable_putEdges_iff hwritable.edges.wellFormed,
    hs.nodeUnreadable_putNodes_iff hwritable.nodes.wellFormed (not_or.1 hfree).1,
    or_iff_right hold]

/-- No relationship at a node of the graph is unreadable, if the graph brings none that is. -/
theorem not_edgeUnreadable (hedges : ∀ e ∈ g.storedEdges, Backend.legible σ e.properties = true)
    {id : String} (hid : id ∈ g.storedIds) : ¬EdgeUnreadable (Backend.putGraph s g) id := by
  rw [Backend.putGraph, (hs.putNodes hwritable.nodes.wellFormed).edgeUnreadable_putEdges_iff
    hwritable.edges.wellFormed (not_or.1 hfree).2,
    hs.edgeUnreadable_putNodes_iff hwritable.nodes.wellFormed, hs.edgeUnreadable_iff]
  rintro (⟨k, p, hp, hends, _⟩ | ⟨e, he, _, _, hbad⟩)
  · -- It was there before, and so were its ends.
    rcases hends with rfl | rfl
    · exact hg.not_mem_storedIds (hs.wellFormed.source_stored hp) hid
    · exact hg.not_mem_storedIds (hs.wellFormed.target_stored hp) hid
  · rw [hedges e he] at hbad
    cases hbad

end

end Graph.IsNewTo

namespace Document

variable {d : Document} {root : String}

/-- The edges of a document say nothing that could not be read. -/
theorem legible_storedEdges (d : Document) :
    ∀ e ∈ d.graph.storedEdges, Backend.legible σ e.properties = true := by
  intro f hf
  obtain ⟨e, he, hf⟩ := Graph.mem_storedEdges.1 hf
  obtain ⟨_, _, _, _, rfl⟩ := mem_edges_graph_iff.1 he
  obtain ⟨_, _, rfl⟩ := List.mem_map.1 hf
  exact legible_empty σ

variable (σ) in
/-- What the graph of a document brings can be read if what it says of its nodes can. -/
theorem isLegible_graph_iff (d : Document) : d.graph.IsLegible σ ↔
    ∀ n ∈ d.graph.storedNodes, Backend.legible σ n.properties = true := by
  constructor
  · exact fun h => h.storedNodes
  · intro h
    constructor
    · intro n hn
      obtain ⟨m, hm, hid⟩ := mem_ids_graph_iff.1 (List.mem_map_of_mem hn)
      exact h n.stored (Graph.mem_storedNodes.2 ⟨n, hn, hid ▸ hm.id_ne, rfl⟩)
    · intro e he
      obtain ⟨_, _, _, _, rfl⟩ := mem_edges_graph_iff.1 he
      exact legible_empty σ

theorem not_ingestBlocked (hs : Valid s) (hnew : d.graph.IsNewTo (contents s)) :
    ¬IngestBlocked s d.graph := by
  refine hnew.not_ingestBlocked hs d.isWritable_graph ?_ d.legible_storedEdges
  rw [storedIds_graph]
  exact Graph.nodup_map_id_nodes d.elements

/-- A deletion of the root comes to nothing but nodes of the graph. -/
theorem exists_unreadable_of_deletionUnreadable (hs : Valid s)
    (hnew : d.graph.IsNewTo (contents s)) (hroot : identifier? d.id = some root)
    (h : DeletionUnreadable (Backend.putGraph s d.graph) [root]) :
    ∃ id ∈ d.graph.storedIds, NodeUnreadable (Backend.putGraph s d.graph) id := by
  have hfree := not_ingestBlocked hs hnew
  have hcontents := hs.contents_putGraph d.isWritable_graph
  have hrootmem : root ∈ d.graph.storedIds := by
    rw [storedIds_graph]
    exact (Shows.dataset hroot).id_mem
  rcases h with (⟨hempty, _⟩ | ⟨id, hid, hunreadable⟩) | ⟨target, htarget, hwalk⟩
  · cases hempty
  · obtain rfl := List.mem_singleton.1 hid
    exact ⟨id, hrootmem, hunreadable⟩
  · obtain rfl : target = root := by simpa using htarget.2
    rcases hwalk with hunreadable | ⟨k, _, id, hpath, hsurroundings⟩
    · exact ⟨target, hrootmem, hunreadable⟩
    rw [hcontents] at hpath
    have hid := hnew.mem_of_path hs.wellFormed hpath hrootmem
    rcases hsurroundings with hedge | ⟨b, hjoined, hunreadable⟩
    · exact absurd hedge
        (hnew.not_edgeUnreadable hs d.isWritable_graph hfree d.legible_storedEdges hid)
    · refine ⟨b, ?_, hunreadable⟩
      rw [hcontents] at hjoined
      obtain ⟨e, he, ⟨rfl, rfl⟩ | ⟨rfl, rfl⟩⟩ := hjoined
      · exact ((hnew.ends hs.wellFormed he).resolve_left fun h => h.1 hid).2
      · exact ((hnew.ends hs.wellFormed he).resolve_left fun h => h.2 hid).1

/-- A deletion of the root comes to every node of the graph. -/
theorem deletionUnreadable_of_nodeUnreadable (hs : Valid s)
    (hnew : d.graph.IsNewTo (contents s)) (hroot : identifier? d.id = some root)
    (htypes : Label.dataset.token ∉ d.types) {id : String} (hid : id ∈ d.graph.storedIds)
    (h : NodeUnreadable (Backend.putGraph s d.graph) id) :
    DeletionUnreadable (Backend.putGraph s d.graph) [root] := by
  have hcontents := hs.contents_putGraph d.isWritable_graph
  have htw := (hs.putGraph d.isWritable_graph).wellFormed
  rw [hcontents] at htw
  rw [storedIds_graph] at hid
  obtain ⟨m, hm, rfl⟩ := mem_ids_graph_iff.1 hid
  obtain ⟨j, hj, hreturning⟩ := hm.within hnew htw hroot htypes
  obtain ⟨k, hk, hpath⟩ := htw.within_of_returning hreturning
  rw [← hcontents] at hpath
  cases k with
  | zero =>
    rw [Contents.path_zero_iff] at hpath
    exact .inl (.inr ⟨root, List.mem_singleton_self root, hpath ▸ h⟩)
  | succ k =>
    obtain ⟨a, _, ha, hjoined, _⟩ := Contents.path_succ_iff.1 hpath
    refine .inr ⟨root, ⟨?_, .inr (List.mem_singleton_self root)⟩,
      .inr ⟨k, by omega, a, ha, .inr ⟨m.id, hjoined, h⟩⟩⟩
    rw [hcontents]
    exact isRoot_root htw hroot

/-- So it fails exactly if one of them cannot be read. -/
theorem deletionUnreadable_iff (hs : Valid s) (hnew : d.graph.IsNewTo (contents s))
    (hroot : identifier? d.id = some root) (htypes : Label.dataset.token ∉ d.types) :
    DeletionUnreadable (Backend.putGraph s d.graph) [root] ↔ ¬d.graph.IsLegible σ := by
  have hnode {id : String} (hid : id ∈ d.graph.storedIds) :=
    hnew.nodeUnreadable_iff hs d.isWritable_graph (not_ingestBlocked hs hnew) hid
  rw [isLegible_graph_iff]
  constructor
  · intro h hall
    obtain ⟨id, hid, hunreadable⟩ := exists_unreadable_of_deletionUnreadable hs hnew hroot h
    obtain ⟨n, hn, _, hnot⟩ := (hnode hid).1 hunreadable
    rw [hall n hn] at hnot
    cases hnot
  · intro hnot
    obtain ⟨n, hn, hbad⟩ : ∃ n ∈ d.graph.storedNodes, Backend.legible σ n.properties = false := by
      simpa using hnot
    have hid : n.id ∈ d.graph.storedIds := List.mem_map_of_mem hn
    exact deletionUnreadable_of_nodeUnreadable hs hnew hroot htypes hid
      ((hnode hid).2 ⟨n, hn, rfl, hbad⟩)

end Document

/-- A document of which nothing is stored can be taken in.  If all it says can be read, a deletion of
its dataset takes it back: the nodes of its graph go and the store is as it was.  If not, the deletion
fails. -/
theorem delete_takes_back (h : Reachable s) {d : Document} {root : String}
    (hroot : identifier? d.id = some root) (htypes : "Dataset" ∉ d.types)
    (hnew : d.graph.IsNewTo (contents s)) :
    ∃ counts t, Store.ingest s d.graph = (.ok counts, t) ∧
      (d.graph.IsLegible σ → ∃ status u, Store.cascadeDelete t [root] = .ok (status, u) ∧
        TakenBack d.graph root s t status u) ∧
      (¬d.graph.IsLegible σ → Store.cascadeDelete t [root] = .error .unreadable) := by
  have hs := h.valid
  obtain ⟨counts, hingest⟩ := hs.ingest_eq_ok d.isWritable_graph (Document.not_ingestBlocked hs hnew)
  have ht := hs.putGraph d.isWritable_graph
  have hingested := hs.contents_putGraph d.isWritable_graph
  have hunreadable := Document.deletionUnreadable_iff hs hnew hroot htypes
  refine ⟨counts, _, hingest, fun hlegible => ?_, fun hnot =>
    ht.cascadeDelete_of_unreadable (hunreadable.2 hnot)⟩
  have hfree : ¬DeletionUnreadable (Backend.putGraph s d.graph) [root] :=
    fun hblocked => hunreadable.1 hblocked hlegible
  obtain ⟨status, u, hdelete, hdeletes⟩ := ht.exists_cascadeDelete hfree
  have hu : Valid u := ht.cascadeDelete hdelete
  have htw := ht.wellFormed
  rw [hingested] at htw
  have hdoomed : ∀ id, (contents (Backend.putGraph s d.graph)).Doomed [root] id ↔
      id ∈ d.graph.storedIds := by
    intro id
    rw [hingested]
    exact Document.doomed_iff hnew htw hroot htypes hs.wellFormed
  have hback := hnew.contents_eq_of_deletes hs ht hu hingested hdeletes hdoomed
  refine ⟨status, u, hdelete, ?_⟩
  constructor
  case status_eq =>
    obtain ⟨doomed, hmem, hcount⟩ := hdeletes.deleted_eq
    have heq : doomed = (d.graph.nodes.map Node.id).toFinset := by
      ext id
      rw [hmem, hdoomed, Document.storedIds_graph, List.mem_toFinset]
    have hnodup : (d.graph.nodes.map Node.id).Nodup := Graph.nodup_map_id_nodes d.elements
    rw [heq, List.toFinset_card_of_nodup hnodup, List.length_map] at hcount
    have hroots := hdeletes.roots_eq (List.cons_ne_nil root [])
    rw [hingested, List.filter_cons_of_pos (Document.isRoot_root htw hroot),
      List.filter_nil] at hroots
    cases status
    exact congrArg₂ DeleteStatus.mk hcount hroots
  case removed_iff =>
    intro id
    rw [hnew.removed_iff hingested hback, Document.storedIds_graph]
  case nodes_perm => exact (perm_of_contents_eq hs.sound hu.sound hback).1
  case edges_perm => exact (perm_of_contents_eq hs.sound hu.sound hback).2

/-- A document whose file comes twice and lies in an archive that is not described. -/
def Document.survey : Document where
  id := some "d"
  type := some "sc:Dataset"
  distributions :=
    [⟨some "csv", some "cr:FileObject", some "text/csv", some (.one ⟨some "zip"⟩), .empty⟩,
      ⟨some "csv", none, some "text/plain", none, KeyMap.empty.insert "name" (.str "again")⟩,
      ⟨none, none, some "text/csv", none, .empty⟩]
  recordSets :=
    [⟨some "rs", none,
      [⟨some "col", some "cr:Field", some ⟨some ⟨some "csv"⟩, none, none⟩,
        some ⟨some "stats", none, KeyMap.empty.insert "mean" (.str "3")⟩, .empty⟩], .empty⟩]
  metadata := KeyMap.empty.insert "name" (.str "Survey")

/-- The document goes in beside another dataset, and out again. -/
theorem delete_takes_back_survey :
    (∃ counts t, Store.ingest (sharing ["x"] : AdjacencyStore) Document.survey.graph =
        (.ok counts, t) ∧ ∃ status u, Store.cascadeDelete t ["d"] = .ok (status, u) ∧
      TakenBack Document.survey.graph "d" (sharing ["x"] : AdjacencyStore) t status u) ∧
    ∃ counts t, Store.ingest (sharing ["x"] : TableStore) Document.survey.graph =
        (.ok counts, t) ∧ ∃ status u, Store.cascadeDelete t ["d"] = .ok (status, u) ∧
      TakenBack Document.survey.graph "d" (sharing ["x"] : TableStore) t status u := by
  have hedges : ∀ {e}, e ∈ Document.survey.graph.edges →
      (e.source ∈ ["d", "csv", "zip", "rs", "col", "stats"] ∧
        e.target ∈ ["d", "csv", "zip", "rs", "col", "stats"]) := by
    rw [Document.edges_graph]
    decide +kernel
  have hnodes : ∀ {n}, n ∈ Document.survey.graph.nodes →
      n.id ∈ ["d", "csv", "zip", "rs", "col", "stats"] := by decide +kernel
  have hmemory : ∀ id ∈ ["d", "csv", "zip", "rs", "col", "stats"],
      Backend.node? (sharing ["x"] : AdjacencyStore) id = none := by decide +kernel
  have htables : ∀ id ∈ ["d", "csv", "zip", "rs", "col", "stats"],
      Backend.node? (sharing ["x"] : TableStore) id = none := by decide +kernel
  have hroot : identifier? Document.survey.id = some "d" := by decide +kernel
  have hlegible : Document.survey.graph.IsLegible TableStore :=
    (Document.isLegible_graph_iff TableStore _).2 (by decide +kernel)
  constructor
  · obtain ⟨counts, t, hingest, htaken, _⟩ := delete_takes_back
      (reachable_sharing (σ := AdjacencyStore) ["x"]) hroot (by decide +kernel)
      ⟨fun hn => hmemory _ (hnodes hn), fun he => hmemory _ (hedges he).1,
        fun he => hmemory _ (hedges he).2⟩
    refine ⟨counts, t, hingest, htaken ?_⟩
    exact (Document.isLegible_graph_iff AdjacencyStore _).2 fun _ _ => rfl
  · obtain ⟨counts, t, hingest, htaken, _⟩ := delete_takes_back
      (reachable_sharing (σ := TableStore) ["x"]) hroot (by decide +kernel)
      ⟨fun hn => htables _ (hnodes hn), fun he => htables _ (hedges he).1,
        fun he => htables _ (hedges he).2⟩
    exact ⟨counts, t, hingest, htaken hlegible⟩

end

end DatasetGraph
