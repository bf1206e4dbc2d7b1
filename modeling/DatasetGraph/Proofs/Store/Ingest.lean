import DatasetGraph.Proofs.Store.Blocking

/-!
# What an ingest leaves

A graph is *writable* if no label in it is empty, except on nodes without an id, which are passed
over.  Writable graphs have a stored form that is found without fail, and an ingest merges it into
what is there: first every node, then every relationship both ends of which are stored by then
(`Valid.exists_ingest`).  Only where it would be merged into what cannot be read does the ingest fail
(`IngestBlocked`).

What an ingest does not mention stays as it was.  A node keeps the labels that it had and gets the
new ones behind them, in the order in which they come (`labels_mergeNodes`).  All that is kept of a
graph is there afterwards, whatever was there before (`covers_ingest`).

Of a graph nothing of which is stored, no relationship joins old and new nodes, and what is there
besides the graph is what was there before (`Graph.IsNewTo`).
-/

namespace DatasetGraph

/-! ## The stored form -/

theorem Identifier.ofToken_of_ne {t : String} (h : t ≠ "") : ofToken t = .ok ⟨escape t⟩ := by
  rw [ofToken, if_neg h]

/-- The stored form of a node without an empty label. -/
def Node.stored (n : Node) : StoredNode :=
  ⟨n.id, distinct (n.labels.map fun t => ⟨Identifier.escape t⟩), n.properties.encode⟩

/-- The relationships of an edge without an empty label. -/
def Edge.stored (e : Edge) : List StoredEdge :=
  e.labels.map fun t => ⟨e.source, e.target, ⟨Identifier.escape t⟩, e.properties.encode⟩

@[simp] theorem Node.id_stored (n : Node) : n.stored.id = n.id := rfl

theorem Node.toStored_eq {n : Node} (h : "" ∉ n.labels) : n.toStored = .ok n.stored := by
  have hlabels : n.labels.mapM Identifier.ofToken =
      .ok (n.labels.map fun t => ⟨Identifier.escape t⟩) := by
    apply Fallible.mapM_eq_ok_map
    intro t ht
    exact Identifier.ofToken_of_ne (ne_of_mem_of_not_mem ht h)
  rw [toStored, hlabels]
  rfl

theorem Edge.toStored_eq {e : Edge} (h : "" ∉ e.labels) : e.toStored = .ok e.stored := by
  apply Fallible.mapM_eq_ok_map
  intro t ht
  rw [Identifier.ofToken_of_ne (ne_of_mem_of_not_mem ht h)]
  rfl

/-- A node is stored with a label exactly if it carries it. -/
theorem Node.mem_labels_stored {n : Node} {t : String} :
    (⟨Identifier.escape t⟩ : Identifier) ∈ n.stored.labels ↔ t ∈ n.labels := by
  rw [stored, mem_distinct, List.mem_map]
  constructor
  · rintro ⟨u, hu, heq⟩
    rwa [← Identifier.escape_injective (congrArg Identifier.text heq)]
  · exact fun ht => ⟨t, ht, rfl⟩

theorem Edge.ends_of_mem_stored {e : Edge} {f : StoredEdge} (h : f ∈ e.stored) :
    f.source = e.source ∧ f.target = e.target := by
  obtain ⟨t, _, rfl⟩ := List.mem_map.1 h
  exact ⟨rfl, rfl⟩

namespace Graph

/-- No node that is written has an empty label. -/
def WritableNodes (g : Graph) : Prop := ∀ n ∈ g.nodes, n.id ≠ "" → "" ∉ n.labels

/-- No edge has an empty label. -/
def WritableEdges (g : Graph) : Prop := ∀ e ∈ g.edges, "" ∉ e.labels

instance (g : Graph) : Decidable g.WritableNodes :=
  inferInstanceAs (Decidable (∀ n ∈ g.nodes, n.id ≠ "" → "" ∉ n.labels))

instance (g : Graph) : Decidable g.WritableEdges :=
  inferInstanceAs (Decidable (∀ e ∈ g.edges, "" ∉ e.labels))

/-- Nothing that is written has an empty label. -/
structure IsWritable (g : Graph) : Prop where
  node {n : Node} : n ∈ g.nodes → n.id ≠ "" → "" ∉ n.labels
  edge {e : Edge} : e ∈ g.edges → "" ∉ e.labels

/-- The nodes that are written. -/
def storedNodes (g : Graph) : List StoredNode := (g.nodes.filter fun n => n.id ≠ "").map Node.stored

/-- The ids under which nodes are written. -/
def storedIds (g : Graph) : List String := g.storedNodes.map StoredNode.id

/-- The relationships that are written if their ends are stored. -/
def storedEdges (g : Graph) : List StoredEdge := g.edges.flatMap Edge.stored

variable {g : Graph}

theorem mem_storedNodes {m : StoredNode} :
    m ∈ g.storedNodes ↔ ∃ n ∈ g.nodes, n.id ≠ "" ∧ n.stored = m := by
  simp [storedNodes, and_assoc]

theorem mem_storedEdges {f : StoredEdge} : f ∈ g.storedEdges ↔ ∃ e ∈ g.edges, f ∈ e.stored := by
  simp [storedEdges]

theorem length_storedEdges (g : Graph) :
    g.storedEdges.length = (g.edges.map fun e => e.labels.length).sum := by
  rw [storedEdges, List.length_flatMap]
  simp [Edge.stored]

theorem not_writableNodes_iff :
    ¬g.WritableNodes ↔ ∃ n ∈ g.nodes, n.id ≠ "" ∧ "" ∈ n.labels := by
  simp [WritableNodes]

theorem not_writableEdges_iff : ¬g.WritableEdges ↔ ∃ e ∈ g.edges, "" ∈ e.labels := by
  simp [WritableEdges]

theorem IsWritable.nodes (hg : g.IsWritable) : g.WritableNodes := fun _ hn => hg.node hn

theorem IsWritable.edges (hg : g.IsWritable) : g.WritableEdges := fun _ he => hg.edge he

theorem WritableNodes.isWritable (hnodes : g.WritableNodes) (hedges : g.WritableEdges) :
    g.IsWritable :=
  ⟨fun hn => hnodes _ hn, fun he => hedges _ he⟩

theorem WritableNodes.mapM_eq (hg : g.WritableNodes) :
    (g.nodes.filter fun n => n.id ≠ "").mapM Node.toStored = .ok g.storedNodes := by
  apply Fallible.mapM_eq_ok_map
  intro n hn
  obtain ⟨hn, hid⟩ := List.mem_filter.1 hn
  exact Node.toStored_eq (hg n hn (by simpa using hid))

theorem WritableEdges.mapM_eq (hg : g.WritableEdges) :
    g.edges.mapM Edge.toStored = .ok (g.edges.map Edge.stored) :=
  Fallible.mapM_eq_ok_map fun e he => Edge.toStored_eq (hg e he)

theorem WritableNodes.wellFormed (hg : g.WritableNodes) : ∀ n ∈ g.storedNodes, n.WellFormed :=
  wellFormed_of_mapM_nodes hg.mapM_eq

theorem WritableEdges.wellFormed (hg : g.WritableEdges) : ∀ e ∈ g.storedEdges, e.WellFormed := by
  rw [storedEdges, List.flatMap_def]
  exact wellFormed_of_mapM_edges hg.mapM_eq

end Graph

/-! ## Merging into contents -/

namespace Contents

section

variable (settle : Json → Json) (c : Contents)

/-- Merge nodes one after the other. -/
def mergeNodes (ns : List StoredNode) : Contents := ns.foldl (mergeNode settle) c

/-- Whether both ends of a relationship are stored. -/
def joins (e : StoredEdge) : Bool := (c.node? e.source).isSome && (c.node? e.target).isSome

/-- Merge the relationships between stored nodes, one after the other. -/
def mergeEdges (es : List StoredEdge) : Contents := (es.filter c.joins).foldl (mergeEdge settle) c

/-- Merge relationships one after the other, whatever they join. -/
def layEdges (es : List StoredEdge) : Contents := es.foldl (mergeEdge settle) c

/-- Merge a graph. -/
def ingest (g : Graph) : Contents :=
  (c.mergeNodes settle g.storedNodes).mergeEdges settle g.storedEdges

/-- The labels that are stored with an id. -/
def labels (id : String) : List Identifier :=
  match c.node? id with
  | some n => n.labels
  | none => []

end

variable {settle : Json → Json} {c : Contents}

theorem labels_mergeNode (n : StoredNode) (id : String) : (c.mergeNode settle n).labels id =
    if id = n.id then addNew (c.labels id) n.labels else c.labels id := by
  rw [labels, labels, node?_mergeNode]
  by_cases hid : id = n.id
  · rw [if_pos hid, if_pos hid]
    cases c.node? id <;> rfl
  · rw [if_neg hid, if_neg hid]

/-- New labels are put behind the old ones. -/
theorem labels_mergeNodes (ns : List StoredNode) (id : String) :
    (c.mergeNodes settle ns).labels id =
      addNew (c.labels id) ((ns.filter fun n => n.id = id).flatMap StoredNode.labels) := by
  induction ns generalizing c with
  | nil => rfl
  | cons n ns ih =>
    show ((c.mergeNode settle n).mergeNodes settle ns).labels id = _
    rw [ih, labels_mergeNode]
    by_cases hid : id = n.id
    · subst hid
      rw [if_pos rfl, List.filter_cons_of_pos (by simp), List.flatMap_cons, addNew_append]
    · rw [if_neg hid, List.filter_cons_of_neg (by simpa using Ne.symm hid)]

theorem isSome_node?_mergeNodes (ns : List StoredNode) (id : String) :
    ((c.mergeNodes settle ns).node? id).isSome = true ↔
      (c.node? id).isSome = true ∨ id ∈ ns.map StoredNode.id := by
  induction ns generalizing c with
  | nil => simp [mergeNodes]
  | cons n ns ih =>
    show (((c.mergeNode settle n).mergeNodes settle ns).node? id).isSome = true ↔ _
    rw [ih, node?_mergeNode, List.map_cons, List.mem_cons]
    by_cases hid : id = n.id <;> simp [hid]

/-- A node that is not mentioned stays as it was. -/
theorem node?_mergeNodes_of_not_mem {ns : List StoredNode} {id : String}
    (h : id ∉ ns.map StoredNode.id) : (c.mergeNodes settle ns).node? id = c.node? id := by
  induction ns generalizing c with
  | nil => rfl
  | cons n ns ih =>
    rw [List.map_cons, List.mem_cons, not_or] at h
    show ((c.mergeNode settle n).mergeNodes settle ns).node? id = _
    rw [ih h.2, node?_mergeNode, if_neg h.1]

theorem edge?_mergeNodes (ns : List StoredNode) :
    (c.mergeNodes settle ns).edge? = c.edge? := by
  induction ns generalizing c with
  | nil => rfl
  | cons n ns ih => exact ih

theorem node?_layEdges (es : List StoredEdge) : (c.layEdges settle es).node? = c.node? := by
  apply List.foldlRecOn es (mergeEdge settle) (motive := fun d => d.node? = c.node?) rfl
  exact fun d hd e _ => hd

theorem node?_mergeEdges (es : List StoredEdge) : (c.mergeEdges settle es).node? = c.node? :=
  node?_layEdges (es.filter c.joins)

theorem isSome_edge?_layEdges (es : List StoredEdge) (k : RelationKey) :
    ((c.layEdges settle es).edge? k).isSome = true ↔
      (c.edge? k).isSome = true ∨ ∃ e ∈ es, e.key = k := by
  induction es generalizing c with
  | nil => simp [layEdges]
  | cons e es ih =>
    show (((c.mergeEdge settle e).layEdges settle es).edge? k).isSome = true ↔ _
    rw [ih, edge?_mergeEdge]
    by_cases hk : k = e.key
    · simp [hk]
    · simp [hk, Ne.symm hk]

theorem isSome_edge?_mergeEdges (es : List StoredEdge) (k : RelationKey) :
    ((c.mergeEdges settle es).edge? k).isSome = true ↔
      (c.edge? k).isSome = true ∨ ∃ e ∈ es, c.joins e = true ∧ e.key = k := by
  show ((c.layEdges settle (es.filter c.joins)).edge? k).isSome = true ↔ _
  rw [isSome_edge?_layEdges]
  simp [and_assoc]

/-- A relationship that is not mentioned stays as it was. -/
theorem edge?_mergeEdges_of_not_mem {es : List StoredEdge} {k : RelationKey}
    (h : ∀ e ∈ es, c.joins e = true → e.key ≠ k) :
    (c.mergeEdges settle es).edge? k = c.edge? k := by
  apply List.foldlRecOn (es.filter c.joins) (mergeEdge settle)
    (motive := fun d => d.edge? k = c.edge? k) rfl
  intro d hd e he
  obtain ⟨he, hjoins⟩ := List.mem_filter.1 he
  rw [edge?_mergeEdge, if_neg (Ne.symm (h e he hjoins)), hd]

theorem isSome_node?_ingest (g : Graph) (id : String) :
    ((c.ingest settle g).node? id).isSome = true ↔
      (c.node? id).isSome = true ∨ id ∈ g.storedIds := by
  rw [ingest, node?_mergeEdges, isSome_node?_mergeNodes]
  rfl

theorem node?_ingest_of_not_mem {g : Graph} {id : String} (h : id ∉ g.storedIds) :
    (c.ingest settle g).node? id = c.node? id := by
  rw [ingest, node?_mergeEdges, node?_mergeNodes_of_not_mem h]

/-- A relationship is there after an ingest exactly if it was, or is one of the graph and its ends
are there. -/
theorem isSome_edge?_ingest (g : Graph) (k : RelationKey) :
    ((c.ingest settle g).edge? k).isSome = true ↔ (c.edge? k).isSome = true ∨
      (∃ e ∈ g.storedEdges, e.key = k) ∧
        ((c.ingest settle g).node? k.source).isSome = true ∧
        ((c.ingest settle g).node? k.target).isSome = true := by
  rw [ingest, isSome_edge?_mergeEdges, edge?_mergeNodes, node?_mergeEdges]
  refine or_congr_right ⟨?_, ?_⟩
  · rintro ⟨e, he, hjoins, rfl⟩
    exact ⟨⟨e, he, rfl⟩, Bool.and_eq_true_iff.1 hjoins⟩
  · rintro ⟨⟨e, he, rfl⟩, hends⟩
    exact ⟨e, he, Bool.and_eq_true_iff.2 hends, rfl⟩

theorem edge?_ingest_of_not_mem {g : Graph} {k : RelationKey}
    (h : ∀ e ∈ g.storedEdges, e.key = k → (c.ingest settle g).node? k.source = none) :
    (c.ingest settle g).edge? k = c.edge? k := by
  rw [ingest, edge?_mergeEdges_of_not_mem, edge?_mergeNodes]
  rintro e he hjoins rfl
  have hnone := h e he rfl
  rw [ingest, node?_mergeEdges] at hnone
  rw [joins, show e.source = e.key.source from rfl, hnone] at hjoins
  cases hjoins

/-- All that is kept of a graph is there, whatever the values. -/
structure Covers (c : Contents) (g : Graph) : Prop where
  node {n : StoredNode} : n ∈ g.storedNodes →
    (c.node? n.id).isSome = true ∧ ∀ l ∈ n.labels, l ∈ c.labels n.id
  edge {e : StoredEdge} : e ∈ g.storedEdges → c.joins e = true → (c.edge? e.key).isSome = true

/-- An ingest covers its graph. -/
theorem covers_ingest (c : Contents) (g : Graph) : (c.ingest settle g).Covers g where
  node := by
    intro n hn
    constructor
    · rw [isSome_node?_ingest]
      exact .inr (List.mem_map_of_mem hn)
    · intro l hl
      rw [labels, ingest, node?_mergeEdges, ← labels, labels_mergeNodes, mem_addNew,
        List.mem_flatMap]
      exact .inr ⟨n, List.mem_filter.2 ⟨hn, decide_eq_true rfl⟩, hl⟩
  edge := by
    intro e he hjoins
    rw [isSome_edge?_ingest]
    exact .inr ⟨⟨e, he, rfl⟩, Bool.and_eq_true_iff.1 hjoins⟩

end Contents

/-! ## New graphs -/

namespace Graph

/-- No node and no end of an edge is stored. -/
structure IsNewTo (g : Graph) (c : Contents) : Prop where
  node {n : Node} : n ∈ g.nodes → c.node? n.id = none
  source {e : Edge} : e ∈ g.edges → c.node? e.source = none
  target {e : Edge} : e ∈ g.edges → c.node? e.target = none

variable {g : Graph} {c : Contents} {settle : Json → Json}

namespace IsNewTo

theorem node?_eq_none (hg : g.IsNewTo c) {id : String} (h : id ∈ g.storedIds) :
    c.node? id = none := by
  obtain ⟨m, hm, rfl⟩ := List.mem_map.1 h
  obtain ⟨n, hn, _, rfl⟩ := mem_storedNodes.1 hm
  exact hg.node hn

theorem not_mem_storedIds (hg : g.IsNewTo c) {id : String} (h : (c.node? id).isSome = true) :
    id ∉ g.storedIds := by
  intro hid
  rw [hg.node?_eq_none hid] at h
  cases h

/-- The nodes that are there besides those of the graph are those that were there. -/
theorem node?_eq_some_iff (hg : g.IsNewTo c) {id : String} {n : StoredNode} :
    (c.ingest settle g).node? id = some n ∧ id ∉ g.storedIds ↔ c.node? id = some n := by
  constructor
  · rintro ⟨hn, hid⟩
    rwa [Contents.node?_ingest_of_not_mem hid] at hn
  · intro hn
    have hid := hg.not_mem_storedIds (Option.isSome_iff_exists.2 ⟨n, hn⟩)
    exact ⟨by rwa [Contents.node?_ingest_of_not_mem hid], hid⟩

/-- A relationship was there and touches no node of the graph, or it joins two nodes of it. -/
theorem ends (hg : g.IsNewTo c) (hc : c.WellFormed) {k : RelationKey}
    (h : ((c.ingest settle g).edge? k).isSome = true) :
    (k.source ∉ g.storedIds ∧ k.target ∉ g.storedIds) ∨
      (k.source ∈ g.storedIds ∧ k.target ∈ g.storedIds) := by
  have hnew : ∀ {id}, c.node? id = none → ((c.ingest settle g).node? id).isSome = true →
      id ∈ g.storedIds := by
    intro id hnone hsome
    rw [Contents.isSome_node?_ingest, hnone] at hsome
    exact hsome.resolve_left (by decide)
  rcases (Contents.isSome_edge?_ingest g k).1 h with h | ⟨⟨f, hf, rfl⟩, source, target⟩
  · obtain ⟨p, hp⟩ := Option.isSome_iff_exists.1 h
    exact .inl ⟨hg.not_mem_storedIds (hc.source_stored hp),
      hg.not_mem_storedIds (hc.target_stored hp)⟩
  · obtain ⟨e, he, hf⟩ := mem_storedEdges.1 hf
    obtain ⟨hsource, htarget⟩ := Edge.ends_of_mem_stored hf
    refine .inr ⟨hnew ?_ source, hnew ?_ target⟩
    · exact (congrArg c.node? hsource).trans (hg.source he)
    · exact (congrArg c.node? htarget).trans (hg.target he)

/-- The relationships that touch no node of the graph are those that were there. -/
theorem edge?_eq_some_iff (hg : g.IsNewTo c) (hc : c.WellFormed) {k : RelationKey}
    {p : Properties} : (c.ingest settle g).edge? k = some p ∧
      k.source ∉ g.storedIds ∧ k.target ∉ g.storedIds ↔ c.edge? k = some p := by
  have hsame : k.source ∉ g.storedIds → (c.ingest settle g).edge? k = c.edge? k := by
    intro hsource
    apply Contents.edge?_ingest_of_not_mem
    rintro f hf rfl
    obtain ⟨e, he, hf⟩ := mem_storedEdges.1 hf
    rw [Contents.node?_ingest_of_not_mem hsource]
    exact (congrArg c.node? (Edge.ends_of_mem_stored hf).1).trans (hg.source he)
  constructor
  · rintro ⟨hp, hsource, _⟩
    rwa [hsame hsource] at hp
  · intro hp
    have hsource := hg.not_mem_storedIds (hc.source_stored hp)
    exact ⟨by rwa [hsame hsource], hsource, hg.not_mem_storedIds (hc.target_stored hp)⟩

/-- Under an id of the graph stand the labels of its nodes of that id. -/
theorem mem_labels_iff (hg : g.IsNewTo c) {id : String} (hid : id ∈ g.storedIds) {t : String} :
    (⟨Identifier.escape t⟩ : Identifier) ∈ (c.ingest settle g).labels id ↔
      ∃ n ∈ g.nodes, n.id = id ∧ t ∈ n.labels := by
  have hne : id ≠ "" := by
    obtain ⟨m, hm, rfl⟩ := List.mem_map.1 hid
    obtain ⟨n, _, hne, rfl⟩ := mem_storedNodes.1 hm
    exact hne
  have hlabels : (c.ingest settle g).labels id =
      (c.mergeNodes settle g.storedNodes).labels id := by
    rw [Contents.labels, Contents.ingest, Contents.node?_mergeEdges, Contents.labels]
  have hnone : c.labels id = [] := by
    rw [Contents.labels, hg.node?_eq_none hid]
  rw [hlabels, Contents.labels_mergeNodes, hnone, mem_addNew, List.mem_flatMap]
  constructor
  · rintro (h | ⟨m, hm, ht⟩)
    · cases h
    · obtain ⟨hm, hmid⟩ := List.mem_filter.1 hm
      obtain ⟨n, hn, _, rfl⟩ := mem_storedNodes.1 hm
      exact ⟨n, hn, of_decide_eq_true hmid, Node.mem_labels_stored.1 ht⟩
  · rintro ⟨n, hn, rfl, ht⟩
    refine .inr ⟨n.stored, List.mem_filter.2 ⟨mem_storedNodes.2 ⟨n, hn, hne, rfl⟩, by simp⟩, ?_⟩
    exact Node.mem_labels_stored.2 ht

end IsNewTo

end Graph

/-! ## Ingests -/

section

variable {σ : Type} [Backend σ]

/-- The store with the nodes of a graph and then its relationships laid over it. -/
def Backend.putGraph (s : σ) (g : Graph) : σ :=
  (Backend.putEdges (Backend.putNodes s g.storedNodes).2 g.storedEdges).2

/-- An ingest of the graph merges something into what cannot be read. -/
def IngestBlocked (s : σ) (g : Graph) : Prop :=
  NodesBlocked s g.storedNodes ∨ EdgesBlocked (Backend.putNodes s g.storedNodes).2 g.storedEdges

@[simp] theorem not_ingestBlocked [Backend.ReadsAll σ] (s : σ) (g : Graph) :
    ¬IngestBlocked s g :=
  fun h => h.elim not_blocked not_blocked

end

section

variable {σ : Type} [LawfulBackend σ] {s : σ}

open LawfulBackend

namespace Valid

theorem contents_putNodes (hs : Valid s) {ns : List StoredNode} (hns : ∀ n ∈ ns, n.WellFormed) :
    contents (Backend.putNodes s ns).2 = (contents s).mergeNodes (settle σ) ns := by
  show contents (ns.foldl Backend.mergeNode s) = _
  induction ns generalizing s with
  | nil => rfl
  | cons n ns ih =>
    obtain ⟨hn, hns⟩ := List.forall_mem_cons.1 hns
    rw [List.foldl_cons, ih (hs.mergeNode hn) hns,
      LawfulBackend.contents_mergeNode hs.sound hn.nodup_labels]
    rfl

/-- Of relationships, those between stored nodes are merged and the others are passed over. -/
theorem putEdges_eq (hs : Valid s) {es : List StoredEdge} (hes : ∀ e ∈ es, e.WellFormed) :
    Backend.putEdges s es =
      (⟨(es.filter (contents s).joins).length, (es.filter fun e => !(contents s).joins e).length⟩,
        (es.filter (contents s).joins).foldl Backend.mergeEdge s) := by
  -- Relationships leave the nodes as they are, so what joins stored nodes is known from the start.
  have go : ∀ (es : List StoredEdge) (count : WriteCount) (t : σ), Valid t →
      (contents t).node? = (contents s).node? → (∀ e ∈ es, e.WellFormed) →
      es.foldl Backend.putEdge (count, t) =
        (⟨count.written + (es.filter (contents s).joins).length,
          count.skipped + (es.filter fun e => !(contents s).joins e).length⟩,
          (es.filter (contents s).joins).foldl Backend.mergeEdge t) := by
    intro es
    induction es with
    | nil => intros; rfl
    | cons e es ih =>
      intro count t ht hnodes hes
      obtain ⟨he, hes⟩ := List.forall_mem_cons.1 hes
      have hjoins : (Backend.hasNode t e.source && Backend.hasNode t e.target) =
          (contents s).joins e := by
        rw [Contents.joins, ← hnodes]
        rfl
      rw [List.foldl_cons, Backend.putEdge, hjoins, List.filter_cons, List.filter_cons]
      cases h : (contents s).joins e with
      | true =>
        rw [← hjoins, Bool.and_eq_true_iff] at h
        obtain ⟨source, target⟩ := h
        have hmerge := LawfulBackend.contents_mergeEdge ht.sound source target
        rw [if_pos rfl, ih _ _ (ht.mergeEdge he source target) (by rw [hmerge]; exact hnodes) hes]
        simp [Nat.add_assoc, Nat.add_comm 1]
      | false =>
        rw [if_neg Bool.false_ne_true, ih _ t ht hnodes hes]
        simp [Nat.add_assoc, Nat.add_comm 1]
  rw [Backend.putEdges, go es {} s hs rfl hes]
  simp

theorem contents_foldl_mergeEdge (hs : Valid s) {es : List StoredEdge}
    (hes : ∀ e ∈ es, e.WellFormed) (hjoins : ∀ e ∈ es, (contents s).joins e = true) :
    contents (es.foldl Backend.mergeEdge s) = (contents s).layEdges (settle σ) es := by
  induction es generalizing s with
  | nil => rfl
  | cons e es ih =>
    obtain ⟨he, hes⟩ := List.forall_mem_cons.1 hes
    obtain ⟨hends, hjoins⟩ := List.forall_mem_cons.1 hjoins
    obtain ⟨source, target⟩ := Bool.and_eq_true_iff.1 hends
    have hmerge := LawfulBackend.contents_mergeEdge hs.sound source target
    rw [List.foldl_cons, ih (hs.mergeEdge he source target) hes (by rw [hmerge]; exact hjoins),
      hmerge]
    rfl

theorem contents_putEdges (hs : Valid s) {es : List StoredEdge} (hes : ∀ e ∈ es, e.WellFormed) :
    contents (Backend.putEdges s es).2 = (contents s).mergeEdges (settle σ) es := by
  rw [hs.putEdges_eq hes]
  apply hs.contents_foldl_mergeEdge
  · exact fun e he => hes e (List.mem_filter.1 he).1
  · exact fun e he => (List.mem_filter.1 he).2

/-! ### What blocks them -/

/-- What blocks nodes is decided by the nodes that are stored. -/
theorem nodesBlocked_congr {t : σ} (h : (contents s).node? = (contents t).node?)
    (ns : List StoredNode) : NodesBlocked s ns ↔ NodesBlocked t ns := by
  have hnode : Backend.node? s = Backend.node? t := h
  rw [NodesBlocked, NodesBlocked, hnode]

/-- What blocks relationships is decided by what they join and by those that are stored. -/
theorem edgesBlocked_congr {t : σ} (hs : Valid s) (ht : Valid t) {es : List StoredEdge}
    (hjoins : ∀ e ∈ es, (contents s).joins e = (contents t).joins e)
    (hedge : (contents s).edge? = (contents t).edge?) : EdgesBlocked s es ↔ EdgesBlocked t es := by
  have hkept : Backend.edge? s = Backend.edge? t := by
    funext k
    rw [LawfulBackend.edge?_eq hs.sound, LawfulBackend.edge?_eq ht.sound, hedge]
  have hfilter : es.filter (endsStored s) = es.filter (endsStored t) := List.filter_congr hjoins
  rw [EdgesBlocked, EdgesBlocked, hkept, hfilter]

/-- Nodes that were merged are blocked when they are merged again exactly if some of what they bring
cannot be read. -/
theorem nodesBlocked_again_iff (hs : Valid s) {ns : List StoredNode}
    (hns : ∀ n ∈ ns, n.WellFormed) (hfree : ¬NodesBlocked s ns) :
    NodesBlocked (Backend.putNodes s ns).2 ns ↔
      ∃ n ∈ ns, Backend.legible σ n.properties = false := by
  have hagain := (keyedWrites_nodes σ).blocked_again_iff hs hns
  rw [List.filter_true] at hagain
  refine hagain hfree fun n hn => ?_
  have hstored : ((contents (Backend.putNodes s ns).2).node? n.id).isSome = true := by
    rw [hs.contents_putNodes hns, Contents.isSome_node?_mergeNodes]
    exact .inr (List.mem_map_of_mem hn)
  obtain ⟨m, hm⟩ := Option.isSome_iff_exists.1 hstored
  exact ⟨m.properties, congrArg (Option.map StoredNode.properties) hm⟩

/-- So it is with relationships. -/
theorem edgesBlocked_again_iff (hs : Valid s) {es : List StoredEdge}
    (hes : ∀ e ∈ es, e.WellFormed) (hfree : ¬EdgesBlocked s es) :
    EdgesBlocked (Backend.putEdges s es).2 es ↔
      ∃ e ∈ es.filter (contents s).joins, Backend.legible σ e.properties = false := by
  have hagain := (keyedWrites_edges σ).blocked_again_iff (b := (({} : WriteCount), s)) hs hes hfree
  have hends : endsStored (Backend.putEdges s es).2 = endsStored s :=
    ((keyedWrites_edges σ).foldl_keeps (b := (({} : WriteCount), s)) hs hes).2
  rw [EdgesBlocked, hends]
  refine hagain fun e he => ?_
  obtain ⟨he, hjoins⟩ := List.mem_filter.1 he
  have hstored : ((contents (Backend.putEdges s es).2).edge? e.key).isSome = true := by
    rw [hs.contents_putEdges hes, Contents.isSome_edge?_mergeEdges]
    exact .inr ⟨e, he, hjoins, rfl⟩
  obtain ⟨p, hp⟩ := Option.isSome_iff_exists.1 hstored
  exact ⟨p, (edge?_eq (hs.putEdges hes).sound e.key).trans hp⟩

/-! ### What cannot be read then -/

/-- A store cannot read a node if it could not before, or if what was brought to it cannot be read. -/
theorem nodeUnreadable_putNodes_iff (hs : Valid s) {ns : List StoredNode}
    (hns : ∀ n ∈ ns, n.WellFormed) (hfree : ¬NodesBlocked s ns) {id : String} :
    NodeUnreadable (Backend.putNodes s ns).2 id ↔
      NodeUnreadable s id ∨ ∃ n ∈ ns, n.id = id ∧ Backend.legible σ n.properties = false := by
  have hstored : (Backend.node? (Backend.putNodes s ns).2 id).isSome = true ↔
      (Backend.node? s id).isSome = true ∨ id ∈ ns.map StoredNode.id := by
    rw [← node?_contents, ← node?_contents, hs.contents_putNodes hns]
    exact Contents.isSome_node?_mergeNodes ns id
  constructor
  · rintro ⟨m, hm, hnot⟩
    exact (hs.illegible_putNodes_iff hns hfree hm).1 hnot
  · intro h
    have hsome : (Backend.node? (Backend.putNodes s ns).2 id).isSome = true := by
      rw [hstored]
      rcases h with ⟨k, hk, _⟩ | ⟨n, hn, rfl, _⟩
      · exact .inl (Option.isSome_iff_exists.2 ⟨k, hk⟩)
      · exact .inr (List.mem_map_of_mem hn)
    obtain ⟨m, hm⟩ := Option.isSome_iff_exists.1 hsome
    exact ⟨m, hm, (hs.illegible_putNodes_iff hns hfree hm).2 h⟩

theorem edgeUnreadable_iff (hs : Valid s) {id : String} : EdgeUnreadable s id ↔
    ∃ k p, (contents s).edge? k = some p ∧ (k.source = id ∨ k.target = id) ∧
      Backend.legible σ p = false := by
  constructor
  · rintro ⟨e, he, htouches, hnot⟩
    exact ⟨e.key, e.properties, (mem_allEdges_iff hs.sound).1 he, StoredEdge.touches_iff.1 htouches,
      hnot⟩
  · rintro ⟨k, p, hp, hends, hnot⟩
    exact ⟨k.withProperties p, (edge?_contents_eq_some_iff hs.sound).1 hp,
      StoredEdge.touches_iff.2 hends, hnot⟩

/-- Nodes leave the relationships as they can be read. -/
theorem edgeUnreadable_putNodes_iff (hs : Valid s) {ns : List StoredNode}
    (hns : ∀ n ∈ ns, n.WellFormed) {id : String} :
    EdgeUnreadable (Backend.putNodes s ns).2 id ↔ EdgeUnreadable s id := by
  rw [(hs.putNodes hns).edgeUnreadable_iff, hs.edgeUnreadable_iff, hs.contents_putNodes hns,
    Contents.edge?_mergeNodes]

/-- Relationships leave the nodes as they can be read. -/
theorem nodeUnreadable_putEdges_iff (hs : Valid s) {es : List StoredEdge}
    (hes : ∀ e ∈ es, e.WellFormed) {id : String} :
    NodeUnreadable (Backend.putEdges s es).2 id ↔ NodeUnreadable s id := by
  have hnodes : Backend.node? (Backend.putEdges s es).2 = Backend.node? s := by
    have hcontents := congrArg Contents.node? (hs.contents_putEdges hes)
    rw [Contents.node?_mergeEdges] at hcontents
    exact hcontents
  rw [NodeUnreadable, hnodes, NodeUnreadable]

/-- A store cannot read a relationship at a node if it could not before, or if what was brought to one
there cannot be read. -/
theorem edgeUnreadable_putEdges_iff (hs : Valid s) {es : List StoredEdge}
    (hes : ∀ e ∈ es, e.WellFormed) (hfree : ¬EdgesBlocked s es) {id : String} :
    EdgeUnreadable (Backend.putEdges s es).2 id ↔ EdgeUnreadable s id ∨
      ∃ e ∈ es, (contents s).joins e = true ∧ (e.source = id ∨ e.target = id) ∧
        Backend.legible σ e.properties = false := by
  have hput := (hs.putEdges hes).sound
  have hstored (k : RelationKey) : ((contents (Backend.putEdges s es).2).edge? k).isSome = true ↔
      ((contents s).edge? k).isSome = true ∨ ∃ e ∈ es, (contents s).joins e = true ∧ e.key = k := by
    rw [hs.contents_putEdges hes, Contents.isSome_edge?_mergeEdges]
  have hiff {k : RelationKey} {p : Properties}
      (hp : (contents (Backend.putEdges s es).2).edge? k = some p) :=
    hs.illegible_putEdges_iff hes hfree ((edge?_eq hput k).trans hp)
  rw [(hs.putEdges hes).edgeUnreadable_iff, hs.edgeUnreadable_iff]
  constructor
  · rintro ⟨k, p, hp, hends, hnot⟩
    rcases (hiff hp).1 hnot with ⟨q, hq, hbad⟩ | ⟨e, he, rfl, hbad⟩
    · rw [edge?_eq hs.sound] at hq
      exact .inl ⟨k, q, hq, hends, hbad⟩
    · obtain ⟨he, hjoins⟩ := List.mem_filter.1 he
      exact .inr ⟨e, he, hjoins, hends, hbad⟩
  · rintro (⟨k, q, hq, hends, hbad⟩ | ⟨e, he, hjoins, hends, hbad⟩)
    · obtain ⟨p, hp⟩ := Option.isSome_iff_exists.1
        ((hstored k).2 (.inl (Option.isSome_iff_exists.2 ⟨q, hq⟩)))
      exact ⟨k, p, hp, hends, (hiff hp).2 (.inl ⟨q, (edge?_eq hs.sound k).trans hq, hbad⟩)⟩
    · obtain ⟨p, hp⟩ := Option.isSome_iff_exists.1 ((hstored e.key).2 (.inr ⟨e, he, hjoins, rfl⟩))
      exact ⟨e.key, p, hp, hends,
        (hiff hp).2 (.inr ⟨e, List.mem_filter.2 ⟨he, hjoins⟩, rfl, hbad⟩)⟩

/-! ### What they report -/

section

variable {g : Graph}

/-- The first pass of an ingest, and its counts. -/
theorem upsertNodes_eq (hs : Valid s) (hg : g.WritableNodes) (hfree : ¬NodesBlocked s g.storedNodes) :
    Store.upsertNodes s g = .ok (⟨g.storedNodes.length, (g.nodes.filter fun n => n.id = "").length⟩,
      (Backend.putNodes s g.storedNodes).2) := by
  rw [Store.upsertNodes, hg.mapM_eq]
  show (Backend.mergeNodes s g.storedNodes >>= _) = _
  rw [hs.mergeNodes_eq hg.wellFormed, if_neg hfree]
  show Except.ok (WriteCount.mk _ (0 + _), _) = _
  rw [Nat.zero_add]
  rfl

theorem upsertNodes_of_blocked (hs : Valid s) (hg : g.WritableNodes)
    (hblocked : NodesBlocked s g.storedNodes) :
    Store.upsertNodes s g = .error .unreadable := by
  rw [Store.upsertNodes, hg.mapM_eq]
  show (Backend.mergeNodes s g.storedNodes >>= _) = _
  rw [hs.mergeNodes_eq hg.wellFormed, if_pos hblocked]
  rfl

/-- The second pass of an ingest, and its counts. -/
theorem upsertEdges_eq (hs : Valid s) (hg : g.WritableEdges) (hfree : ¬EdgesBlocked s g.storedEdges) :
    Store.upsertEdges s g = .ok (⟨(Backend.putEdges s g.storedEdges).1.written,
      (Backend.putEdges s g.storedEdges).1.skipped +
        (g.edges.filter fun e => e.labels.isEmpty).length⟩,
      (Backend.putEdges s g.storedEdges).2) := by
  rw [Store.upsertEdges, hg.mapM_eq]
  show (Backend.mergeEdges s (g.edges.map Edge.stored).flatten >>= _) = _
  rw [← List.flatMap_def, ← Graph.storedEdges, hs.mergeEdges_eq hg.wellFormed, if_neg hfree]
  rfl

theorem upsertEdges_of_blocked (hs : Valid s) (hg : g.WritableEdges)
    (hblocked : EdgesBlocked s g.storedEdges) :
    Store.upsertEdges s g = .error .unreadable := by
  rw [Store.upsertEdges, hg.mapM_eq]
  show (Backend.mergeEdges s (g.edges.map Edge.stored).flatten >>= _) = _
  rw [← List.flatMap_def, ← Graph.storedEdges, hs.mergeEdges_eq hg.wellFormed, if_pos hblocked]
  rfl

/-- A writable graph is taken in, unless that is blocked. -/
theorem ingest_eq_ok (hs : Valid s) (hg : g.IsWritable) (hfree : ¬IngestBlocked s g) :
    ∃ status, Store.ingest s g = (.ok status, Backend.putGraph s g) := by
  obtain ⟨hnodes, hedges⟩ := not_or.1 hfree
  rw [Store.ingest, hs.upsertNodes_eq hg.nodes hnodes]
  dsimp only
  rw [(hs.putNodes hg.nodes.wellFormed).upsertEdges_eq hg.edges hedges]
  exact ⟨_, rfl⟩

/-- When it is blocked, at most the nodes are written. -/
theorem ingest_of_blocked (hs : Valid s) (hg : g.IsWritable) (hblocked : IngestBlocked s g) :
    Store.ingest s g = (.error .unreadable, s) ∨
      Store.ingest s g = (.error .unreadable, (Backend.putNodes s g.storedNodes).2) := by
  by_cases hnodes : NodesBlocked s g.storedNodes
  · rw [Store.ingest, hs.upsertNodes_of_blocked hg.nodes hnodes]
    exact .inl rfl
  · rw [Store.ingest, hs.upsertNodes_eq hg.nodes hnodes]
    dsimp only
    rw [(hs.putNodes hg.nodes.wellFormed).upsertEdges_of_blocked hg.edges
      (hblocked.resolve_left hnodes)]
    exact .inr rfl

theorem putGraph (hs : Valid s) (hg : g.IsWritable) : Valid (Backend.putGraph s g) :=
  (hs.putNodes hg.nodes.wellFormed).putEdges hg.edges.wellFormed

theorem contents_putGraph (hs : Valid s) (hg : g.IsWritable) :
    contents (Backend.putGraph s g) = (contents s).ingest (settle σ) g := by
  rw [Backend.putGraph, (hs.putNodes hg.nodes.wellFormed).contents_putEdges hg.edges.wellFormed,
    hs.contents_putNodes hg.nodes.wellFormed]
  rfl

/-- A writable graph is taken in, unless that is blocked. -/
theorem exists_ingest (hs : Valid s) (hg : g.IsWritable) (hfree : ¬IngestBlocked s g) :
    ∃ status t, Store.ingest s g = (.ok status, t) ∧ Valid t ∧
      contents t = (contents s).ingest (settle σ) g := by
  obtain ⟨status, hstatus⟩ := hs.ingest_eq_ok hg hfree
  exact ⟨status, _, hstatus, hs.putGraph hg, hs.contents_putGraph hg⟩

end

end Valid

end

end DatasetGraph
