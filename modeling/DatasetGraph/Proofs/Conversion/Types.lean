import DatasetGraph.Proofs.Conversion.Labels

/-!
# What entities say that they are

Each node of a converted document comes from entities that are emitted under its id.  An entity has
labels of its own, which follow from where it stands in the document, and it may say what it is; that
becomes one more label, whatever it is (`Document.Emits`).  The labels of its own are registered
ones, and only those of the root name a dataset.

So the datasets of the graph are the root and what says that it is a dataset, and the root is alone
exactly if nothing else says so (`graph_datasets`).
-/

namespace DatasetGraph

/-- The labels of a distribution but for what it says that it is. -/
def Distribution.untyped (x : Distribution) : TaggedKind :=
  ((TaggedKind.plain x.classification.kind).withTag Label.data.token).withTag
    x.classification.structural.token

theorem Distribution.kind_untyped (x : Distribution) : x.untyped.kind = x.classification.kind := by
  simp [untyped]

theorem Distribution.mem_tags_untyped {x : Distribution} {s : String} : s ∈ x.untyped.tags ↔
    s = Label.data.token ∨ s = x.classification.structural.token := by
  simp [untyped, Label.token_ne]

namespace Document

/-- An entity that a node comes from: its id, the labels of its own, and what it says that it is. -/
inductive Emits (d : Document) : String → TaggedKind → Option String → Prop
  | dataset {id : String} (h : identifier? d.id = some id) : Emits d id (.plain .dataset) d.type
  | distribution {dataset id : String} {x : Distribution} (h : d.HasDistribution dataset x id) :
    Emits d id x.untyped x.type
  | recordSet {dataset id : String} {r : RecordSet} (h : d.HasRecordSet dataset r id) :
    Emits d id (.plain .recordSet) r.type
  | field {recordSet id : String} {f : Field} (h : d.HasField recordSet f id) :
    Emits d id (.plain f.kind) f.type
  | statistics {field id : String} {s : Statistics} (h : d.HasStatistics field s id) :
    Emits d id (.plain .statistics) s.type

/-- Whether an entity with the id says that it is a `type`. -/
def Says (d : Document) (id type : String) : Prop := ∃ t, d.Emits id t (some type)

variable {d : Document} {n : Node} {id root : String} {t : TaggedKind} {type : Option String}

/-! ## Entities and nodes -/

theorem Shows.exists_emits (h : d.Shows n) :
    ∃ t type, d.Emits n.id t type ∧ n.labels = (t.withTag? type).labels := by
  cases h with
  | dataset h => exact ⟨_, _, .dataset h, rfl⟩
  | distribution h => exact ⟨_, _, .distribution h, rfl⟩
  | recordSet h => exact ⟨_, _, .recordSet h, rfl⟩
  | field h => exact ⟨_, _, .field h, rfl⟩
  | statistics h => exact ⟨_, _, .statistics h, rfl⟩

theorem Emits.exists_shows (h : d.Emits id t type) :
    ∃ n, d.Shows n ∧ n.id = id ∧ n.labels = (t.withTag? type).labels := by
  cases h with
  | dataset h => exact ⟨_, .dataset h, rfl, rfl⟩
  | distribution h => exact ⟨_, .distribution h, rfl, rfl⟩
  | recordSet h => exact ⟨_, .recordSet h, rfl, rfl⟩
  | field h => exact ⟨_, .field h, rfl, rfl⟩
  | statistics h => exact ⟨_, .statistics h, rfl, rfl⟩

theorem mem_ids_iff_emits :
    id ∈ d.graph.nodes.map Node.id ↔ ∃ t type, d.Emits id t type := by
  rw [mem_ids_graph_iff]
  constructor
  · rintro ⟨n, hn, rfl⟩
    obtain ⟨t, type, h, _⟩ := hn.exists_emits
    exact ⟨t, type, h⟩
  · rintro ⟨t, type, h⟩
    obtain ⟨n, hn, hid, _⟩ := h.exists_shows
    exact ⟨n, hn, hid⟩

/-- The labels of a node are those of the entities of its id, and what these say that they are. -/
theorem mem_labels_graph_iff (hn : n ∈ d.graph.nodes) {s : String} : s ∈ n.labels ↔
    ∃ t type, d.Emits n.id t type ∧ (s ∈ t.labels ∨ type = some s ∧ s ≠ "") := by
  have hadd : ∀ {t : TaggedKind} {type : Option String}, s ∈ (t.withTag? type).labels ↔
      s ∈ t.labels ∨ type = some s ∧ s ≠ "" := by
    intro t type
    simp only [TaggedKind.mem_labels, TaggedKind.mem_tags_withTag?, TaggedKind.kind_withTag?]
    exact or_right_comm
  rw [Graph.mem_labels_iff hn]
  simp only [node_mem_elements_iff]
  constructor
  · rintro ⟨m, hm, hid, hs⟩
    obtain ⟨t, type, h, hlabels⟩ := hm.exists_emits
    rw [hid] at h
    rw [hlabels] at hs
    exact ⟨t, type, h, hadd.1 hs⟩
  · rintro ⟨t, type, h, hs⟩
    obtain ⟨m, hm, hid, hlabels⟩ := h.exists_shows
    refine ⟨m, hm, hid, ?_⟩
    rw [hlabels]
    exact hadd.2 hs

/-! ## The labels of entities -/

theorem Emits.exists_token (h : d.Emits id t type) {s : String} (hs : s ∈ t.labels) :
    ∃ l : Label, l.token = s := by
  rcases TaggedKind.mem_labels.1 hs with htag | ⟨l, _, hl⟩
  · cases h with
    | @distribution _ _ x =>
      rcases Distribution.mem_tags_untyped.1 htag with rfl | rfl
      · exact ⟨_, rfl⟩
      · exact ⟨_, rfl⟩
    | _ => cases htag
  · exact ⟨l, hl⟩

/-- Only the root is a dataset by its own labels. -/
theorem Emits.eq_root (h : d.Emits id t type) (hs : Label.dataset.token ∈ t.labels) :
    identifier? d.id = some id := by
  -- A kind alone that is not that of the root does not bring the label.
  have hplain : ∀ {k : Kind}, k ≠ .dataset →
      Label.dataset.token ∉ (TaggedKind.plain k).labels := by
    intro k hk
    exact TaggedKind.dataset_not_mem_labels hk (by simp)
  cases h with
  | dataset h => exact h
  | @distribution _ _ x =>
    refine absurd hs (TaggedKind.dataset_not_mem_labels ?_ ?_)
    · rw [x.kind_untyped]
      exact x.classification_spec.2
    · rw [Distribution.mem_tags_untyped]
      rintro (heq | heq)
      · cases Label.token_injective heq
      · have hmem := x.classification_spec.1
        rw [← Label.token_injective heq] at hmem
        revert hmem
        decide
  | recordSet => exact absurd hs (hplain (by decide))
  | @field _ _ f =>
    refine absurd hs (hplain ?_)
    rw [Field.kind]
    split <;> decide
  | statistics => exact absurd hs (hplain (by decide))

theorem isDataset_graph_iff (hroot : identifier? d.id = some root) (hn : n ∈ d.graph.nodes) :
    n.isDataset = true ↔ n.id = root ∨ d.Says n.id Label.dataset.token := by
  rw [Node.isDataset, Node.hasLabel_iff, mem_labels_graph_iff hn]
  constructor
  · rintro ⟨t, type, h, hown | ⟨rfl, _⟩⟩
    · have heq := h.eq_root hown
      rw [hroot] at heq
      exact .inl (Option.some.inj heq).symm
    · exact .inr ⟨t, h⟩
  · rintro (hid | ⟨t, h⟩)
    · rw [hid]
      exact ⟨_, _, .dataset hroot, .inl (TaggedKind.primary_mem_labels _)⟩
    · exact ⟨t, _, h, .inr ⟨rfl, Label.token_ne _⟩⟩

/-! ## Datasets -/

/-- The datasets of the graph are the root and what says that it is a dataset, so the root is the
only one exactly if nothing else says that. -/
theorem graph_datasets (hroot : identifier? d.id = some root) :
    (∀ id, id ∈ (d.graph.nodes.filter Node.isDataset).map Node.id ↔
      id = root ∨ d.Says id "Dataset") ∧
    ((d.graph.nodes.filter Node.isDataset).map Node.id = [root] ↔
      ∀ id, d.Says id "Dataset" → id = root) := by
  have hmem : ∀ id, id ∈ (d.graph.nodes.filter Node.isDataset).map Node.id ↔
      id = root ∨ d.Says id "Dataset" := by
    intro id
    rw [List.mem_map]
    constructor
    · rintro ⟨n, hn, rfl⟩
      obtain ⟨hn, hdataset⟩ := List.mem_filter.1 hn
      exact (isDataset_graph_iff hroot hn).1 hdataset
    · intro h
      have hid : id ∈ d.graph.nodes.map Node.id := by
        rw [mem_ids_iff_emits]
        rcases h with rfl | ⟨t, h⟩
        · exact ⟨_, _, .dataset hroot⟩
        · exact ⟨t, _, h⟩
      obtain ⟨n, hn, rfl⟩ := List.mem_map.1 hid
      exact ⟨n, List.mem_filter.2 ⟨hn, (isDataset_graph_iff hroot hn).2 h⟩, rfl⟩
  have hnodup : ((d.graph.nodes.filter Node.isDataset).map Node.id).Nodup :=
    (Graph.nodup_map_id_nodes d.elements).sublist (List.filter_sublist.map Node.id)
  refine ⟨hmem, ?_⟩
  rw [← List.perm_singleton, List.perm_ext_iff_of_nodup hnodup (List.nodup_singleton root)]
  constructor
  · intro h id hsays
    exact List.mem_singleton.1 ((h id).1 ((hmem id).2 (.inr hsays)))
  · intro h id
    rw [hmem, List.mem_singleton]
    exact ⟨fun hid => hid.elim (fun heq => heq) (h id), .inl⟩

/-- A dataset with a file that says that it is a dataset. -/
def nested : Document where
  id := some "ds1"
  type := none
  distributions := [⟨some "d1", some "Dataset", some "text/csv", none, .empty⟩]
  recordSets := []
  metadata := .empty

theorem graph_datasets_nested : identifier? nested.id = some "ds1" ∧
    (∀ id, id ∈ (nested.graph.nodes.filter Node.isDataset).map Node.id ↔
      id = "ds1" ∨ nested.Says id "Dataset") ∧
    ((nested.graph.nodes.filter Node.isDataset).map Node.id = ["ds1"] ↔
      ∀ id, nested.Says id "Dataset" → id = "ds1") :=
  ⟨by decide, graph_datasets (by decide)⟩

/-- The file becomes a second dataset. -/
theorem datasets_nested :
    (nested.graph.nodes.filter Node.isDataset).map Node.id = ["ds1", "d1"] := by
  decide +kernel

end Document

end DatasetGraph
