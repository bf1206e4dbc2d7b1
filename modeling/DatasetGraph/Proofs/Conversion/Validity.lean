import DatasetGraph.Proofs.Conversion.Types
import DatasetGraph.Proofs.Schema

/-!
# Converted documents and the schema

A converted document meets the schema but for what its entities say that they are: every node is of
some kind, since each entity brings all labels that its kind asks for, and the labels that are not
allowed are the types that are not (`hasUnknownLabel_graph_iff`).  So a lenient report is valid, and
a strict one is unless some entity says that it is something unknown (`validate_graph`).
-/

namespace DatasetGraph

/-- The report names the nodes of which an entity says that it is something unknown, and for nothing
else. -/
structure Report.NamesTypes (r : Report) (d : Document) : Prop where
  invalidNodes_eq : r.invalidNodes = []
  nodesWithoutLabels_eq : r.nodesWithoutLabels = []
  mem_unknownLabels_iff (f : Finding) : f ∈ r.unknownLabels ↔ ∃ n ∈ d.graph.nodes,
    f = .ofNode n ∧ ∃ type, d.Says n.id type ∧ type ≠ "" ∧ Label.isAllowed type = false

namespace Document

variable {d : Document} {n : Node}

/-- Every node is of a kind. -/
theorem exists_isSatisfiedBy (hn : n ∈ d.graph.nodes) :
    ∃ k : Kind, k.isSatisfiedBy n.labels = true := by
  obtain ⟨t, type, h⟩ := mem_ids_iff_emits.1 (List.mem_map_of_mem hn)
  refine ⟨t.kind, Kind.isSatisfiedBy_iff.2 ?_⟩
  intro l hl
  have hown : l.token ∈ t.labels := TaggedKind.mem_labels.2 (.inr ⟨l, hl, rfl⟩)
  exact (mem_labels_graph_iff hn).2 ⟨t, type, h, .inl hown⟩

theorem hasUnknownLabel_graph_iff (hn : n ∈ d.graph.nodes) : n.hasUnknownLabel = true ↔
    ∃ type, d.Says n.id type ∧ type ≠ "" ∧ Label.isAllowed type = false := by
  rw [Node.hasUnknownLabel_iff]
  constructor
  · rintro ⟨s, hs, hunknown⟩
    obtain ⟨t, type, h, hown | ⟨rfl, hne⟩⟩ := (mem_labels_graph_iff hn).1 hs
    · -- The labels of its own are registered.
      obtain ⟨l, rfl⟩ := h.exists_token hown
      rw [Label.isAllowed_token] at hunknown
      cases hunknown
    · exact ⟨s, ⟨t, h⟩, hne, hunknown⟩
  · rintro ⟨type, ⟨t, h⟩, hne, hunknown⟩
    exact ⟨type, (mem_labels_graph_iff hn).2 ⟨t, _, h, .inr ⟨rfl, hne⟩⟩, hunknown⟩

theorem namesTypes_validate (d : Document) (strict : Bool) :
    (d.graph.validate strict).NamesTypes d := by
  constructor
  case invalidNodes_eq =>
    rw [Graph.validate, List.map_eq_nil_iff, List.filter_eq_nil_iff]
    intro n hn
    obtain ⟨k, hk⟩ := exists_isSatisfiedBy hn
    rw [Node.isKindless_eq_false hk]
    decide
  case nodesWithoutLabels_eq =>
    rw [Graph.validate, List.map_eq_nil_iff, List.filter_eq_nil_iff]
    intro n hn
    obtain ⟨k, hk⟩ := exists_isSatisfiedBy hn
    rw [Node.isUnlabelled_eq_false hk]
    decide
  case mem_unknownLabels_iff =>
    intro f
    rw [Graph.validate, List.mem_map]
    constructor
    · rintro ⟨n, hn, rfl⟩
      obtain ⟨hn, hunknown⟩ := List.mem_filter.1 hn
      exact ⟨n, hn, rfl, (hasUnknownLabel_graph_iff hn).1 hunknown⟩
    · rintro ⟨n, hn, rfl, hsays⟩
      exact ⟨n, List.mem_filter.2 ⟨hn, (hasUnknownLabel_graph_iff hn).2 hsays⟩, rfl⟩

/-- A report on a converted document names nodes only for types that are not allowed; the lenient one
is valid, and the strict one is valid exactly if all types are allowed that are not empty. -/
theorem validate_graph (d : Document) :
    (∀ strict, (d.graph.validate strict).NamesTypes d) ∧
    (d.graph.validate false).isValid = true ∧
    ((d.graph.validate true).isValid = true ↔
      ∀ id type, d.Says id type → type ≠ "" → Label.isAllowed type = true) := by
  refine ⟨d.namesTypes_validate, ?_, ?_⟩
  · rw [Report.isValid_iff]
    exact ⟨(d.namesTypes_validate false).nodesWithoutLabels_eq, nofun⟩
  have hnames := d.namesTypes_validate true
  rw [Report.isValid_iff]
  constructor
  · rintro ⟨_, hfindings⟩ id type hsays hne
    obtain ⟨t, h⟩ := hsays
    obtain ⟨n, hn, rfl⟩ := List.mem_map.1 (mem_ids_iff_emits.2 ⟨t, _, h⟩)
    rw [← Bool.not_eq_false]
    intro hunknown
    have hmem := (hnames.mem_unknownLabels_iff (.ofNode n)).2
      ⟨n, hn, rfl, type, ⟨t, h⟩, hne, hunknown⟩
    rw [(hfindings rfl).2] at hmem
    cases hmem
  · intro hallowed
    refine ⟨hnames.nodesWithoutLabels_eq, fun _ => ⟨hnames.invalidNodes_eq, ?_⟩⟩
    rw [List.eq_nil_iff_forall_not_mem]
    intro f hf
    obtain ⟨n, _, _, type, hsays, hne, hunknown⟩ := (hnames.mem_unknownLabels_iff f).1 hf
    rw [hallowed n.id type hsays hne] at hunknown
    cases hunknown

end Document

end DatasetGraph
