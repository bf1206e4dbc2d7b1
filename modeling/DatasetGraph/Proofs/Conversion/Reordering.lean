import DatasetGraph.Proofs.Conversion.Exact
import DatasetGraph.Proofs.Graph.Canonical

/-!
# Documents in another order

The entries of a document can be listed in another order: its distributions and record sets, the
fields of a record set and the parents of a distribution (`Document.Reordered`).  Then the elements of
the conversion are the same in another order, and so are the issues.

Elements of pairwise distinct ids have nothing to be merged with, so the graph lists each of them, and
of edges that come more than once it does not matter which is kept: they are plain.  So the graph has
one canonical form whatever the order of the document (`conversion_ignores_order`).
-/

namespace DatasetGraph

open Json.Source (Correspond)

/-! ## Elements in another order -/

theorem distinct_perm {α : Type} [DecidableEq α] {xs ys : List α} (h : xs.Perm ys) :
    (distinct xs).Perm (distinct ys) := by
  apply (List.perm_ext_iff_of_nodup (nodup_distinct xs) (nodup_distinct ys)).2
  intro x
  rw [mem_distinct, mem_distinct, h.mem_iff]

namespace Graph

/-- Nodes of pairwise distinct ids are not merged. -/
theorem nodes_ofElements_of_nodup {xs : List Element} (h : (idsAmong xs).Nodup) :
    (ofElements xs).nodes = nodesAmong xs := by
  rw [nodes_ofElements]
  exact mergedBy_of_nodup h

theorem Reordered.of_perm {g h : Graph} (hnodes : g.nodes.Perm h.nodes)
    (hedges : g.edges.Perm h.edges) : g.Reordered h where
  nodes := ⟨h.nodes, hnodes, List.forall₂_same.2 fun _ _ => ⟨rfl, .refl _, rfl⟩⟩
  edges := ⟨h.edges, hedges, List.forall₂_same.2 fun _ _ => ⟨rfl, rfl, .refl _, rfl⟩⟩

/-- Nodes of pairwise distinct ids and plain edges give one canonical graph in whatever order they
come. -/
theorem canonical_ofElements {xs ys : List Element} (hperm : xs.Perm ys)
    (hids : (idsAmong xs).Nodup)
    (hplain : ∀ e, Element.edge e ∈ xs → ∃ source target label, e = .plain source target label) :
    (ofElements xs).canonical = (ofElements ys).canonical := by
  have hnodes : (nodesAmong xs).Perm (nodesAmong ys) := hperm.filterMap _
  have hedges : (edgesAmong xs).Perm (edgesAmong ys) := hperm.filterMap _
  have hids' : (idsAmong ys).Nodup := (hnodes.map Node.id).nodup_iff.1 hids
  have hplain' : ∀ e, Element.edge e ∈ ys → ∃ source target label, e = .plain source target label :=
    fun e he => hplain e (hperm.mem_iff.2 he)
  have hreordered : (ofElements xs).Reordered (ofElements ys) := by
    apply Reordered.of_perm
    · rwa [nodes_ofElements_of_nodup hids, nodes_ofElements_of_nodup hids']
    · rw [edges_ofElements hplain, edges_ofElements hplain']
      exact distinct_perm hedges
  rw [eq_iff, canonical_nodes_eq_iff (nodup_map_id_nodes xs), canonical_edges_eq_iff,
    ← reordered_iff]
  exact hreordered

end Graph

/-! ## Entries in another order -/

/-- The distributions differ in nothing but the order of their parents. -/
structure Distribution.Reordered (x y : Distribution) : Prop where
  id_eq : x.id = y.id
  type_eq : x.type = y.type
  encodingFormat_eq : x.encodingFormat = y.encodingFormat
  attributes_eq : x.attributes = y.attributes
  parents_perm : x.parents.Perm y.parents

/-- The record sets differ in nothing but the order of their fields. -/
structure RecordSet.Reordered (r s : RecordSet) : Prop where
  id_eq : r.id = s.id
  type_eq : r.type = s.type
  attributes_eq : r.attributes = s.attributes
  fields_perm : r.fields.Perm s.fields

/-- The documents differ in nothing but the order of their entries: of the distributions and the
parents of each, and of the record sets and the fields of each. -/
structure Document.Reordered (d e : Document) : Prop where
  id_eq : d.id = e.id
  type_eq : d.type = e.type
  metadata_eq : d.metadata = e.metadata
  distributions : Correspond Distribution.Reordered d.distributions e.distributions
  recordSets : Correspond RecordSet.Reordered d.recordSets e.recordSets

namespace Distribution.Reordered

variable {x y : Distribution}

theorem encoding?_eq (h : x.Reordered y) : x.encoding? = y.encoding? := by
  rw [encoding?, encoding?, h.encodingFormat_eq]

/-- What a distribution is depends on whether it has parents, and not on their order. -/
theorem classification_eq (h : x.Reordered y) : x.classification = y.classification := by
  have hcollection : x.isCollection = y.isCollection := by
    rw [isCollection, isCollection, h.type_eq, h.attributes_eq]
  rw [classification, classification, h.encoding?_eq, hcollection, h.parents_perm.isEmpty_eq]

theorem labels_eq (h : x.Reordered y) : x.labels = y.labels := by
  rw [labels, labels, h.classification_eq, h.type_eq]

theorem properties_eq (h : x.Reordered y) : x.properties = y.properties := by
  rw [properties, properties, h.encoding?_eq, h.type_eq, h.encodingFormat_eq, h.attributes_eq]

theorem elements_perm (h : x.Reordered y) (dataset : String) :
    (x.elements dataset).Perm (y.elements dataset) := by
  rw [elements, elements, h.id_eq]
  cases identifier? y.id with
  | none => exact .refl _
  | some id =>
    dsimp only
    rw [h.labels_eq, h.properties_eq]
    exact ((h.parents_perm.map _).cons _).cons _

theorem issues_eq (h : x.Reordered y) (dataset : String) : x.issues dataset = y.issues dataset := by
  rw [issues, issues, h.id_eq, h.encoding?_eq, h.encodingFormat_eq]

end Distribution.Reordered

namespace RecordSet.Reordered

variable {r s : RecordSet}

theorem properties_eq (h : r.Reordered s) : r.properties = s.properties := by
  rw [properties, properties, h.type_eq, h.attributes_eq]

theorem elements_perm (h : r.Reordered s) (dataset : String) :
    (r.elements dataset).Perm (s.elements dataset) := by
  rw [elements, elements, h.id_eq]
  cases identifier? s.id with
  | none => exact .refl _
  | some id =>
    dsimp only
    rw [h.type_eq, h.properties_eq]
    exact ((h.fields_perm.flatMap_right _).cons _).cons _

theorem issues_perm (h : r.Reordered s) (dataset : String) :
    (r.issues dataset).Perm (s.issues dataset) := by
  rw [issues, issues, h.id_eq]
  cases identifier? s.id with
  | none => exact .refl _
  | some id => exact h.fields_perm.flatMap_right _

end RecordSet.Reordered

namespace Document

variable {d e : Document}

namespace Reordered

theorem elements_perm (h : d.Reordered e) : d.elements.Perm e.elements := by
  have hproperties : d.properties = e.properties := by
    rw [properties, properties, h.type_eq, h.metadata_eq]
  rw [elements, elements, h.id_eq]
  cases identifier? e.id with
  | none => exact .refl _
  | some id =>
    dsimp only
    rw [h.type_eq, hproperties]
    apply List.Perm.cons
    exact (h.distributions.flatMap_perm fun _ _ hxy => hxy.elements_perm id).append
      (h.recordSets.flatMap_perm fun _ _ hrs => hrs.elements_perm id)

theorem issues_perm (h : d.Reordered e) : d.issues.Perm e.issues := by
  rw [issues, issues, h.id_eq]
  cases identifier? e.id with
  | none => exact .refl _
  | some id =>
    exact (h.distributions.flatMap_perm fun _ _ hxy => .of_eq (hxy.issues_eq id)).append
      (h.recordSets.flatMap_perm fun _ _ hrs => hrs.issues_perm id)

end Reordered

/-- Conversion does not depend on the order of the entries of a document whose entities have pairwise
distinct ids: the graphs have one canonical form, and the issues are the same up to order. -/
theorem conversion_ignores_order (hids : d.ids.Nodup) (h : d.Reordered e) :
    d.graph.canonical = e.graph.canonical ∧ d.issues.Perm e.issues := by
  refine ⟨?_, h.issues_perm⟩
  apply Graph.canonical_ofElements h.elements_perm
  · rwa [idsAmong_elements]
  · intro f hf
    obtain ⟨source, r, target, -, rfl⟩ := edge_mem_elements_iff.1 hf
    exact ⟨source, target, r.token, rfl⟩

/-! ### A document of files in archives -/

/-- A column of a file. -/
def columnOf (id file : String) : Field :=
  ⟨some id, none, some ⟨some ⟨some file⟩, none, none⟩, none, .empty⟩

/-- A file in two archives, one of which is described, and a distribution without an id. -/
def archive : Document where
  id := some "d"
  type := some "sc:Dataset"
  distributions :=
    [⟨some "csv", some "cr:FileObject", some "text/csv", some (.many [⟨some "zip"⟩, ⟨some "tar"⟩]),
        .empty⟩,
      ⟨none, none, some "text/csv", none, .empty⟩,
      ⟨some "zip", none, some "application/zip", none, .empty⟩]
  recordSets :=
    [⟨some "rs", none, [columnOf "x" "csv", columnOf "" "csv", columnOf "y" "csv"], .empty⟩,
      ⟨none, none, [], .empty⟩]
  metadata := .empty

/-- The same document in another order. -/
def archiveRelisted : Document where
  id := some "d"
  type := some "sc:Dataset"
  distributions :=
    [⟨some "zip", none, some "application/zip", none, .empty⟩,
      ⟨none, none, some "text/csv", none, .empty⟩,
      ⟨some "csv", some "cr:FileObject", some "text/csv", some (.many [⟨some "tar"⟩, ⟨some "zip"⟩]),
        .empty⟩]
  recordSets :=
    [⟨none, none, [], .empty⟩,
      ⟨some "rs", none, [columnOf "y" "csv", columnOf "" "csv", columnOf "x" "csv"], .empty⟩]
  metadata := .empty

theorem archive_reordered : archive.Reordered archiveRelisted where
  id_eq := rfl
  type_eq := rfl
  metadata_eq := rfl
  distributions := by
    refine ⟨archive.distributions.reverse, (List.reverse_perm _).symm,
      .cons ?_ (.cons ?_ (.cons ?_ .nil))⟩
    · exact ⟨rfl, rfl, rfl, rfl, .refl _⟩
    · exact ⟨rfl, rfl, rfl, rfl, .refl _⟩
    · exact ⟨rfl, rfl, rfl, rfl, by decide⟩
  recordSets := by
    refine ⟨archive.recordSets.reverse, (List.reverse_perm _).symm, .cons ?_ (.cons ?_ .nil)⟩
    · exact ⟨rfl, rfl, rfl, .refl _⟩
    · exact ⟨rfl, rfl, rfl, (List.reverse_perm _).symm⟩

/-- In another order the document gives another graph and other issues, but the canonical form of the
graph and the issues up to order are as before. -/
theorem conversion_ignores_order_of_archive :
    archive.ids.Nodup ∧ archive.Reordered archiveRelisted ∧
    archive.graph ≠ archiveRelisted.graph ∧ archive.issues ≠ archiveRelisted.issues ∧
    archive.graph.canonical = archiveRelisted.graph.canonical ∧
    archive.issues.Perm archiveRelisted.issues := by
  have hids : archive.ids.Nodup := by decide
  obtain ⟨hgraph, hissues⟩ := conversion_ignores_order hids archive_reordered
  exact ⟨hids, archive_reordered, by decide +kernel, by decide +kernel, hgraph, hissues⟩

end Document

end DatasetGraph
