import DatasetGraph.Proofs.Schema
import DatasetGraph.Proofs.Store.Cascade
import DatasetGraph.Proofs.Store.Failure

/-!
# Stores of nodes that meet the schema

If all that is read of a store meets the schema (`Contents.MeetsSchema`), it still does after a graph
is taken in whose nodes meet it, even if the edges of the graph are refused: what is read under an id
has the labels that were read before and those of the graph, and labels of nodes that meet the schema
may be put together.  Updates and deletions give no node other labels than it had.
-/

namespace DatasetGraph

namespace Contents

/-- Whatever is read meets the schema. -/
def MeetsSchema (c : Contents) : Prop := ∀ id n, c.read? id = some n → n.meetsSchema = true

variable {c d : Contents} {settle : Json → Json}

theorem meetsSchema_empty : Contents.empty.MeetsSchema := nofun

/-- What is read has the labels that are stored. -/
theorem WellFormed.mem_labels_of_read? (hc : c.WellFormed) {id : String} {n : Node}
    (h : c.read? id = some n) {t : String} :
    t ∈ n.labels ↔ t ≠ "" ∧ (⟨Identifier.escape t⟩ : Identifier) ∈ c.labels id := by
  obtain ⟨m, hm, hmn⟩ := read?_eq_some_iff.1 h
  rw [(hc.node hm).mem_labels_iff hmn, labels, hm]

/-- Contents without other labels meet the schema as well. -/
theorem MeetsSchema.of_labels (hc : c.MeetsSchema) (h : ∀ id m, d.node? id = some m →
    ∃ k, c.node? id = some k ∧ k.labels = m.labels) : d.MeetsSchema := by
  intro id n hn
  obtain ⟨m, hm, hmn⟩ := read?_eq_some_iff.1 hn
  obtain ⟨ts, hts, rfl⟩ := StoredNode.toNode_eq_ok hmn
  obtain ⟨k, hk, hlabels⟩ := h id m hm
  have hkn : k.toNode = .ok ⟨k.id, ts, k.properties.decode⟩ := by
    rw [StoredNode.toNode, hlabels, hts]
    rfl
  have hmeets := hc id _ (read?_eq_some_iff.2 ⟨k, hk, hkn⟩)
  rw [Node.meetsSchema_iff] at hmeets ⊢
  exact hmeets

/-- Under an id are read the labels that were read before, and those of the graph. -/
theorem WellFormed.mem_labels_mergeNodes (hc : c.WellFormed) {g : Graph}
    (hd : (c.mergeNodes settle g.storedNodes).WellFormed) (hg : g.WritableNodes) {id : String}
    {n : Node} (hn : (c.mergeNodes settle g.storedNodes).read? id = some n) {t : String} :
    t ∈ n.labels ↔
      ∃ m ∈ (c.read? id).toList ++ g.nodes.filter (fun m => m.id = id), t ∈ m.labels := by
  have hid : id ≠ "" := by
    obtain ⟨m, hm, _⟩ := read?_eq_some_iff.1 hn
    rw [← hd.id_eq hm]
    exact (hd.node hm).id_ne
  have hold : t ≠ "" ∧ (⟨Identifier.escape t⟩ : Identifier) ∈ c.labels id ↔
      ∃ m ∈ (c.read? id).toList, t ∈ m.labels := by
    cases hread : c.read? id with
    | some m => simp [hc.mem_labels_of_read? hread]
    | none =>
      have hnone : c.node? id = none := by
        rw [← Option.not_isSome_iff_eq_none, ← hc.isSome_read?, hread]
        decide
      simp [labels, hnone]
  have hnew : t ≠ "" ∧ (⟨Identifier.escape t⟩ : Identifier) ∈
        (g.storedNodes.filter fun m => m.id = id).flatMap StoredNode.labels ↔
      ∃ m ∈ g.nodes.filter (fun m => m.id = id), t ∈ m.labels := by
    simp only [List.mem_flatMap, List.mem_filter, decide_eq_true_eq]
    constructor
    · rintro ⟨_, m, ⟨hm, hmid⟩, ht⟩
      obtain ⟨k, hk, _, rfl⟩ := Graph.mem_storedNodes.1 hm
      exact ⟨k, ⟨hk, hmid⟩, Node.mem_labels_stored.1 ht⟩
    · rintro ⟨k, ⟨hk, hkid⟩, ht⟩
      have hkne : k.id ≠ "" := hkid ▸ hid
      exact ⟨ne_of_mem_of_not_mem ht (hg k hk hkne), k.stored,
        ⟨Graph.mem_storedNodes.2 ⟨k, hk, hkne, rfl⟩, hkid⟩, Node.mem_labels_stored.2 ht⟩
  rw [hd.mem_labels_of_read? hn, labels_mergeNodes, mem_addNew, and_or_left, hold, hnew]
  simp only [List.mem_append, or_and_right, exists_or]

/-- Nodes that meet the schema may be merged. -/
theorem MeetsSchema.mergeNodes (hmeets : c.MeetsSchema) (hc : c.WellFormed) {g : Graph}
    (hd : (c.mergeNodes settle g.storedNodes).WellFormed)
    (hg : ∀ n ∈ g.nodes, n.meetsSchema = true) :
    (c.mergeNodes settle g.storedNodes).MeetsSchema := by
  have hwritable : g.WritableNodes := fun n hn _ => Node.empty_not_mem_of_meetsSchema (hg n hn)
  intro id n hn
  refine Node.meetsSchema_of_union ?_ ?_ fun t => hc.mem_labels_mergeNodes hd hwritable hn
  · -- Something is stored under the id only if it was, or if the graph has a node of that id.
    obtain ⟨m, hm, _⟩ := read?_eq_some_iff.1 hn
    rcases (isSome_node?_mergeNodes _ id).1 (Option.isSome_of_eq_some hm) with hold | hnew
    · rw [← hc.isSome_read?] at hold
      obtain ⟨k, hk⟩ := Option.isSome_iff_exists.1 hold
      rw [hk]
      exact List.cons_ne_nil _ _
    · obtain ⟨k, hk, rfl⟩ := List.mem_map.1 hnew
      obtain ⟨j, hj, _, rfl⟩ := Graph.mem_storedNodes.1 hk
      exact List.ne_nil_of_mem
        (List.mem_append_right _ (List.mem_filter.2 ⟨hj, decide_eq_true rfl⟩))
  · intro m hm
    rcases List.mem_append.1 hm with hold | hnew
    · exact hmeets id m (Option.mem_toList.1 hold)
    · exact hg m (List.mem_filter.1 hnew).1

end Contents

/-! ## Operations -/

namespace Valid

variable {σ : Type} [LawfulBackend σ] {s : σ}

open LawfulBackend

theorem meetsSchema_ingest (hs : Valid s) (hmeets : (contents s).MeetsSchema) {g : Graph}
    (hg : ∀ n ∈ g.nodes, n.meetsSchema = true) :
    (contents (Store.ingest s g).2).MeetsSchema := by
  rw [Store.ingest]
  split
  · exact hmeets
  · next nodes t hnodes =>
    obtain ⟨hwritable, _, ht⟩ := hs.of_upsertNodes_eq_ok hnodes
    have htv := hs.putNodes hwritable.wellFormed
    have htm : (contents t).MeetsSchema := by
      have htw := htv.wellFormed
      rw [show t = _ from ht]
      rw [hs.contents_putNodes hwritable.wellFormed] at htw ⊢
      exact hmeets.mergeNodes hs.wellFormed htw hg
    split
    · exact htm
    · next edges u hedges =>
      rw [← show t = _ from ht] at htv
      obtain ⟨hwritable', _, hu⟩ := htv.of_upsertEdges_eq_ok hedges
      rw [show u = _ from hu, htv.contents_putEdges hwritable'.wellFormed]
      refine htm.of_labels fun id m hm => ⟨m, ?_, rfl⟩
      rwa [Contents.node?_mergeEdges] at hm

theorem meetsSchema_updateNode (hs : Valid s) (hmeets : (contents s).MeetsSchema)
    (u : PropertyUpdate) : (contents (Backend.updateNode s u)).MeetsSchema := by
  apply hmeets.of_labels
  intro id m hm
  rw [LawfulBackend.contents_updateNode hs.sound, Contents.node?_updateNode] at hm
  split at hm
  · obtain ⟨k, hk, rfl⟩ := Option.map_eq_some_iff.1 hm
    exact ⟨k, hk, rfl⟩
  · exact ⟨m, hm, rfl⟩

theorem meetsSchema_updateProperties (hs : Valid s) (hmeets : (contents s).MeetsSchema)
    {g : Graph} {r : Nat × σ} (h : Store.updateProperties s g = .ok r) :
    (contents r.2).MeetsSchema := by
  have hput := (Backend.updateNodes_follows s (Store.updatesOf g)).eq_of_ok h
  rw [← Except.ok.inj hput]
  have hstart : Valid (0, s).2 ∧ (contents (0, s).2).MeetsSchema := ⟨hs, hmeets⟩
  refine (List.foldlRecOn (Store.updatesOf g) Backend.putUpdate
    (motive := fun acc => Valid acc.2 ∧ (contents acc.2).MeetsSchema) hstart ?_).2
  rintro ⟨count, t⟩ ⟨ht, htm⟩ u hu
  simp only [Backend.putUpdate]
  split
  · exact ⟨ht.updateNode (Store.updatesOf_ne_nil g u hu), ht.meetsSchema_updateNode htm u⟩
  · exact ⟨ht, htm⟩

theorem meetsSchema_cascadeDelete (hs : Valid s) (hmeets : (contents s).MeetsSchema)
    {ids : List String} {status : DeleteStatus} {t : σ}
    (h : Store.cascadeDelete s ids = .ok (status, t)) : (contents t).MeetsSchema := by
  have hreadable : ¬DeletionUnreadable s ids := by
    intro hblocked
    rw [hs.cascadeDelete_of_unreadable hblocked] at h
    cases h
  obtain ⟨status', t', h', hdeletes⟩ := hs.exists_cascadeDelete hreadable
  rw [h] at h'
  cases h'
  refine hmeets.of_labels fun id m hm => ⟨m, ?_, rfl⟩
  exact ((hdeletes.node?_eq_some_iff hs (hs.cascadeDelete h)).1 hm).1

end Valid

end DatasetGraph
