import DatasetGraph.Proofs.Store.Failure
import DatasetGraph.Proofs.Store.Table

/-!
# What keeps a store legible

What a store cannot read it was given.  A write of properties that can be read leaves a store legible
if it was (`Legible.putNodes`, `Legible.putEdges`, `Legible.putUpdates`), and so does a deletion.
Hence a run that brings nothing else leads from the empty store to a store that can read all it keeps
(`Legible.run`).
-/

namespace DatasetGraph

open ListedBackend (allNodes allEdges)

variable {σ : Type} [LawfulBackend σ] {s : σ}

open LawfulBackend

/-- A store is legible if its contents are. -/
theorem legible_iff_contents (hs : Sound s) : Legible s ↔
    (∀ id n, (contents s).node? id = some n → Backend.legible σ n.properties = true) ∧
      ∀ k p, (contents s).edge? k = some p → Backend.legible σ p = true := by
  constructor
  · rintro ⟨hnode, hedge⟩
    refine ⟨fun id n hn => ?_, fun k p hp => ?_⟩
    · by_contra hnot
      exact hnode id ⟨n, hn, Bool.not_eq_true _ ▸ hnot⟩
    · by_contra hnot
      refine hedge k.source ⟨k.withProperties p, (edge?_contents_eq_some_iff hs).1 hp, ?_,
        Bool.not_eq_true _ ▸ hnot⟩
      exact StoredEdge.touches_iff.2 (.inl rfl)
  · rintro ⟨hnode, hedge⟩
    constructor
    · rintro id ⟨n, hn, hnot⟩
      rw [hnode id n hn] at hnot
      cases hnot
    · rintro id ⟨e, he, _, hnot⟩
      rw [hedge e.key e.properties ((mem_allEdges_iff hs).1 he)] at hnot
      cases hnot

theorem legible_empty_store : Legible (Backend.empty : σ) := by
  rw [legible_iff_contents sound_empty, contents_empty]
  exact ⟨nofun, nofun⟩

namespace Legible

/-! ## Single writes -/

theorem mergeNode (h : Legible s) (hs : Valid s) {n : StoredNode} (hn : n.WellFormed)
    (hlegible : Backend.legible σ n.properties = true) : Legible (Backend.mergeNode s n) := by
  obtain ⟨hnode, hedge⟩ := (legible_iff_contents hs.sound).1 h
  rw [legible_iff_contents (hs.mergeNode hn).sound, contents_mergeNode hs.sound hn.nodup_labels]
  refine ⟨fun id m hm => ?_, hedge⟩
  rw [Contents.node?_mergeNode] at hm
  split at hm
  · cases hm
    rw [Valid.legible_mergedNode fun p hp => ?_, hlegible]
    obtain ⟨m, hm, rfl⟩ := Option.map_eq_some_iff.1 hp
    exact hnode id m hm
  · exact hnode id m hm

theorem mergeEdge (h : Legible s) (hs : Valid s) {e : StoredEdge} (he : e.WellFormed)
    (source : Backend.hasNode s e.source = true) (target : Backend.hasNode s e.target = true)
    (hlegible : Backend.legible σ e.properties = true) : Legible (Backend.mergeEdge s e) := by
  obtain ⟨hnode, hedge⟩ := (legible_iff_contents hs.sound).1 h
  rw [legible_iff_contents (hs.mergeEdge he source target).sound,
    contents_mergeEdge hs.sound source target]
  refine ⟨hnode, fun k p hp => ?_⟩
  rw [Contents.edge?_mergeEdge] at hp
  split at hp
  · cases hp
    exact (Valid.legible_mergedProperties (hedge k)).trans hlegible
  · exact hedge k p hp

theorem updateNode (h : Legible s) (hs : Valid s) {u : PropertyUpdate}
    (hu : u.properties.All fun v => v ≠ .arr [])
    (hlegible : Backend.legible σ (Properties.update .empty u.properties) = true) :
    Legible (Backend.updateNode s u) := by
  obtain ⟨hnode, hedge⟩ := (legible_iff_contents hs.sound).1 h
  rw [legible_iff_contents (hs.updateNode hu).sound, contents_updateNode hs.sound]
  refine ⟨fun id m hm => ?_, hedge⟩
  rw [Contents.node?_updateNode] at hm
  split at hm
  · obtain ⟨n, hn, rfl⟩ := Option.map_eq_some_iff.1 hm
    show Backend.legible σ ((n.properties.update u.properties).mapValues (settle σ)) = true
    rw [legible_settled, legible_update (hnode id n hn), hlegible]
  · exact hnode id m hm

theorem deleteNode (h : Legible s) (hs : Valid s) (id : String) :
    Legible (Backend.deleteNode s id) := by
  obtain ⟨hnode, hedge⟩ := (legible_iff_contents hs.sound).1 h
  rw [legible_iff_contents (hs.deleteNode id).sound, contents_deleteNode hs.sound]
  constructor
  · intro j n hn
    rw [Contents.node?_deleteNode] at hn
    split at hn
    · cases hn
    · exact hnode j n hn
  · intro k p hp
    rw [Contents.edge?_deleteNode] at hp
    split at hp
    · cases hp
    · exact hedge k p hp

/-! ## Lists of writes -/

theorem putNodes (h : Legible s) (hs : Valid s) {ns : List StoredNode}
    (hns : ∀ n ∈ ns, n.WellFormed)
    (hlegible : ∀ n ∈ ns, Backend.legible σ n.properties = true) :
    Legible (Backend.putNodes s ns).2 := by
  refine (List.foldlRecOn ns Backend.mergeNode (motive := fun t => Valid t ∧ Legible t) ⟨hs, h⟩ ?_).2
  rintro t ⟨ht, hlt⟩ n hn
  exact ⟨ht.mergeNode (hns n hn), hlt.mergeNode ht (hns n hn) (hlegible n hn)⟩

theorem putEdges (h : Legible s) (hs : Valid s) {es : List StoredEdge}
    (hes : ∀ e ∈ es, e.WellFormed)
    (hlegible : ∀ e ∈ es, Backend.legible σ e.properties = true) :
    Legible (Backend.putEdges s es).2 := by
  have hstart : Valid (({} : WriteCount), s).2 ∧ Legible (({} : WriteCount), s).2 := ⟨hs, h⟩
  refine (List.foldlRecOn es Backend.putEdge (motive := fun acc => Valid acc.2 ∧ Legible acc.2)
    hstart ?_).2
  rintro ⟨count, t⟩ ⟨ht, hlt⟩ e he
  simp only [Backend.putEdge]
  split
  · next hends =>
    obtain ⟨source, target⟩ := Bool.and_eq_true_iff.1 hends
    exact ⟨ht.mergeEdge (hes e he) source target,
      hlt.mergeEdge ht (hes e he) source target (hlegible e he)⟩
  · exact ⟨ht, hlt⟩

theorem putUpdates (h : Legible s) (hs : Valid s) {us : List PropertyUpdate}
    (hus : ∀ u ∈ us, u.properties.All fun v => v ≠ .arr [])
    (hlegible : ∀ u ∈ us, Backend.legible σ (Properties.update .empty u.properties) = true) :
    Legible (Backend.putUpdates s us).2 := by
  have hstart : Valid (0, s).2 ∧ Legible (0, s).2 := ⟨hs, h⟩
  refine (List.foldlRecOn us Backend.putUpdate (motive := fun acc => Valid acc.2 ∧ Legible acc.2)
    hstart ?_).2
  rintro ⟨count, t⟩ ⟨ht, hlt⟩ u hu
  simp only [Backend.putUpdate]
  split
  · exact ⟨ht.updateNode (hus u hu), hlt.updateNode ht (hus u hu) (hlegible u hu)⟩
  · exact ⟨ht, hlt⟩

theorem deleteNodes (h : Legible s) (hs : Valid s) (ids : List String) :
    Legible (Backend.deleteNodes s ids).2 := by
  have hstart : Valid (0, s).2 ∧ Legible (0, s).2 := ⟨hs, h⟩
  refine (List.foldlRecOn ids Backend.deleteNodeCounted
    (motive := fun acc => Valid acc.2 ∧ Legible acc.2) hstart ?_).2
  rintro ⟨count, t⟩ ⟨ht, hlt⟩ id _
  simp only [Backend.deleteNodeCounted]
  split
  · exact ⟨ht.deleteNode id, hlt.deleteNode ht id⟩
  · exact ⟨ht, hlt⟩

end Legible

/-! ## Graphs that can be read again -/

variable (σ) in
/-- All that a graph brings can be read again. -/
structure Graph.IsLegible (g : Graph) : Prop where
  node : ∀ n ∈ g.nodes, Backend.legible σ n.properties.encode = true
  edge : ∀ e ∈ g.edges, Backend.legible σ e.properties.encode = true

namespace Graph.IsLegible

variable {g : Graph}

theorem storedNodes (hg : g.IsLegible σ) :
    ∀ n ∈ g.storedNodes, Backend.legible σ n.properties = true := by
  intro n hn
  obtain ⟨m, hm, _, rfl⟩ := Graph.mem_storedNodes.1 hn
  exact hg.node m hm

theorem storedEdges (hg : g.IsLegible σ) :
    ∀ e ∈ g.storedEdges, Backend.legible σ e.properties = true := by
  intro f hf
  obtain ⟨e, he, hf⟩ := Graph.mem_storedEdges.1 hf
  obtain ⟨_, _, rfl⟩ := List.mem_map.1 hf
  exact hg.edge e he

/-- An update keeps what is stored of the properties, the id apart. -/
theorem updatesOf (hg : g.IsLegible σ) : ∀ u ∈ Store.updatesOf g,
    Backend.legible σ (Properties.update .empty u.properties) = true := by
  intro u hu
  obtain ⟨n, hn, rfl⟩ := List.mem_map.1 hu
  rw [legible_iff]
  refine Properties.all_update (P := Fits σ) KeyMap.all_empty fun k v hv hnull => ?_
  refine legible_iff.1 (hg.node n (List.mem_filter.1 hn).1) k v ?_
  rw [Properties.encode, KeyMap.get?_filter, Option.filter_eq_some_iff]
  exact ⟨hv, by rw [hnull]; rfl⟩

end Graph.IsLegible

/-! ## Ingests -/

namespace Legible

theorem node? (h : Legible s) (hs : Valid s) {id : String} {p : Properties}
    (hp : (Backend.node? s id).map StoredNode.properties = some p) :
    Backend.legible σ p = true := by
  obtain ⟨n, hn, rfl⟩ := Option.map_eq_some_iff.1 hp
  exact ((legible_iff_contents hs.sound).1 h).1 id n hn

theorem edge? (h : Legible s) (hs : Valid s) {k : RelationKey} {p : Properties}
    (hp : Backend.edge? s k = some p) : Backend.legible σ p = true := by
  rw [edge?_eq hs.sound] at hp
  exact ((legible_iff_contents hs.sound).1 h).2 k p hp

theorem not_nodesBlocked (h : Legible s) (hs : Valid s) {ns : List StoredNode}
    (hlegible : ∀ n ∈ ns, Backend.legible σ n.properties = true) : ¬NodesBlocked s ns :=
  not_blocked_of_legible (fun _ _ _ => h.node? hs) hlegible

theorem not_edgesBlocked (h : Legible s) (hs : Valid s) {es : List StoredEdge}
    (hlegible : ∀ e ∈ es, Backend.legible σ e.properties = true) : ¬EdgesBlocked s es :=
  not_blocked_of_legible (fun _ _ _ => h.edge? hs) fun e he => hlegible e (List.mem_filter.1 he).1

theorem not_updatesBlocked (h : Legible s) (hs : Valid s) {us : List PropertyUpdate}
    (hlegible : ∀ u ∈ us, Backend.legible σ (Properties.update .empty u.properties) = true) :
    ¬UpdatesBlocked s us :=
  not_blocked_of_legible (fun _ _ _ => h.node? hs) fun u hu => hlegible u (List.mem_filter.1 hu).1

/-- What can be read, laid over what can be read, is not blocked. -/
theorem not_ingestBlocked (h : Legible s) (hs : Valid s) {g : Graph} (hnodes : g.WritableNodes)
    (hg : g.IsLegible σ) : ¬IngestBlocked s g := by
  have ht := h.putNodes hs hnodes.wellFormed hg.storedNodes
  exact not_or.2 ⟨h.not_nodesBlocked hs hg.storedNodes,
    ht.not_edgesBlocked (hs.putNodes hnodes.wellFormed) hg.storedEdges⟩

end Legible

/-! ## Operations -/

variable (σ) in
/-- An operation brings nothing that cannot be read again. -/
def Operation.BringsLegible : Operation → Prop
  | upsertNodes g => g.IsLegible σ
  | upsertEdges g => g.IsLegible σ
  | ingest g => g.IsLegible σ
  | updateProperties g => g.IsLegible σ
  | _ => True

namespace Legible

variable {g : Graph}

theorem upsertNodes (h : Legible s) (hs : Valid s) (hg : g.IsLegible σ) {r : WriteCount × σ}
    (hr : Store.upsertNodes s g = .ok r) : Legible r.2 := by
  obtain ⟨hwritable, _, ht⟩ := hs.of_upsertNodes_eq_ok hr
  rw [ht]
  exact h.putNodes hs hwritable.wellFormed hg.storedNodes

theorem upsertEdges (h : Legible s) (hs : Valid s) (hg : g.IsLegible σ) {r : WriteCount × σ}
    (hr : Store.upsertEdges s g = .ok r) : Legible r.2 := by
  obtain ⟨hwritable, _, ht⟩ := hs.of_upsertEdges_eq_ok hr
  rw [ht]
  exact h.putEdges hs hwritable.wellFormed hg.storedEdges

theorem ingest (h : Legible s) (hs : Valid s) (hg : g.IsLegible σ) :
    Legible (Store.ingest s g).2 := by
  rw [Store.ingest]
  split
  · exact h
  · next hnodes =>
    have ht := h.upsertNodes hs hg hnodes
    split
    · exact ht
    · next hedges => exact ht.upsertEdges (hs.upsertNodes hnodes) hg hedges

theorem updateProperties (h : Legible s) (hs : Valid s) (hg : g.IsLegible σ) {r : Nat × σ}
    (hr : Store.updateProperties s g = .ok r) : Legible r.2 := by
  have hput := (Backend.updateNodes_follows s (Store.updatesOf g)).eq_of_ok hr
  rw [← Except.ok.inj hput]
  exact h.putUpdates hs (Store.updatesOf_ne_nil g) hg.updatesOf

theorem cascadeDelete (h : Legible s) (hs : Valid s) {ids : List String} {r : DeleteStatus × σ}
    (hr : Store.cascadeDelete s ids = .ok r) : Legible r.2 := by
  rw [Store.cascadeDelete] at hr
  obtain ⟨roots, _, hr⟩ := Fallible.bind_eq_ok_iff.1 hr
  obtain ⟨doomed, _, hr⟩ := Fallible.bind_eq_ok_iff.1 hr
  cases hr
  exact h.deleteNodes hs _

theorem writing {α ε : Type} (h : Legible s) {r : Except ε (α × σ)}
    (hr : ∀ a, r = .ok a → Legible a.2) : Legible (writing s r).2 := by
  cases r with
  | error e => exact h
  | ok a => exact hr a rfl

/-- An operation that brings only what can be read leaves a store legible, whether it succeeds or
fails. -/
theorem perform (h : Legible s) (hs : Valid s) {o : Operation} (ho : o.BringsLegible σ) :
    Legible (o.perform s).2 := by
  cases o with
  | upsertNodes g => exact h.writing fun _ => h.upsertNodes hs ho
  | upsertEdges g => exact h.writing fun _ => h.upsertEdges hs ho
  | ingest g => exact h.ingest hs ho
  | updateProperties g => exact h.writing fun _ => h.updateProperties hs ho
  | cascadeDelete ids => exact h.writing fun _ => h.cascadeDelete hs
  | readNodes ids => exact h
  | incidentEdges ids => exact h
  | datasetRoots => exact h
  | query q => exact h

/-- So does a run of such operations. -/
theorem run (h : Legible s) (hs : Valid s) {os : List Operation}
    (hos : ∀ o ∈ os, o.BringsLegible σ) : Legible (run s os).2 := by
  induction os generalizing s with
  | nil => exact h
  | cons o os ih =>
    obtain ⟨ho, hos⟩ := List.forall_mem_cons.1 hos
    exact ih (h.perform hs ho) (hs.perform o) hos

end Legible

/-! ## Datasets that share a file -/

/-- Datasets that share a file bring nothing that is nested. -/
theorem isLegible_sharing (ids : List String) : (Graph.sharing ids).IsLegible TableStore where
  node := by
    intro n hn
    rcases List.mem_cons.1 hn with rfl | hn
    · show Properties.isLegible _ = true
      decide +kernel
    · obtain ⟨id, _, rfl⟩ := List.mem_map.1 hn
      rfl
  edge := by
    intro e he
    obtain ⟨id, _, rfl⟩ := List.mem_map.1 he
    rfl

theorem legible_sharing (ids : List String) : Legible (sharing ids : TableStore) :=
  legible_empty_store.perform valid_empty (o := .ingest (.sharing ids)) (isLegible_sharing ids)

end DatasetGraph
