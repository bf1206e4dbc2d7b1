import DatasetGraph.Proofs.Json.ReadBack
import DatasetGraph.Proofs.Query.Reordering
import DatasetGraph.Proofs.Store.Adjacency
import DatasetGraph.Proofs.Store.Cascade
import DatasetGraph.Proofs.Store.Legibility
import DatasetGraph.Proofs.Store.Table

/-!
# The two backends agree

A run of operations gets the same replies in memory and in tables (`backends_agree`): the same
errors, statuses and counts, the same nodes in the same order, the same edges and pages up to order.
It is assumed of the values in the run that they are read back from their text as they were written
(`Json.Survives`), since the tables keep text.

What carries the proof is that after each operation the two stores hold the same (`Same`).  All that
an operation answers is fixed by what is stored, up to the order of edges, and the order in which
edges are met shows neither in the dooming of nodes nor in a page.  What survives can be read, so the
tables never fail where memory does not.
-/

namespace DatasetGraph

/-- The values of nodes and edges survive. -/
def Graph.Survives (g : Graph) : Prop :=
  (∀ n ∈ g.nodes, n.properties.All Json.Survives) ∧ ∀ e ∈ g.edges, e.properties.All Json.Survives

/-- The values that the operation writes survive. -/
def Operation.Survives : Operation → Prop
  | upsertNodes g | upsertEdges g | ingest g | updateProperties g => g.Survives
  | cascadeDelete _ | readNodes _ | incidentEdges _ | datasetRoots | query _ => True

/-- The replies differ in nothing but the order of edges and of the nodes of a page. -/
def Reply.Agrees : Reply → Reply → Prop
  | .edges (.ok es), .edges (.ok fs) => es.Nodup ∧ es.Perm fs
  | .page (.ok p), .page (.ok q) => p.Agrees q
  | a, b => a = b

/-! ## Values that survive -/

theorem Json.Survives.markEmpty {v : Json} (h : v.Survives) : v.markEmpty.Survives := by
  unfold Json.markEmpty
  split
  · exact Json.survives_str _
  · exact h

theorem Properties.survives_mark {p : Properties} (h : p.All Json.Survives) :
    p.mark.All Json.Survives :=
  KeyMap.all_mapValues.2 (h.imp fun _ => Json.Survives.markEmpty)

theorem Properties.survives_encode {p : Properties} (h : p.All Json.Survives) :
    p.encode.All Json.Survives :=
  (Properties.survives_mark h).filter _

theorem mapValues_reread {p : Properties} (h : p.All Json.Survives) :
    p.mapValues Json.reread = p.mapValues id := by
  rw [KeyMap.mapValues_eq_self (h.imp fun _ => Json.Survives.reread), AdjacencyStore.mapValues_id]

theorem isLegible_of_survives {p : Properties} (h : p.All Json.Survives) : p.isLegible = true :=
  Properties.isLegible_iff.2 (h.imp fun _ => Json.Survives.depth_lt)

theorem Graph.Survives.isLegible {g : Graph} (h : g.Survives) : g.IsLegible TableStore where
  node n hn := isLegible_of_survives (Properties.survives_encode (h.1 n hn))
  edge e he := isLegible_of_survives (Properties.survives_encode (h.2 e he))

namespace Contents

/-- All values that are stored survive. -/
structure Survives (c : Contents) : Prop where
  node {i : String} {n : StoredNode} : c.node? i = some n → n.properties.All Json.Survives
  edge {k : RelationKey} {p : Properties} : c.edge? k = some p → p.All Json.Survives

variable {c : Contents}

/-! Of values that survive, rereading makes no difference, and the writes bring no others. -/

theorem Survives.overlaid_node (hc : c.Survives) (n : StoredNode)
    (hn : n.properties.All Json.Survives) (i : String) :
    KeyMap.All Json.Survives
      ((((c.node? i).getD ⟨n.id, [], .empty⟩).properties).overlay n.properties) := by
  cases hold : c.node? i with
  | none => exact KeyMap.all_empty.overlay hn
  | some m => exact (hc.node hold).overlay hn

theorem Survives.overlaid_edge (hc : c.Survives) {p : Properties} (hp : p.All Json.Survives)
    (k : RelationKey) : KeyMap.All Json.Survives (((c.edge? k).getD .empty).overlay p) := by
  cases hold : c.edge? k with
  | none => exact KeyMap.all_empty.overlay hp
  | some q => exact (hc.edge hold).overlay hp

theorem Survives.updated (hc : c.Survives) {u : Properties} (hu : u.All Json.Survives)
    {i : String} {n : StoredNode} (hn : c.node? i = some n) :
    KeyMap.All Json.Survives (n.properties.update u) :=
  Properties.all_update (hc.node hn) (hu.imp fun _ hv _ => hv)

theorem mergeNode_reread (hc : c.Survives) {n : StoredNode}
    (hn : n.properties.All Json.Survives) : c.mergeNode Json.reread n = c.mergeNode id n := by
  apply Contents.ext
  · funext i
    rw [node?_mergeNode, node?_mergeNode, mergedNode, mergedNode,
      mapValues_reread (hc.overlaid_node n hn i)]
  · rfl

theorem mergeEdge_reread (hc : c.Survives) {e : StoredEdge}
    (he : e.properties.All Json.Survives) : c.mergeEdge Json.reread e = c.mergeEdge id e := by
  apply Contents.ext
  · rfl
  · funext k
    rw [edge?_mergeEdge, edge?_mergeEdge, mergedProperties, mergedProperties,
      mapValues_reread (hc.overlaid_edge he k)]

theorem updateNode_reread (hc : c.Survives) {u : PropertyUpdate}
    (hu : u.properties.All Json.Survives) : c.updateNode Json.reread u = c.updateNode id u := by
  apply Contents.ext
  · funext i
    rw [node?_updateNode, node?_updateNode]
    cases hn : c.node? i with
    | none => rfl
    | some n =>
      rw [Option.map_some, Option.map_some, updatedNode, updatedNode,
        mapValues_reread (hc.updated hu hn)]
  · rfl

theorem Survives.mergeNode (hc : c.Survives) {n : StoredNode}
    (hn : n.properties.All Json.Survives) : (c.mergeNode id n).Survives where
  node := by
    intro i m hm
    rw [node?_mergeNode] at hm
    split at hm
    · obtain rfl := Option.some.inj hm
      exact KeyMap.all_mapValues.2 (hc.overlaid_node n hn i)
    · exact hc.node hm
  edge := hc.edge

theorem Survives.mergeEdge (hc : c.Survives) {e : StoredEdge}
    (he : e.properties.All Json.Survives) : (c.mergeEdge id e).Survives where
  node := hc.node
  edge := by
    intro k p hp
    rw [edge?_mergeEdge] at hp
    split at hp
    · obtain rfl := Option.some.inj hp
      exact KeyMap.all_mapValues.2 (hc.overlaid_edge he k)
    · exact hc.edge hp

theorem Survives.updateNode (hc : c.Survives) {u : PropertyUpdate}
    (hu : u.properties.All Json.Survives) : (c.updateNode id u).Survives where
  node := by
    intro i m hm
    rw [node?_updateNode] at hm
    split at hm
    · obtain ⟨n, hn, rfl⟩ := Option.map_eq_some_iff.1 hm
      exact KeyMap.all_mapValues.2 (hc.updated hu hn)
    · exact hc.node hm
  edge := hc.edge

/-- What is left of contents survives if they did. -/
theorem Survives.of_le (hc : c.Survives) {d : Contents}
    (hnode : ∀ i n, d.node? i = some n → c.node? i = some n)
    (hedge : ∀ k p, d.edge? k = some p → c.edge? k = some p) : d.Survives where
  node := fun hn => hc.node (hnode _ _ hn)
  edge := fun hp => hc.edge (hedge _ _ hp)

end Contents

/-! ## Stores that hold the same -/

/-- A store in memory and one in tables that hold the same. -/
structure Same (s : AdjacencyStore) (t : TableStore) : Prop where
  left : Valid s
  right : Valid t
  contents_eq : contents s = contents t
  survives : (contents s).Survives

namespace Same

open LawfulBackend

variable {s : AdjacencyStore} {t : TableStore}

theorem empty : Same Backend.empty Backend.empty := by
  refine ⟨valid_empty, valid_empty, ?_, ?_⟩
  · rw [contents_empty, contents_empty]
  · rw [contents_empty]
    exact ⟨nofun, nofun⟩

/-- What survives can be read. -/
theorem legible (h : Same s t) : Legible t := by
  rw [legible_iff_contents h.right.sound, ← h.contents_eq]
  exact ⟨fun _ _ hn => isLegible_of_survives (h.survives.node hn),
    fun _ _ hp => isLegible_of_survives (h.survives.edge hp)⟩

theorem hasNode_eq (h : Same s t) (i : String) : Backend.hasNode s i = Backend.hasNode t i := by
  show ((contents s).node? i).isSome = ((contents t).node? i).isSome
  rw [h.contents_eq]

theorem mergeNode (h : Same s t) {n : StoredNode} (hn : n.WellFormed)
    (hvalues : n.properties.All Json.Survives) :
    Same (Backend.mergeNode s n) (Backend.mergeNode t n) := by
  have hleft : contents (Backend.mergeNode s n) = (contents s).mergeNode id n :=
    contents_mergeNode h.left.sound hn.nodup_labels
  have hright : contents (Backend.mergeNode t n) = (contents s).mergeNode Json.reread n := by
    rw [h.contents_eq]
    exact contents_mergeNode h.right.sound hn.nodup_labels
  refine ⟨h.left.mergeNode hn, h.right.mergeNode hn, ?_, ?_⟩
  · rw [hleft, hright, Contents.mergeNode_reread h.survives hvalues]
  · rw [hleft]
    exact h.survives.mergeNode hvalues

theorem mergeEdge (h : Same s t) {e : StoredEdge} (he : e.WellFormed)
    (hvalues : e.properties.All Json.Survives) (source : Backend.hasNode s e.source = true)
    (target : Backend.hasNode s e.target = true) :
    Same (Backend.mergeEdge s e) (Backend.mergeEdge t e) := by
  have source' : Backend.hasNode t e.source = true := by rwa [← h.hasNode_eq]
  have target' : Backend.hasNode t e.target = true := by rwa [← h.hasNode_eq]
  have hleft : contents (Backend.mergeEdge s e) = (contents s).mergeEdge id e :=
    contents_mergeEdge h.left.sound source target
  have hright : contents (Backend.mergeEdge t e) = (contents s).mergeEdge Json.reread e := by
    rw [h.contents_eq]
    exact contents_mergeEdge h.right.sound source' target'
  refine ⟨h.left.mergeEdge he source target, h.right.mergeEdge he source' target', ?_, ?_⟩
  · rw [hleft, hright, Contents.mergeEdge_reread h.survives hvalues]
  · rw [hleft]
    exact h.survives.mergeEdge hvalues

theorem updateNode (h : Same s t) {u : PropertyUpdate} (hu : u.properties.All fun v => v ≠ .arr [])
    (hvalues : u.properties.All Json.Survives) :
    Same (Backend.updateNode s u) (Backend.updateNode t u) := by
  have hleft : contents (Backend.updateNode s u) = (contents s).updateNode id u :=
    contents_updateNode h.left.sound u
  have hright : contents (Backend.updateNode t u) = (contents s).updateNode Json.reread u := by
    rw [h.contents_eq]
    exact contents_updateNode h.right.sound u
  refine ⟨h.left.updateNode hu, h.right.updateNode hu, ?_, ?_⟩
  · rw [hleft, hright, Contents.updateNode_reread h.survives hvalues]
  · rw [hleft]
    exact h.survives.updateNode hvalues

/-! ## Lists of writes -/

/-- Results of writes that report the same and leave the same behind. -/
def Alike {α : Type} (r : α × AdjacencyStore) (r' : α × TableStore) : Prop :=
  r.1 = r'.1 ∧ Same r.2 r'.2

theorem mergeNodes (h : Same s t) {ns : List StoredNode} (hns : ∀ n ∈ ns, n.WellFormed)
    (hvalues : ∀ n ∈ ns, n.properties.All Json.Survives) :
    Alike (Backend.putNodes s ns) (Backend.putNodes t ns) :=
  ⟨rfl, List.foldl_rel h fun n hn _ _ h => h.mergeNode (hns n hn) (hvalues n hn)⟩

theorem mergeEdges (h : Same s t) {es : List StoredEdge} (hes : ∀ e ∈ es, e.WellFormed)
    (hvalues : ∀ e ∈ es, e.properties.All Json.Survives) :
    Alike (Backend.putEdges s es) (Backend.putEdges t es) := by
  show Alike (es.foldl Backend.putEdge (({} : WriteCount), s))
    (es.foldl Backend.putEdge (({} : WriteCount), t))
  apply List.foldl_rel (r := Alike) ⟨rfl, h⟩
  rintro e he ⟨count, s⟩ ⟨_, t⟩ ⟨rfl, h⟩
  simp only [Backend.putEdge, ← h.hasNode_eq]
  split
  · next hends =>
    obtain ⟨source, target⟩ := Bool.and_eq_true_iff.1 hends
    exact ⟨rfl, h.mergeEdge (hes e he) (hvalues e he) source target⟩
  · exact ⟨rfl, h⟩

theorem updateNodes (h : Same s t) {us : List PropertyUpdate}
    (hus : ∀ u ∈ us, u.properties.All fun v => v ≠ .arr [])
    (hvalues : ∀ u ∈ us, u.properties.All Json.Survives) :
    Alike (Backend.putUpdates s us) (Backend.putUpdates t us) := by
  apply List.foldl_rel (r := Alike) ⟨rfl, h⟩
  rintro u hu ⟨count, s⟩ ⟨_, t⟩ ⟨rfl, h⟩
  simp only [Backend.putUpdate, ← h.hasNode_eq]
  split
  · exact ⟨rfl, h.updateNode (hus u hu) (hvalues u hu)⟩
  · exact ⟨rfl, h⟩

/-! ## Writing -/

/-- Results of writes that may fail: both fail alike, or both succeed alike. -/
inductive AlikeResult {α : Type} : Except StoreError (α × AdjacencyStore) →
    Except StoreError (α × TableStore) → Prop where
  | ok (a : α) {s : AdjacencyStore} {t : TableStore} (h : Same s t) :
    AlikeResult (.ok (a, s)) (.ok (a, t))
  | error (e : StoreError) : AlikeResult (.error e) (.error e)

theorem Alike.result {α β : Type} {r : α × AdjacencyStore} {r' : α × TableStore}
    (h : Alike r r') (report : α → β) :
    AlikeResult (.ok (report r.1, r.2)) (.ok (report r'.1, r'.2)) := by
  obtain ⟨hreport, hsame⟩ := h
  rw [hreport]
  exact .ok _ hsame

theorem survives_storedNodes {g : Graph} (hg : g.Survives) :
    ∀ n ∈ g.storedNodes, n.properties.All Json.Survives := by
  intro n hn
  obtain ⟨m, hm, _, rfl⟩ := Graph.mem_storedNodes.1 hn
  exact Properties.survives_encode (hg.1 m hm)

theorem survives_storedEdges {g : Graph} (hg : g.Survives) :
    ∀ e ∈ g.storedEdges, e.properties.All Json.Survives := by
  intro f hf
  obtain ⟨e, he, hf⟩ := Graph.mem_storedEdges.1 hf
  obtain ⟨_, _, rfl⟩ := List.mem_map.1 hf
  exact Properties.survives_encode (hg.2 e he)

theorem upsertNodes (h : Same s t) {g : Graph} (hg : g.Survives) :
    AlikeResult (Store.upsertNodes s g) (Store.upsertNodes t g) := by
  by_cases hwritable : g.WritableNodes
  · rw [h.left.upsertNodes_eq hwritable not_blocked, h.right.upsertNodes_eq hwritable
      (h.legible.not_nodesBlocked h.right hg.isLegible.storedNodes)]
    exact .ok _ (h.mergeNodes hwritable.wellFormed (survives_storedNodes hg)).2
  · rw [Store.upsertNodes_of_empty s hwritable, Store.upsertNodes_of_empty t hwritable]
    exact .error _

theorem upsertEdges (h : Same s t) {g : Graph} (hg : g.Survives) :
    AlikeResult (Store.upsertEdges s g) (Store.upsertEdges t g) := by
  by_cases hwritable : g.WritableEdges
  · rw [h.left.upsertEdges_eq hwritable not_blocked, h.right.upsertEdges_eq hwritable
      (h.legible.not_edgesBlocked h.right hg.isLegible.storedEdges)]
    have hmerged := h.mergeEdges hwritable.wellFormed (survives_storedEdges hg)
    -- An edge without labels is skipped before anything is written.
    have hskipped : ∀ skipped, AlikeResult _ _ := fun skipped =>
      hmerged.result fun count => (⟨count.written, count.skipped + skipped⟩ : WriteCount)
    exact hskipped (g.edges.filter fun e => e.labels.isEmpty).length
  · rw [Store.upsertEdges_of_empty s hwritable, Store.upsertEdges_of_empty t hwritable]
    exact .error _

theorem ingest (h : Same s t) {g : Graph} (hg : g.Survives) :
    Alike (Store.ingest s g) (Store.ingest t g) := by
  have hnodes := h.upsertNodes hg
  rw [Store.ingest, Store.ingest]
  generalize Store.upsertNodes s g = r at hnodes
  generalize Store.upsertNodes t g = r' at hnodes
  cases hnodes with
  | error e => exact ⟨rfl, h⟩
  | @ok nodes s t h =>
    -- The nodes stay although the edges may fail.
    have hedges := h.upsertEdges hg
    dsimp only
    generalize Store.upsertEdges s g = r at hedges
    generalize Store.upsertEdges t g = r' at hedges
    cases hedges with
    | error e => exact ⟨rfl, h⟩
    | ok edges h => exact ⟨rfl, h⟩

theorem updateProperties (h : Same s t) {g : Graph} (hg : g.Survives) :
    AlikeResult (Store.updateProperties s g) (Store.updateProperties t g) := by
  have hne := Store.updatesOf_ne_nil g
  have hvalues : ∀ u ∈ Store.updatesOf g, u.properties.All Json.Survives := by
    intro u hu
    obtain ⟨n, hn, rfl⟩ := List.mem_map.1 hu
    exact Properties.survives_mark (hg.1 n (List.mem_filter.1 hn).1)
  have hleft : ¬UpdatesBlocked s (Store.updatesOf g) := not_blocked
  have hright : ¬UpdatesBlocked t (Store.updatesOf g) :=
    h.legible.not_updatesBlocked h.right hg.isLegible.updatesOf
  classical
  rw [Store.updateProperties, Store.updateProperties, h.left.updateNodes_eq hne, if_neg hleft,
    h.right.updateNodes_eq hne, if_neg hright]
  exact (h.updateNodes hne hvalues).result id

/-! ## Reading -/

theorem readNodes_eq (h : Same s t) (ids : List String) :
    Store.readNodes s ids = Store.readNodes t ids := by
  classical
  rw [h.left.readNodes_eq, h.right.readNodes_eq_ite, h.contents_eq, if_neg]
  rintro ⟨id, _, hid⟩
  exact h.legible.node id hid

theorem datasetRoots_eq (h : Same s t) : Store.datasetRoots s = Store.datasetRoots t := by
  classical
  obtain ⟨ms, hms, hmsorted, hmmem⟩ := h.left.exists_datasetRoots
  obtain ⟨ns, hns, hnsorted, hnmem⟩ := h.right.exists_datasetRoots_eq_ite
  rw [hms, hns, if_neg h.legible.not_datasetUnreadable]
  apply congrArg Except.ok
  apply eq_of_pairwise_key hmsorted hnsorted
  intro n
  rw [hmmem, hnmem, h.contents_eq]

theorem exists_incidentEdges (h : Same s t) (ids : List String) :
    ∃ es fs, Store.incidentEdges s ids = .ok es ∧ Store.incidentEdges t ids = .ok fs ∧
      es.Nodup ∧ es.Perm fs ∧
        ∀ e, e ∈ es ↔ (contents s).HoldsEdge e ∧ ∃ id ∈ ids, e.touches id = true := by
  classical
  obtain ⟨es, hes, henodup, hemem⟩ := h.left.exists_incidentEdges ids
  obtain ⟨fs, hfs, hfnodup, hfmem⟩ := h.right.exists_incidentEdges_eq_ite ids
  rw [if_neg fun ⟨id, _, hid⟩ => h.legible.edge id hid] at hfs
  have hperm : es.Perm fs := by
    apply (List.perm_ext_iff_of_nodup henodup hfnodup).2
    intro e
    rw [hemem, hfmem, h.contents_eq]
  exact ⟨es, fs, hes, hfs, henodup, hperm, hemem⟩

theorem matching_eq (h : Same s t) (c : Criteria) :
    Store.matching s c = Store.matching (⟨t⟩ : DeepReader TableStore) c := by
  obtain ⟨ms, hms, hmsorted, hmmem⟩ := h.left.exists_matching c
  obtain ⟨ns, hns, hnsorted, hnmem⟩ := h.right.deepReader.exists_matching c
  rw [hms, hns]
  apply congrArg Except.ok
  apply eq_of_pairwise_key hmsorted hnsorted
  intro n
  rw [hmmem, hnmem, h.contents_eq]
  rfl

theorem query (h : Same s t) (q : Query) :
    Reply.Agrees (.page (Store.query s q)) (.page (Store.query t q)) := by
  classical
  cases hc : q.criteria with
  | error fault =>
    rw [Store.query, Store.query, hc]
    exact rfl
  | ok c =>
    obtain ⟨roots, hroots, _, hmem⟩ := h.left.exists_matching c
    obtain ⟨p, hp, hshows⟩ := h.left.exists_query hc hroots fun n hn => (hmem n).1 hn
    -- Both pages show their slices of the same roots.
    have hroots' := h.matching_eq c ▸ hroots
    obtain ⟨p', hp', hshows'⟩ := h.right.deepReader.exists_query hc hroots'
      fun n hn => h.contents_eq ▸ (hmem n).1 hn
    rw [hp, h.right.query_eq_ite hc hroots',
      if_neg (h.legible.not_pageUnreadable c roots q.offset q.count), hp']
    have hcontents : contents (⟨t⟩ : DeepReader TableStore) = contents s := h.contents_eq.symm
    rw [hcontents] at hshows'
    exact hshows.agrees h.left.wellFormed hshows'

/-! ## Deleting -/

theorem cascadeDelete (h : Same s t) (ids : List String) :
    AlikeResult (Store.cascadeDelete s ids) (Store.cascadeDelete t ids) := by
  obtain ⟨status, s', hs, hdeletes⟩ :=
    h.left.exists_cascadeDelete ((legible_of_readsAll s).not_deletionUnreadable ids)
  obtain ⟨status', t', ht, hdeletes'⟩ :=
    h.right.exists_cascadeDelete (h.legible.not_deletionUnreadable ids)
  have hs' := h.left.cascadeDelete hs
  have ht' := h.right.cascadeDelete ht
  -- What is doomed is a matter of the contents, and so are the targets and their order.
  have hstatus : status' = status := by
    obtain ⟨doomed, hmem, hdeleted⟩ := hdeletes.deleted_eq
    obtain ⟨doomed', hmem', hdeleted'⟩ := hdeletes'.deleted_eq
    have hdoomed : doomed' = doomed := by
      ext i
      rw [hmem, hmem', h.contents_eq]
    have hroots : status'.roots = status.roots := by
      by_cases hids : ids = []
      · obtain ⟨hsorted, hroot⟩ := hdeletes.roots_of_all hids
        obtain ⟨hsorted', hroot'⟩ := hdeletes'.roots_of_all hids
        apply @eq_of_pairwise_key String (fun i => i) _ _ hsorted' hsorted
        intro i
        rw [hroot, hroot', h.contents_eq]
      · rw [hdeletes.roots_eq hids, hdeletes'.roots_eq hids, h.contents_eq]
    cases status
    cases status'
    rw [DeleteStatus.mk.injEq]
    refine ⟨?_, hroots⟩
    rw [← hdoomed] at hdeleted
    exact hdeleted'.trans hdeleted.symm
  have hcontents : contents s' = contents t' := by
    apply Contents.ext
    · funext i
      apply Option.ext
      intro n
      rw [hdeletes.node?_eq_some_iff h.left hs', hdeletes'.node?_eq_some_iff h.right ht',
        h.contents_eq]
    · funext k
      apply Option.ext
      intro p
      rw [hdeletes.edge?_eq_some_iff h.left hs', hdeletes'.edge?_eq_some_iff h.right ht',
        h.contents_eq]
  have hsurvives : (contents s').Survives := by
    apply h.survives.of_le
    · intro i n hn
      exact ((hdeletes.node?_eq_some_iff h.left hs').1 hn).1
    · intro k p hp
      exact ((hdeletes.edge?_eq_some_iff h.left hs').1 hp).1
  rw [hs, ht, hstatus]
  exact .ok status ⟨hs', ht', hcontents, hsurvives⟩

/-! ## Operations -/

theorem writing {α : Type} (h : Same s t) {r : Except StoreError (α × AdjacencyStore)}
    {r' : Except StoreError (α × TableStore)} (hr : AlikeResult r r') :
    Alike (writing s r) (writing t r') := by
  cases hr with
  | ok a h => exact ⟨rfl, h⟩
  | error e => exact ⟨rfl, h⟩

theorem map {α : Type} {r : α × AdjacencyStore} {r' : α × TableStore} (hr : Alike r r')
    {reply : α → Reply} (hagrees : ∀ a, (reply a).Agrees (reply a)) :
    (r.map reply id).1.Agrees (r'.map reply id).1 ∧
      Same (r.map reply id).2 (r'.map reply id).2 := by
  obtain ⟨a, s⟩ := r
  obtain ⟨_, t⟩ := r'
  obtain ⟨rfl, h⟩ := hr
  exact ⟨hagrees a, h⟩

/-- An operation on stores that hold the same gets replies that agree, and leaves stores that hold
the same. -/
theorem perform (h : Same s t) {o : Operation} (ho : o.Survives) :
    (o.perform s).1.Agrees (o.perform t).1 ∧ Same (o.perform s).2 (o.perform t).2 := by
  cases o with
  | upsertNodes g => exact map (h.writing (h.upsertNodes ho)) fun _ => rfl
  | upsertEdges g => exact map (h.writing (h.upsertEdges ho)) fun _ => rfl
  | ingest g => exact map (h.ingest ho) fun _ => rfl
  | updateProperties g => exact map (h.writing (h.updateProperties ho)) fun _ => rfl
  | cascadeDelete ids => exact map (h.writing (h.cascadeDelete ids)) fun _ => rfl
  | readNodes ids => exact ⟨congrArg Reply.nodes (h.readNodes_eq ids), h⟩
  | incidentEdges ids =>
    obtain ⟨es, fs, hes, hfs, hnodup, hperm, _⟩ := h.exists_incidentEdges ids
    refine ⟨?_, h⟩
    show Reply.Agrees (.edges (Store.incidentEdges s ids)) (.edges (Store.incidentEdges t ids))
    rw [hes, hfs]
    exact ⟨hnodup, hperm⟩
  | datasetRoots => exact ⟨congrArg Reply.nodes h.datasetRoots_eq, h⟩
  | query q => exact ⟨h.query q, h⟩

theorem run (h : Same s t) {os : List Operation} (hos : ∀ o ∈ os, o.Survives) :
    List.Forall₂ Reply.Agrees (run s os).1 (run t os).1 ∧ Same (run s os).2 (run t os).2 := by
  induction os generalizing s t with
  | nil => exact ⟨List.Forall₂.nil, h⟩
  | cons o os ih =>
    obtain ⟨hagrees, hsame⟩ := h.perform (hos o List.mem_cons_self)
    obtain ⟨hreplies, hlast⟩ := ih hsame fun o ho => hos o (List.mem_cons_of_mem _ ho)
    exact ⟨List.Forall₂.cons hagrees hreplies, hlast⟩

end Same

/-- The two backends agree on every run whose values survive, step by step.  At its end, as at any
point of it, the edges of some nodes are on both exactly the stored ones that touch one of them. -/
theorem backends_agree {os : List Operation} (h : ∀ o ∈ os, o.Survives) :
    List.Forall₂ Reply.Agrees (run (Backend.empty : AdjacencyStore) os).1
      (run (Backend.empty : TableStore) os).1 ∧
    ∀ ids, ∃ es fs,
      Store.incidentEdges (run (Backend.empty : AdjacencyStore) os).2 ids = .ok es ∧
      Store.incidentEdges (run (Backend.empty : TableStore) os).2 ids = .ok fs ∧
      es.Nodup ∧ es.Perm fs ∧
      (∀ e, e ∈ es ↔ (∃ id ∈ ids, e.touches id = true) ∧
        ∃ f ∈ ListedBackend.allEdges (run (Backend.empty : AdjacencyStore) os).2, f.toEdge = .ok e) ∧
      ∀ e, e ∈ fs ↔ (∃ id ∈ ids, e.touches id = true) ∧
        ∃ f ∈ ListedBackend.allEdges (run (Backend.empty : TableStore) os).2, f.toEdge = .ok e := by
  obtain ⟨hreplies, hsame⟩ := Same.empty.run h
  refine ⟨hreplies, ?_⟩
  intro ids
  obtain ⟨es, fs, hes, hfs, hnodup, hperm, hmem⟩ := hsame.exists_incidentEdges ids
  refine ⟨es, fs, hes, hfs, hnodup, hperm, ?_, ?_⟩
  · intro e
    rw [hmem, holdsEdge_iff hsame.left.sound, and_comm]
  · intro e
    rw [← hperm.mem_iff, hmem, hsame.contents_eq, holdsEdge_iff hsame.right.sound, and_comm]

theorem survives_sharing (ids : List String) : (Graph.sharing ids).Survives := by
  refine ⟨?_, ?_⟩
  · intro n hn
    rcases List.mem_cons.1 hn with rfl | hn
    · intro k v hv
      rw [KeyMap.get?_insert] at hv
      split at hv
      · obtain rfl := Option.some.inj hv
        exact Json.survives_str _
      · cases hv
    · obtain ⟨id, _, rfl⟩ := List.mem_map.1 hn
      exact KeyMap.all_empty
  · intro e he
    obtain ⟨id, _, rfl⟩ := List.mem_map.1 he
    exact KeyMap.all_empty

theorem survives_contents_sharing (ids : List String) :
    (contents (sharing ids : TableStore)).Survives := by
  have hsame := (Same.empty.perform (o := .ingest (.sharing ids)) (survives_sharing ids)).2
  exact hsame.contents_eq ▸ hsame.survives

/-- They agree on what becomes of two datasets that share a file. -/
theorem backends_agree_on_sharing :
    (∀ o ∈ [.ingest (.sharing ["a", "b"]), .query { types := ["FileObject"] },
      .incidentEdges ["f", "f"], .cascadeDelete ["a"], .readNodes ["b", "f"]],
      Operation.Survives o) ∧
    List.Forall₂ Reply.Agrees
      (run (Backend.empty : AdjacencyStore) [.ingest (.sharing ["a", "b"]),
        .query { types := ["FileObject"] }, .incidentEdges ["f", "f"], .cascadeDelete ["a"],
        .readNodes ["b", "f"]]).1
      (run (Backend.empty : TableStore) [.ingest (.sharing ["a", "b"]),
        .query { types := ["FileObject"] }, .incidentEdges ["f", "f"], .cascadeDelete ["a"],
        .readNodes ["b", "f"]]).1 := by
  have h : ∀ o ∈ [.ingest (.sharing ["a", "b"]), .query { types := ["FileObject"] },
      .incidentEdges ["f", "f"], .cascadeDelete ["a"], .readNodes ["b", "f"]],
      Operation.Survives o := by
    intro o ho
    simp only [List.mem_cons, List.not_mem_nil, or_false] at ho
    rcases ho with rfl | rfl | rfl | rfl | rfl
    · exact survives_sharing ["a", "b"]
    all_goals trivial
  exact ⟨h, (backends_agree h).1⟩

end DatasetGraph
