import DatasetGraph.Proofs.Query.Selection
import DatasetGraph.Proofs.Store.Adjacency
import DatasetGraph.Proofs.Store.Cascade
import DatasetGraph.Proofs.Store.Legibility
import DatasetGraph.Proofs.Store.Table

/-!
# What holds of every reachable store

On either backend, whatever was done to a store and whether it succeeded or not, what is stored is
well-formed (`Intact`).  So what is asked of it can fail for one reason only, which is that some of
the properties cannot be read (`FailsOnUnreadable`); where all can be, nothing fails (`Answers`).
-/

namespace DatasetGraph

open ListedBackend (allNodes allEdges)

section

variable {σ : Type}

/-- What holds of everything that is stored. -/
structure Intact [ListedBackend σ] (s : σ) : Prop where
  id_ne : ∀ n ∈ allNodes s, n.id ≠ ""
  nodup_ids : ((allNodes s).map StoredNode.id).Nodup
  nodup_labels : ∀ n ∈ allNodes s, n.labels.Nodup
  label : ∀ n ∈ allNodes s, ∀ l ∈ n.labels, ∃ t, t ≠ "" ∧ l.text = Identifier.escape t
  source_stored : ∀ e ∈ allEdges s, ∃ n ∈ allNodes s, n.id = e.source
  target_stored : ∀ e ∈ allEdges s, ∃ n ∈ allNodes s, n.id = e.target
  type : ∀ e ∈ allEdges s, ∃ t, t ≠ "" ∧ e.type.text = Identifier.escape t
  nodup_keys : ((allEdges s).map StoredEdge.key).Nodup
  node_value : ∀ n ∈ allNodes s, ∀ k v, n.properties.get? k = some v → v ≠ .null ∧ v ≠ .arr []
  edge_value : ∀ e ∈ allEdges s, ∀ k v, e.properties.get? k = some v → v ≠ .null ∧ v ≠ .arr []

/-- Nothing that is asked of a store fails, except a query that names something unknown. -/
structure Answers [Backend σ] (s : σ) : Prop where
  readNodes : ∀ ids, ∃ ns, Store.readNodes s ids = .ok ns
  incidentEdges : ∀ ids, ∃ es, Store.incidentEdges s ids = .ok es
  datasetRoots : ∃ ns, Store.datasetRoots s = .ok ns
  walk : ∀ root hops pass, ∃ hood, Store.walk s root hops pass = .ok hood
  cascadeDelete : ∀ ids, ∃ r, Store.cascadeDelete s ids = .ok r
  query : ∀ q c, q.criteria = .ok c → ∃ p, Store.query s q = .ok p

open Fallible in
/-- What is asked of a store fails exactly if it comes to something that cannot be read. -/
structure FailsOnUnreadable [LawfulBackend σ] (s : σ) : Prop where
  readNodes : ∀ ids, FailsIf .unreadable (∃ id ∈ ids, NodeUnreadable s id) (Store.readNodes s ids)
  incidentEdges : ∀ ids,
    FailsIf .unreadable (∃ id ∈ ids, EdgeUnreadable s id) (Store.incidentEdges s ids)
  datasetRoots : FailsIf .unreadable (DatasetUnreadable s) (Store.datasetRoots s)
  walk : ∀ root hops pass,
    FailsIf .unreadable (WalkUnreadable s root hops pass) (Store.walk s root hops pass)
  cascadeDelete : ∀ ids, FailsIf .unreadable (DeletionUnreadable s ids) (Store.cascadeDelete s ids)
  query : ∀ q c, q.criteria = .ok c → ∃ roots : List Node,
    roots.Pairwise (fun m n => m.id < n.id) ∧ (∀ n, n ∈ roots ↔ (contents s).Matches c n) ∧
      FailsIf (.store .unreadable) (PageUnreadable s c roots q.offset q.count) (Store.query s q)

variable [LawfulBackend σ] {s : σ}

theorem Json.IsKept.ne {v : Json} (h : v.IsKept) : v ≠ .null ∧ v ≠ .arr [] := by
  refine ⟨?_, h.2⟩
  rintro rfl
  cases h.1

theorem Valid.intact (hs : Valid s) : Intact s := by
  have hnode : ∀ {n}, n ∈ allNodes s → n.WellFormed := by
    intro n hn
    exact hs.wellFormed.node ((mem_allNodes_iff hs.sound).1 hn)
  have hedge : ∀ {e}, e ∈ allEdges s → (contents s).edge? e.key = some e.properties := by
    intro e he
    exact (mem_allEdges_iff hs.sound).1 he
  have hstored : ∀ {id}, ((contents s).node? id).isSome = true → ∃ n ∈ allNodes s, n.id = id := by
    intro id hid
    obtain ⟨n, hn⟩ := Option.isSome_iff_exists.1 hid
    exact ⟨n, (LawfulBackend.node?_eq_some_iff hs.sound).1 hn⟩
  constructor
  case id_ne => exact fun n hn => (hnode hn).id_ne
  case nodup_ids => exact LawfulBackend.nodup_ids hs.sound
  case nodup_labels => exact fun n hn => (hnode hn).nodup_labels
  case label => exact fun n hn => (hnode hn).proper
  case source_stored => exact fun e he => hstored (hs.wellFormed.source_stored (hedge he))
  case target_stored => exact fun e he => hstored (hs.wellFormed.target_stored (hedge he))
  case type => exact fun e he => (hs.wellFormed.edge (hedge he)).proper
  case nodup_keys => exact LawfulBackend.nodup_keys hs.sound
  case node_value => exact fun n hn k v hv => ((hnode hn).kept k v hv).ne
  case edge_value => exact fun e he k v hv => ((hs.wellFormed.edge (hedge he)).kept k v hv).ne

theorem Valid.failsOnUnreadable (hs : Valid s) : FailsOnUnreadable s := by
  classical
  constructor
  case readNodes => exact fun ids => .of_eq_ite (hs.readNodes_eq_ite ids) ⟨_, rfl⟩
  case incidentEdges =>
    intro ids
    obtain ⟨es, hes, _⟩ := hs.exists_incidentEdges_eq_ite ids
    exact .of_eq_ite hes ⟨es, rfl⟩
  case datasetRoots =>
    obtain ⟨ns, hns, _⟩ := hs.exists_datasetRoots_eq_ite
    exact .of_eq_ite hns ⟨ns, rfl⟩
  case walk =>
    exact fun root hops pass =>
      .of_eq_ite (hs.walk_eq_ite root hops pass) (hs.deepReader.exists_walk root hops pass)
  case cascadeDelete =>
    intro ids
    obtain ⟨_, _, _, hdelete⟩ := hs.exists_cascadeDelete_eq ids
    exact .of_eq_ite hdelete ⟨_, rfl⟩
  case query =>
    intro q c hc
    obtain ⟨roots, hroots, hsorted, hmem⟩ := hs.deepReader.exists_matching c
    obtain ⟨p, hp, _⟩ := hs.deepReader.exists_query hc hroots fun n hn => (hmem n).1 hn
    exact ⟨roots, hsorted, hmem, .of_eq_ite (hs.query_eq_ite hc hroots) ⟨p, hp⟩⟩

/-- Where all can be read, nothing fails. -/
theorem FailsOnUnreadable.answers (h : FailsOnUnreadable s) (hlegible : Legible s) : Answers s := by
  constructor
  case readNodes =>
    exact fun ids => (h.readNodes ids).exists_ok fun ⟨id, _, hid⟩ => hlegible.node id hid
  case incidentEdges =>
    exact fun ids => (h.incidentEdges ids).exists_ok fun ⟨id, _, hid⟩ => hlegible.edge id hid
  case datasetRoots => exact h.datasetRoots.exists_ok hlegible.not_datasetUnreadable
  case walk =>
    exact fun root hops pass =>
      (h.walk root hops pass).exists_ok (hlegible.not_walkUnreadable root hops pass)
  case cascadeDelete =>
    exact fun ids => (h.cascadeDelete ids).exists_ok (hlegible.not_deletionUnreadable ids)
  case query =>
    intro q c hc
    obtain ⟨roots, _, _, hquery⟩ := h.query q c hc
    exact hquery.exists_ok (hlegible.not_pageUnreadable c roots q.offset q.count)

end

/-- Every reachable store is intact, on either backend.  In memory the index leads from an id to a
place exactly if the node at that place has the id, and nothing that is asked of the store fails.  In
tables it fails exactly if it comes to properties that cannot be read, and there are none unless some
that are nested too deep were written. -/
theorem reachable_intact :
    (∀ s : AdjacencyStore, Reachable s → Intact s ∧ Answers s ∧
      ∀ id place, s.index.get? id = some place ↔ ∃ n, s.at? place = some n ∧ n.id = id) ∧
    (∀ s : TableStore, Reachable s →
      Intact s ∧ FailsOnUnreadable s ∧ (Legible s → Answers s)) ∧
    ∀ os : List Operation, (∀ o ∈ os, o.BringsLegible TableStore) →
      Legible (run (Backend.empty : TableStore) os).2 := by
  refine ⟨?_, ?_, ?_⟩
  · intro s h
    have hsound : s.Sound := h.valid.sound
    exact ⟨h.valid.intact, h.valid.failsOnUnreadable.answers (legible_of_readsAll s),
      hsound.index_iff⟩
  · intro s h
    exact ⟨h.valid.intact, h.valid.failsOnUnreadable, h.valid.failsOnUnreadable.answers⟩
  · exact fun os hos => legible_empty_store.run valid_empty hos

/-- A property of so many nested lists is written to tables, and cannot be read from them. -/
example :
    let g : Graph := ⟨[⟨"n", [], KeyMap.empty.insert "x" (Nat.repeat (fun v => .arr [v]) 127 .null)⟩], []⟩
    let s : TableStore := (run Backend.empty [.upsertNodes g]).2
    (Backend.node? s "n").isSome = true ∧ (Store.readNodes s ["n"]).isOk = false := by
  decide +kernel

/-- Two datasets that share a file are such stores. -/
theorem intact_sharing :
    (Reachable (sharing ["a", "b"] : AdjacencyStore) ∧
      Intact (sharing ["a", "b"] : AdjacencyStore) ∧ Answers (sharing ["a", "b"] : AdjacencyStore)) ∧
    Reachable (sharing ["a", "b"] : TableStore) ∧
      Intact (sharing ["a", "b"] : TableStore) ∧ Answers (sharing ["a", "b"] : TableStore) := by
  obtain ⟨hmemory, htables, hlegible⟩ := reachable_intact
  obtain ⟨hintact, hanswers, _⟩ := hmemory _ (reachable_sharing ["a", "b"])
  obtain ⟨hintact', _, hanswers'⟩ := htables _ (reachable_sharing ["a", "b"])
  refine ⟨⟨reachable_sharing _, hintact, hanswers⟩, reachable_sharing _, hintact', hanswers' ?_⟩
  exact hlegible [.ingest (.sharing ["a", "b"])]
    (List.forall_mem_singleton.2 (isLegible_sharing ["a", "b"]))

end DatasetGraph
