import DatasetGraph.Proofs.Query.Reordering
import Mathlib

/-!
# Pages return the neighborhoods of their roots

With a root a page returns what hangs off it within the hop bound, as far as the query includes it,
and the stored edges between what is returned.  One rule is not seen from the nodes: an edge both of
whose ends lie at the hop bound is not followed by a walk, and so it is returned only where one of
its ends is nearer (`IsNear`) to a root with which both are returned.

What several roots have in common is returned once (`query_returns_neighborhoods`).
-/

namespace DatasetGraph

namespace Contents

section

variable (store : Contents) (c : Criteria) (root : String)

/-- A root is returned, and with it what hangs off it and is included. -/
def ReturnedWith (id : String) : Prop :=
  id = root ∨ ∃ n d, store.read? id = some n ∧ c.includes n = true ∧ 1 ≤ d ∧ d ≤ maxHops ∧
    store.Distance Node.isDependent root d id

/-- A node that is nearer to a root than the hop bound. -/
def IsNear (id : String) : Prop := ∃ d < maxHops, store.Distance Node.isDependent root d id

end

variable {store : Contents} {c : Criteria} {root id : String}

theorem ReturnedWith.within (h : store.ReturnedWith c root id) :
    store.Within Node.isDependent root maxHops id := by
  rcases h with rfl | ⟨n, d, -, -, -, hd, hdist⟩
  · exact ⟨0, Nat.zero_le _, .start⟩
  · exact ⟨d, hd, hdist.1⟩

theorem isNear_iff : store.IsNear root id ↔ ∃ k < maxHops, store.Path Node.isDependent root k id := by
  constructor
  · rintro ⟨d, hd, hdist⟩
    exact ⟨d, hd, hdist.1⟩
  · rintro ⟨k, hk, hpath⟩
    obtain ⟨d, hd, hdist⟩ := hpath.exists_distance
    exact ⟨d, by omega, hdist⟩

end Contents

/-! ## Parts in a row -/

theorem exists_mem_zipWith_iff {α β γ : Type} {R : α → β → Prop} {f : α → β → γ} {P : γ → Prop}
    {Q : α → Prop} (hf : ∀ x y, R x y → (P (f x y) ↔ Q x)) {xs : List α} {ys : List β}
    (h : List.Forall₂ R xs ys) : (∃ z ∈ List.zipWith f xs ys, P z) ↔ ∃ x ∈ xs, Q x := by
  induction h with
  | nil => simp
  | cons hxy _ ih => simp [hf _ _ hxy, ih]

/-! ## What is returned of one root -/

section

variable {store : Contents} {c : Criteria} {root : Node} {hood : Neighborhood}

/-- Everything that is returned with a root but the root itself is as it is stored. -/
theorem Found.read?_of_included (h : Found store root hood) {n : Node} (hn : n ∈ c.included hood) :
    store.read? n.id = some n ∧ c.includes n = true ∧ ∃ d, 1 ≤ d ∧ d ≤ maxHops ∧
      store.Distance Node.isDependent root.id d n.id := by
  obtain ⟨hmem, hincludes⟩ := List.mem_filter.1 hn
  obtain ⟨⟨m, d⟩, hm, rfl⟩ := List.mem_map.1 hmem
  obtain ⟨hread, hpos, hle, hdist⟩ := h.2.mem_nodes_iff.1 hm
  rw [h.1] at hdist
  exact ⟨hread, hincludes, d, hpos, hle, hdist⟩

theorem Found.mem_included (h : Found store root hood) {n : Node} {d : Nat}
    (hread : store.read? n.id = some n) (hincludes : c.includes n = true) (hpos : 1 ≤ d)
    (hle : d ≤ maxHops) (hdist : store.Distance Node.isDependent root.id d n.id) :
    n ∈ c.included hood := by
  rw [← h.1] at hdist
  have hmem : (n, d) ∈ hood.nodes := h.2.mem_nodes_iff.2 ⟨hread, hpos, hle, hdist⟩
  exact List.mem_filter.2 ⟨List.mem_map.2 ⟨(n, d), hmem, rfl⟩, hincludes⟩

theorem Found.mem_ids_iff (hstore : store.WellFormed) (h : Found store root hood) (id : String) :
    id ∈ (shown c root hood).1.map Node.id ↔ store.ReturnedWith c root.id id := by
  show id ∈ (c.project root).id :: (c.included hood).map Node.id ↔ _
  rw [List.mem_cons, project_id]
  apply or_congr_right
  constructor
  · intro hid
    obtain ⟨n, hn, rfl⟩ := List.mem_map.1 hid
    obtain ⟨hread, hincludes, d, hd⟩ := h.read?_of_included hn
    exact ⟨n, d, hread, hincludes, hd⟩
  · rintro ⟨n, d, hread, hincludes, hpos, hle, hdist⟩
    obtain rfl := hstore.read?_id hread
    exact List.mem_map_of_mem (h.mem_included hread hincludes hpos hle hdist)

theorem Found.mem_edges_iff (hstore : store.WellFormed) (h : Found store root hood) (e : Edge) :
    e ∈ (shown c root hood).2 ↔ store.HoldsEdge e ∧ store.ReturnedWith c root.id e.source ∧
      store.ReturnedWith c root.id e.target ∧
        (store.IsNear root.id e.source ∨ store.IsNear root.id e.target) := by
  -- Both ends are asked for by a look into the ids of the nodes of the part.
  have hends : ∀ id, (root.id :: (c.included hood).map Node.id).contains id = true ↔
      store.ReturnedWith c root.id id := by
    intro id
    rw [List.contains_iff_mem, ← h.mem_ids_iff hstore]
    show _ ↔ id ∈ (c.project root).id :: (c.included hood).map Node.id
    rw [project_id]
  have hnear : (∃ id k, k < maxHops ∧ store.Path Node.isDependent root.id k id ∧
      e.touches id = true) ↔ store.IsNear root.id e.source ∨ store.IsNear root.id e.target := by
    simp only [Contents.isNear_iff, Edge.touches_iff]
    grind
  show e ∈ hood.edges.filter (fun e => _ && _) ↔ _
  rw [List.mem_filter, h.2.mem_edges_iff, h.1, Bool.and_eq_true, hends, hends, hnear]
  constructor
  · rintro ⟨⟨hholds, -, -, hnear⟩, hsource, htarget⟩
    exact ⟨hholds, hsource, htarget, hnear⟩
  · rintro ⟨hholds, hsource, htarget, hnear⟩
    exact ⟨⟨hholds, hsource.within, htarget.within, hnear⟩, hsource, htarget⟩

end

/-! ## Pages -/

/-- What a page returns of the roots that are selected for it. -/
structure Page.Returns (store : Contents) (c : Criteria) (selected : List Node) (p : Page) :
    Prop where
  nodup_ids : (p.nodes.map Node.id).Nodup
  mem_ids_iff (id : String) :
    id ∈ p.nodes.map Node.id ↔ ∃ root ∈ selected, store.ReturnedWith c root.id id
  /-- All but the roots are as they are stored. -/
  whole : ∀ n ∈ p.nodes, n.id ∉ selected.map Node.id → store.read? n.id = some n
  nodup_keys : (p.edges.map Edge.key).Nodup
  mem_edges_iff (e : Edge) : e ∈ p.edges ↔ store.HoldsEdge e ∧ ∃ root ∈ selected,
    store.ReturnedWith c root.id e.source ∧ store.ReturnedWith c root.id e.target ∧
      (store.IsNear root.id e.source ∨ store.IsNear root.id e.target)
  ends_mem : ∀ e ∈ p.edges, e.source ∈ p.nodes.map Node.id ∧ e.target ∈ p.nodes.map Node.id

section

variable {store : Contents} {c : Criteria} {selected : List Node} {hoods : List Neighborhood}

theorem mem_ids_shownNodes_iff (hstore : store.WellFormed)
    (h : List.Forall₂ (Found store) selected hoods) (id : String) :
    id ∈ (shownNodes c selected hoods).map Node.id ↔
      ∃ root ∈ selected, store.ReturnedWith c root.id id := by
  rw [shownNodes, distinctNodes, mem_map_distinctOn, List.map_flatMap, List.mem_flatMap]
  exact exists_mem_zipWith_iff (fun _ _ hfound => hfound.mem_ids_iff hstore id) h

/-- A node of a page is a root of it, cut to the properties asked for, or as it is stored. -/
theorem eq_project_or_stored (h : List.Forall₂ (Found store) selected hoods) {n : Node}
    (hn : n ∈ shownNodes c selected hoods) :
    (∃ root ∈ selected, n = c.project root) ∨ store.read? n.id = some n := by
  obtain ⟨part, hpart, hn⟩ := List.mem_flatMap.1 ((distinctOn_sublist _ _).subset hn)
  obtain ⟨root, hroot, hood, hfound, rfl⟩ := exists_found_of_mem_parts h hpart
  rcases List.mem_cons.1 hn with rfl | hn
  · exact .inl ⟨root, hroot, rfl⟩
  · exact .inr (hfound.read?_of_included hn).1

theorem mem_shownEdges_iff (hstore : store.WellFormed)
    (h : List.Forall₂ (Found store) selected hoods) (e : Edge) :
    e ∈ shownEdges c selected hoods ↔ store.HoldsEdge e ∧ ∃ root ∈ selected,
      store.ReturnedWith c root.id e.source ∧ store.ReturnedWith c root.id e.target ∧
        (store.IsNear root.id e.source ∨ store.IsNear root.id e.target) := by
  rw [shownEdges, distinctEdges, mem_distinctOn_of_injOn (eq_of_fingerprint_eq hstore h), List.mem_flatMap]
  refine (exists_mem_zipWith_iff (fun _ _ hfound => hfound.mem_edges_iff hstore e) h).trans ?_
  grind

theorem nodup_keys_shownEdges (hstore : store.WellFormed)
    (h : List.Forall₂ (Found store) selected hoods) :
    ((shownEdges c selected hoods).map Edge.key).Nodup := by
  have hholds : ∀ e ∈ shownEdges c selected hoods, store.HoldsEdge e := fun e he =>
    ((mem_shownEdges_iff hstore h e).1 he).1
  refine List.Nodup.map_on ?_ (nodup_map_distinctOn Edge.fingerprint _).of_map
  intro e he f hf hkey
  exact hstore.eq_of_key_eq (hholds e he) (hholds f hf) hkey

theorem returns_shown (hstore : store.WellFormed) (h : List.Forall₂ (Found store) selected hoods)
    {p : Page} (hnodes : p.nodes = shownNodes c selected hoods)
    (hedges : p.edges = shownEdges c selected hoods) : p.Returns store c selected := by
  have hids := mem_ids_shownNodes_iff (c := c) hstore h
  have hmem := mem_shownEdges_iff (c := c) hstore h
  rw [← hnodes] at hids
  rw [← hedges] at hmem
  constructor
  case nodup_ids =>
    rw [hnodes]
    exact nodup_map_distinctOn Node.id _
  case mem_ids_iff => exact hids
  case whole =>
    intro n hn hroot
    rw [hnodes] at hn
    rcases eq_project_or_stored h hn with ⟨root, hmem, rfl⟩ | hread
    · rw [project_id] at hroot
      exact absurd (List.mem_map_of_mem hmem) hroot
    · exact hread
  case nodup_keys =>
    rw [hedges]
    exact nodup_keys_shownEdges hstore h
  case mem_edges_iff => exact hmem
  case ends_mem =>
    intro e he
    obtain ⟨-, root, hroot, hsource, htarget, -⟩ := (hmem e).1 he
    exact ⟨(hids _).2 ⟨root, hroot, hsource⟩, (hids _).2 ⟨root, hroot, htarget⟩⟩

end

section

variable {σ : Type} [LawfulBackend σ] {s : σ} {c : Criteria}

/-- A query that is not refused returns the union of the neighborhoods of the roots on its page, each
node and each edge once, unless it comes to something that cannot be read. -/
theorem query_returns_neighborhoods (h : Reachable s) {q : Query} (hc : q.criteria = .ok c) :
    ∃ roots : List Node, roots.Pairwise (fun m n => m.id < n.id) ∧
      (∀ n, n ∈ roots ↔ (contents s).Matches c n) ∧
      Store.AnswersWith s q c roots fun p =>
        p.Returns (contents s) c (slice (c.sortRoots roots) q.offset q.count) := by
  obtain ⟨roots, hroots, hsorted, hmem⟩ := h.valid.deepReader.exists_matching c
  obtain ⟨p, hp, hshows⟩ := h.valid.deepReader.exists_query hc hroots fun n hn => (hmem n).1 hn
  obtain ⟨hoods, hfound, hnodes, hedges⟩ := hshows.expands
  exact ⟨roots, hsorted, hmem, h.valid.answersWith hc hroots
    ⟨p, hp, returns_shown h.valid.wellFormed hfound hnodes hedges⟩⟩

end

/-! ## An edge at the hop bound -/

/-- A dataset, a chain of files that forks at its fourth hop, and a file behind one of the ends. -/
def Graph.fork : Graph where
  nodes := ⟨"r", ["Dataset"], .empty⟩ ::
    ["a", "b", "c", "d", "e", "f"].map fun id => ⟨id, ["FileObject"], .empty⟩
  edges := [("r", "a"), ("a", "b"), ("b", "c"), ("c", "d"), ("c", "e"), ("d", "e"), ("d", "f")].map
    fun (source, target) => ⟨source, target, ["containedIn"], .empty⟩

/-- The store after the fork is taken in. -/
def fork {σ : Type} [Backend σ] : σ := ((Operation.ingest .fork).perform Backend.empty).2

theorem reachable_fork {σ : Type} [Backend σ] : Reachable (fork : σ) := .perform .empty (.ingest .fork)

/-- Both ends of the fork are returned, and the edge between them is not. -/
theorem query_returns_fork :
    Reachable (fork : TableStore) ∧
    Query.criteria {} = .ok ⟨[], [], none, none, [], [], [], .ascending⟩ ∧
    ∃ roots p, Store.query (fork : TableStore) {} = .ok p ∧
      p.Returns (contents (fork : TableStore)) ⟨[], [], none, none, [], [], [], .ascending⟩
        (slice (Criteria.sortRoots ⟨[], [], none, none, [], [], [], .ascending⟩ roots) 0 10) ∧
      p.nodes.map Node.id = ["r", "a", "b", "c", "d", "e"] ∧
      p.edges.map (fun e => (e.source, e.target)) =
        [("r", "a"), ("a", "b"), ("b", "c"), ("c", "d"), ("c", "e")] := by
  have hcriteria : Query.criteria {} = .ok ⟨[], [], none, none, [], [], [], .ascending⟩ := rfl
  have hpage : ((Store.query (fork : TableStore) {}).map fun p =>
      (p.nodes.map Node.id, p.edges.map fun e => (e.source, e.target))).toOption =
        some (["r", "a", "b", "c", "d", "e"],
          [("r", "a"), ("a", "b"), ("b", "c"), ("c", "d"), ("c", "e")]) := by
    cbv
  obtain ⟨roots, -, -, hanswers⟩ :=
    query_returns_neighborhoods (reachable_fork (σ := TableStore)) hcriteria
  cases hp : Store.query (fork : TableStore) {} with
  | error fault =>
    rw [hp] at hpage
    cases hpage
  | ok p =>
    rw [hp] at hpage
    obtain ⟨hnodes, hedges⟩ := Prod.mk.inj (Option.some.inj hpage)
    exact ⟨reachable_fork, hcriteria, roots, p, rfl, hanswers.of_eq_ok hp, hnodes, hedges⟩

end DatasetGraph
