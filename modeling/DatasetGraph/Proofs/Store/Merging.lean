import DatasetGraph.Proofs.Store.Absorption
import DatasetGraph.Proofs.Store.Reingest

/-!
# Listed or merged

Elements that repeat can be taken in as they are listed (`Graph.listing`), or as the graph that is
put together from them.  Either way an ingest fails for the same elements, and in memory it leaves
one and the same store: elements without `null`, whose edges have one label each, are absorbed.

In tables it leaves the same nodes and relationships with the same labels, and values that differ
only in how often they were settled (`laidOver_eq_map`): each element of a list that is written under
an id or key settles the values there once more, while what was merged before is written but once.
So it leaves the same exactly if values that were settled once are settled (`Contents.SettlesAtOnce`),
and there are doubles of which this is not true.
-/

namespace DatasetGraph

/-! ## Values that are settled once -/

/-- How often a value has been settled on which others were laid: once for each of them from that
which brought it. -/
def settlings (ws : List (Option Json)) : Nat :=
  ws.foldl (fun n w => if w.isSome then 1 else n + 1) 0

section

variable {settle : Json → Json} {v : Option Json}

theorem settlings_append_singleton (ws : List (Option Json)) (w : Option Json) :
    settlings (ws ++ [w]) = if w.isSome then 1 else settlings ws + 1 :=
  List.foldl_append

theorem settlings_ne_zero {ws : List (Option Json)} (h : ws ≠ []) : settlings ws ≠ 0 := by
  obtain ⟨us, w, rfl⟩ := (List.eq_nil_or_concat' ws).resolve_left h
  rw [settlings_append_singleton]
  split <;> omega

theorem settlings_singleton (w : Option Json) : settlings [w] = 1 := by
  cases w <;> rfl

/-- What is laid over a value differs from what it would be without settling in nothing else. -/
theorem laidOver_eq_map (v : Option Json) (ws : List (Option Json)) :
    laidOver settle v ws = (laidOver id v ws).map settle^[settlings ws] := by
  induction ws using List.reverseRecOn with
  | nil => exact Option.map_id'.symm
  | append_singleton ws w ih =>
    rw [laidOver_append, laidOver_append, settlings_append_singleton, ih]
    show ((w.or _).map settle) = ((w.or _).map id).map _
    rw [Option.map_id]
    cases w with
    | some x => rfl
    | none =>
      rw [Option.none_or, Option.none_or, Option.map_map, if_neg (by decide),
        Function.iterate_succ', id]

/-- Values laid over one at once, rather than one after the other, leave the same exactly if what is
left is settled the first time. -/
theorem laidOver_eq_iff {us ws : List (Option Json)} (hlength : us.length ≤ 1)
    (hnil : us = [] ↔ ws = []) (hsame : laidOver id v us = laidOver id v ws) :
    laidOver settle v us = laidOver settle v ws ↔
      ∀ x, laidOver id v ws = some x → settlings ws ≠ 0 → settle^[settlings ws] x = settle x := by
  rw [laidOver_eq_map v us, laidOver_eq_map v ws, hsame]
  match us, hlength with
  | [], _ =>
    rw [hnil.1 rfl]
    exact iff_of_true rfl fun _ _ h => absurd rfl h
  | [w], _ =>
    have hws : settlings ws ≠ 0 := settlings_ne_zero (mt hnil.2 (List.cons_ne_nil w []))
    rw [settlings_singleton]
    cases laidOver id v ws with
    | none => exact iff_of_true rfl nofun
    | some x =>
      rw [Option.map_some, Option.map_some, Function.iterate_one, Option.some.injEq]
      constructor
      · rintro hx _ ⟨⟩ _
        exact hx.symm
      · exact fun hx => (hx x rfl hws).symm

end

/-! ## Listed and merged elements -/

namespace Graph

/-- Elements as they are listed. -/
def listing (xs : List Element) : Graph := ⟨nodesAmong xs, edgesAmong xs⟩

variable {xs : List Element}

/-- An empty label that is written is among the elements exactly if it is in the graph. -/
theorem writableNodes_ofElements : (ofElements xs).WritableNodes ↔ (listing xs).WritableNodes := by
  constructor
  · intro h m hm hid hempty
    have hmem : m.id ∈ (ofElements xs).nodes.map Node.id := by
      rw [map_id_nodes, mem_distinct]
      exact List.mem_map_of_mem hm
    obtain ⟨n, hn, hnm⟩ := List.mem_map.1 hmem
    exact h n hn (hnm ▸ hid)
      ((mem_labels_iff hn).2 ⟨m, mem_nodesAmong.1 hm, hnm.symm, hempty⟩)
  · intro h n hn hid hempty
    obtain ⟨m, hm, hmn, hempty⟩ := (mem_labels_iff hn).1 hempty
    exact h m (mem_nodesAmong.2 hm) (hmn ▸ hid) hempty

theorem map_key_edges (xs : List Element) :
    (ofElements xs).edges.map Edge.key = distinct ((edgesAmong xs).map Edge.key) := by
  rw [edges_ofElements_eq_mergedBy]
  exact map_mergedBy (by intro e f; rfl) _

theorem writableEdges_iff {g : Graph} :
    g.WritableEdges ↔ ∀ k ∈ g.edges.map Edge.key, "" ∉ k.labels := by
  rw [List.forall_mem_map]
  refine forall₂_congr fun e _ => not_congr ?_
  rw [Edge.key, mem_sortTexts]

theorem writableEdges_ofElements : (ofElements xs).WritableEdges ↔ (listing xs).WritableEdges := by
  rw [writableEdges_iff, writableEdges_iff, map_key_edges]
  simp only [mem_distinct]
  rfl

end Graph

/-! ## Elements that are absorbed -/

/-- Elements without `null`, whose edges have one label each. -/
structure Absorbable (xs : List Element) : Prop where
  node {n : Node} : .node n ∈ xs → n.properties.NotNull
  edge {e : Edge} : .edge e ∈ xs → e.Single

section

variable {β : Type} {Sound : β → Prop} {b : β} {xs : List Element}

theorem Graph.foldl_storedNodes (g : Graph) (f : β → StoredNode → β) (b : β) :
    g.storedNodes.foldl f b =
      g.nodes.foldl (fun b n => if n.id = "" then b else f b n.stored) b := by
  rw [storedNodes, List.foldl_map, List.foldl_filter]
  congr 1
  funext b n
  by_cases hid : n.id = "" <;> simp [hid]

theorem Graph.foldl_storedEdges (g : Graph) (taken : StoredEdge → Bool) (f : β → StoredEdge → β)
    (b : β) : (g.storedEdges.filter taken).foldl f b =
      g.edges.foldl (fun b e => (e.stored.filter taken).foldl f b) b := by
  rw [storedEdges, List.filter_flatMap, List.foldl_flatMap]

/-- Where stored nodes are absorbed, elements may be merged before their nodes are written. -/
theorem Absorbs.foldl_storedNodes {f : β → StoredNode → β} {Known : β → String → Prop}
    (h : Absorbs StoredNode.id StoredNode.merge f (fun _ => True) Sound Known)
    (hxs : Absorbable xs) (hb : Sound b) :
    (Graph.ofElements xs).storedNodes.foldl f b = (Graph.listing xs).storedNodes.foldl f b := by
  rw [Graph.foldl_storedNodes, Graph.foldl_storedNodes, Graph.nodes_ofElements]
  exact h.nodes.foldl_mergedBy hb fun n hn => hxs.node (Graph.mem_nodesAmong.1 hn)

/-- Where relationships are absorbed, elements may be merged before their edges are written. -/
theorem Absorbs.foldl_storedEdges {f : β → StoredEdge → β} {Known : β → RelationKey → Prop}
    (h : Absorbs StoredEdge.key StoredEdge.merge f (fun _ => True) Sound Known)
    {taken : StoredEdge → Bool} (htaken : ∀ d d', d.key = d'.key → taken d = taken d')
    (hxs : Absorbable xs) (hb : Sound b) :
    ((Graph.ofElements xs).storedEdges.filter taken).foldl f b =
      ((Graph.listing xs).storedEdges.filter taken).foldl f b := by
  rw [Graph.foldl_storedEdges, Graph.foldl_storedEdges, Graph.edges_ofElements_eq_mergedBy]
  exact (h.edges htaken).foldl_mergedBy hb fun e he => hxs.edge (Graph.mem_edgesAmong.1 he)

end

/-! ## Contents under elements -/

section

variable {xs : List Element}

theorem mem_storedIds_ofElements {id : String} :
    id ∈ (Graph.ofElements xs).storedIds ↔ id ∈ (Graph.listing xs).storedIds := by
  have hstored : ∀ g : Graph, id ∈ g.storedIds ↔ id ≠ "" ∧ id ∈ g.nodes.map Node.id := by
    intro g
    rw [Graph.storedIds, List.mem_map, List.mem_map]
    constructor
    · rintro ⟨m, hm, rfl⟩
      obtain ⟨n, hn, hne, rfl⟩ := Graph.mem_storedNodes.1 hm
      exact ⟨hne, n, hn, rfl⟩
    · rintro ⟨hne, n, hn, rfl⟩
      exact ⟨n.stored, Graph.mem_storedNodes.2 ⟨n, hn, hne, rfl⟩, rfl⟩
  rw [hstored, hstored, Graph.map_id_nodes, mem_distinct]
  rfl

theorem nodup_storedIds_ofElements (xs : List Element) : (Graph.ofElements xs).storedIds.Nodup := by
  rw [Graph.storedIds, Graph.storedNodes, List.map_map]
  exact (List.filter_sublist.map Node.id).nodup (Graph.nodup_map_id_nodes xs)

namespace Absorbable

theorem single_of_mem_edges (hxs : Absorbable xs) :
    ∀ e ∈ (Graph.ofElements xs).edges, e.Single := by
  rw [Graph.edges_ofElements_eq_mergedBy]
  exact forall_mem_mergedBy (fun _ _ => Edge.Single.merge)
    fun e he => hxs.edge (Graph.mem_edgesAmong.1 he)

theorem single_of_mem_listing (hxs : Absorbable xs) : ∀ e ∈ (Graph.listing xs).edges, e.Single :=
  fun _ he => hxs.edge (Graph.mem_edgesAmong.1 he)

end Absorbable

end

/-- Edges with one label whose keys are among those of others have their relationships among theirs. -/
theorem Graph.mem_keys_storedEdges {g h : Graph} (hg : ∀ e ∈ g.edges, e.Single)
    (hh : ∀ e ∈ h.edges, e.Single) (hkeys : ∀ k ∈ g.edges.map Edge.key, k ∈ h.edges.map Edge.key)
    {k : RelationKey} (hk : k ∈ g.storedEdges.map StoredEdge.key) :
    k ∈ h.storedEdges.map StoredEdge.key := by
  obtain ⟨f, hf, rfl⟩ := List.mem_map.1 hk
  obtain ⟨e, he, hf⟩ := mem_storedEdges.1 hf
  obtain ⟨d, hd, hde⟩ := List.mem_map.1 (hkeys e.key (List.mem_map_of_mem he))
  obtain ⟨l, hl⟩ := (hg e he).labels
  obtain ⟨j, hj⟩ := (hh d hd).labels
  rw [Edge.stored_of_labels hl, List.mem_singleton] at hf
  rw [hf, ← (Edge.key_relation_eq_iff hj hl).2 hde]
  refine List.mem_map_of_mem (mem_storedEdges.2 ⟨d, hd, ?_⟩)
  rw [Edge.stored_of_labels hj]
  exact List.mem_singleton_self _

namespace Absorbable

variable {xs : List Element}

theorem mem_keys_storedEdges_iff (hxs : Absorbable xs) {k : RelationKey} :
    k ∈ (Graph.ofElements xs).storedEdges.map StoredEdge.key ↔
      k ∈ (Graph.listing xs).storedEdges.map StoredEdge.key := by
  constructor
  · apply Graph.mem_keys_storedEdges hxs.single_of_mem_edges hxs.single_of_mem_listing
    rw [Graph.map_key_edges]
    exact fun k hk => mem_distinct.1 hk
  · apply Graph.mem_keys_storedEdges hxs.single_of_mem_listing hxs.single_of_mem_edges
    rw [Graph.map_key_edges]
    exact fun k hk => mem_distinct.2 hk

theorem nodup_keys_storedEdges (hxs : Absorbable xs) :
    ((Graph.ofElements xs).storedEdges.map StoredEdge.key).Nodup := by
  have hkeys : ((Graph.ofElements xs).edges.map Edge.key).Nodup := by
    rw [Graph.map_key_edges]
    exact nodup_distinct _
  rw [List.Nodup, List.pairwise_map] at hkeys
  rw [Graph.storedEdges, List.Nodup, List.pairwise_map, List.pairwise_flatMap]
  constructor
  · intro e he
    obtain ⟨l, hl⟩ := (hxs.single_of_mem_edges e he).labels
    rw [Edge.stored_of_labels hl]
    exact List.pairwise_singleton _ _
  · refine (List.Pairwise.and_mem.1 hkeys).imp ?_
    rintro e e' ⟨he, he', hne⟩ f hf f' hf'
    obtain ⟨l, hl⟩ := (hxs.single_of_mem_edges e he).labels
    obtain ⟨l', hl'⟩ := (hxs.single_of_mem_edges e' he').labels
    rw [Edge.stored_of_labels hl, List.mem_singleton] at hf
    rw [Edge.stored_of_labels hl', List.mem_singleton] at hf'
    rw [hf, hf']
    exact mt (Edge.key_relation_eq_iff hl hl').1 hne

end Absorbable

/-- Whether the ends of a relationship are stored can be seen by its key. -/
theorem Contents.mem_keys_filter_joins {c : Contents} {es : List StoredEdge} {k : RelationKey} :
    k ∈ (es.filter c.joins).map StoredEdge.key ↔
      k ∈ es.map StoredEdge.key ∧ c.joins (k.withProperties .empty) = true := by
  constructor
  · intro hk
    obtain ⟨e, he, rfl⟩ := List.mem_map.1 hk
    obtain ⟨he, hends⟩ := List.mem_filter.1 he
    exact ⟨List.mem_map_of_mem he, hends⟩
  · rintro ⟨hk, hends⟩
    obtain ⟨e, he, rfl⟩ := List.mem_map.1 hk
    exact List.mem_map_of_mem (List.mem_filter.2 ⟨he, hends⟩)

/-- Of members whose keys come once, at most one has a key. -/
theorem length_map_filter_le_one {α β κ : Type} [DecidableEq κ] {key : α → κ} {xs : List α}
    (h : (xs.map key).Nodup) (k : κ) (f : α → β) :
    ((xs.filter fun x => key x = k).map f).length ≤ 1 := by
  rw [List.length_map, ← List.countP_eq_length_filter]
  calc xs.countP (fun x => key x = k)
    _ = (xs.map key).count k := by
      rw [List.count, List.countP_map]
      apply List.countP_congr
      intro x _
      simp
    _ ≤ 1 := List.nodup_iff_count_le_one.1 h k

theorem map_filter_eq_nil_iff {α β κ : Type} [DecidableEq κ] {key : α → κ} {xs : List α} {k : κ}
    {f : α → β} : (xs.filter fun x => key x = k).map f = [] ↔ k ∉ xs.map key := by
  simp [List.filter_eq_nil_iff]

namespace Contents

variable {settle : Json → Json} {c : Contents} {g : Graph} {xs : List Element}

/-- What an ingest would leave if all values were kept as they are written. -/
def unsettled (c : Contents) (g : Graph) : Contents := c.ingest id g

theorem upToValues_mergeNodes (settle settle' : Json → Json) (c : Contents)
    (ns : List StoredNode) : (c.mergeNodes settle ns).UpToValues (c.mergeNodes settle' ns) where
  node i := by rw [Bool.eq_iff_iff, isSome_node?_mergeNodes, isSome_node?_mergeNodes]
  labels i := by rw [labels_mergeNodes, labels_mergeNodes]
  edge k := by rw [edge?_mergeNodes, edge?_mergeNodes]

theorem upToValues_ingest (settle settle' : Json → Json) (c : Contents) (g : Graph) :
    (c.ingest settle g).UpToValues (c.ingest settle' g) := by
  have hnodes := upToValues_mergeNodes settle settle' c g.storedNodes
  have hnode : ∀ i, ((c.ingest settle g).node? i).isSome = ((c.ingest settle' g).node? i).isSome := by
    intro i
    rw [ingest, ingest, node?_mergeEdges, node?_mergeEdges, hnodes.node]
  constructor
  case node => exact hnode
  case labels =>
    intro i
    rw [labels, labels, ingest, ingest, node?_mergeEdges, node?_mergeEdges]
    exact hnodes.labels i
  case edge =>
    intro k
    rw [Bool.eq_iff_iff, isSome_edge?_ingest, isSome_edge?_ingest, hnode, hnode]

/-- Contents whose values are kept hold the same after elements are written listed or merged. -/
theorem mergeNodes_ofElements (c : Contents) (hxs : Absorbable xs) :
    c.mergeNodes id (Graph.ofElements xs).storedNodes =
      c.mergeNodes id (Graph.listing xs).storedNodes :=
  absorbs_nodes.foldl_storedNodes hxs trivial

theorem unsettled_ofElements (c : Contents) (hxs : Absorbable xs) :
    c.unsettled (Graph.ofElements xs) = c.unsettled (Graph.listing xs) := by
  rw [unsettled, unsettled, ingest, ingest, c.mergeNodes_ofElements hxs]
  exact absorbs_edges.foldl_storedEdges (joins_congr_key _) hxs trivial

theorem upToValues_mergeNodes_ofElements (settle : Json → Json) (c : Contents)
    (hxs : Absorbable xs) : (c.mergeNodes settle (Graph.ofElements xs).storedNodes).UpToValues
      (c.mergeNodes settle (Graph.listing xs).storedNodes) := by
  have h := upToValues_mergeNodes settle id c (Graph.ofElements xs).storedNodes
  rw [c.mergeNodes_ofElements hxs] at h
  exact h.trans (upToValues_mergeNodes id settle c _)

theorem upToValues_ingest_ofElements (settle : Json → Json) (c : Contents) (hxs : Absorbable xs) :
    (c.ingest settle (Graph.ofElements xs)).UpToValues
      (c.ingest settle (Graph.listing xs)) := by
  have h := upToValues_ingest settle id c (Graph.ofElements xs)
  rw [← unsettled, c.unsettled_ofElements hxs] at h
  exact h.trans (upToValues_ingest id settle c _)

/-- The values of a relationship are laid over each other if its ends are stored by then. -/
theorem relationValue?_ingest_eq (c : Contents) (g : Graph) (k : RelationKey) (key : String) :
    (c.ingest settle g).relationValue? k key =
      if (c.unsettled g).joins (k.withProperties .empty) then
        laidOver settle (c.relationValue? k key) (relationValuesOf g.storedEdges k key)
      else c.relationValue? k key := by
  have hjoins : (c.mergeNodes settle g.storedNodes).joins = (c.unsettled g).joins := by
    apply joins_congr
    intro i
    rw [unsettled, ingest, node?_mergeEdges]
    exact (upToValues_mergeNodes settle id c g.storedNodes).node i
  rw [relationValue?_ingest, relationValue?_layEdges, hjoins, relationValuesOf, filter_key_joins]
  split <;> rfl

/-- The values that the nodes of a graph leave are settled once they were settled at all. -/
def SettlesNodesAtOnce (settle : Json → Json) (c : Contents) (g : Graph) : Prop :=
  ∀ id key v, (c.unsettled g).value? id key = some v →
    settlings (valuesOf g.storedNodes id key) ≠ 0 →
    settle^[settlings (valuesOf g.storedNodes id key)] v = settle v

/-- The values that the edges of a graph leave are settled once they were settled at all. -/
def SettlesEdgesAtOnce (settle : Json → Json) (c : Contents) (g : Graph) : Prop :=
  ∀ k key v, (c.unsettled g).relationValue? k key = some v →
    settlings (relationValuesOf g.storedEdges k key) ≠ 0 →
    settle^[settlings (relationValuesOf g.storedEdges k key)] v = settle v

theorem value?_unsettled (c : Contents) (g : Graph) (i key : String) :
    (c.unsettled g).value? i key = laidOver id (c.value? i key) (valuesOf g.storedNodes i key) := by
  rw [unsettled, value?_ingest, value?_mergeNodes]

/-- Nodes leave a value the same, listed or merged, exactly if it is settled the first time. -/
theorem value?_ofElements_iff (c : Contents) (hxs : Absorbable xs) (i key : String) :
    (c.mergeNodes settle (Graph.ofElements xs).storedNodes).value? i key =
        (c.mergeNodes settle (Graph.listing xs).storedNodes).value? i key ↔
      ∀ v, (c.unsettled (Graph.listing xs)).value? i key = some v →
        settlings (valuesOf (Graph.listing xs).storedNodes i key) ≠ 0 →
        settle^[settlings (valuesOf (Graph.listing xs).storedNodes i key)] v = settle v := by
  rw [value?_mergeNodes, value?_mergeNodes, value?_unsettled]
  apply laidOver_eq_iff
  · exact length_map_filter_le_one (nodup_storedIds_ofElements xs) i _
  · rw [valuesOf, valuesOf, map_filter_eq_nil_iff, map_filter_eq_nil_iff]
    exact not_congr mem_storedIds_ofElements
  · rw [← value?_unsettled, ← value?_unsettled, c.unsettled_ofElements hxs]

/-- Relationships leave a value the same, listed or merged, exactly if it is settled the first
time. -/
theorem WellFormed.relationValue?_ofElements_iff (hc : c.WellFormed) (hxs : Absorbable xs)
    (k : RelationKey) (key : String) :
    (c.ingest settle (Graph.ofElements xs)).relationValue? k key =
        (c.ingest settle (Graph.listing xs)).relationValue? k key ↔
      ∀ v, (c.unsettled (Graph.listing xs)).relationValue? k key = some v →
        settlings (relationValuesOf (Graph.listing xs).storedEdges k key) ≠ 0 →
        settle^[settlings (relationValuesOf (Graph.listing xs).storedEdges k key)] v = settle v := by
  have hkept : ∀ g, (c.unsettled g).relationValue? k key = _ :=
    fun g => c.relationValue?_ingest_eq g k key
  have hsame := hkept (Graph.ofElements xs)
  rw [c.unsettled_ofElements hxs, hkept (Graph.listing xs)] at hsame
  rw [relationValue?_ingest_eq, relationValue?_ingest_eq, hkept, c.unsettled_ofElements hxs]
  by_cases hends : (c.unsettled (Graph.listing xs)).joins (k.withProperties .empty) = true
  · simp only [if_pos hends] at hsame ⊢
    apply laidOver_eq_iff
    · exact length_map_filter_le_one hxs.nodup_keys_storedEdges k _
    · rw [relationValuesOf, relationValuesOf, map_filter_eq_nil_iff, map_filter_eq_nil_iff]
      exact not_congr hxs.mem_keys_storedEdges_iff
    · exact hsame.symm
  · simp only [if_neg hends]
    refine iff_of_true trivial fun v hv => absurd ?_ hends
    -- A relationship that is there joins stored nodes, and these stay.
    obtain ⟨p, hp, _⟩ := Option.bind_eq_some_iff.1 hv
    apply Bool.and_eq_true_iff.2
    constructor
    · exact (isSome_node?_ingest _ _).2 (.inl (hc.source_stored hp))
    · exact (isSome_node?_ingest _ _).2 (.inl (hc.target_stored hp))

theorem mergeNodes_ofElements_eq_iff (hxs : Absorbable xs)
    (hmerged : (c.mergeNodes settle (Graph.ofElements xs).storedNodes).WellFormed)
    (hlisted : (c.mergeNodes settle (Graph.listing xs).storedNodes).WellFormed) :
    c.mergeNodes settle (Graph.ofElements xs).storedNodes =
        c.mergeNodes settle (Graph.listing xs).storedNodes ↔
      c.SettlesNodesAtOnce settle (Graph.listing xs) := by
  rw [(upToValues_mergeNodes_ofElements settle c hxs).eq_iff hmerged hlisted, and_iff_left]
  · exact forall₂_congr (c.value?_ofElements_iff hxs)
  · intro k key
    rw [relationValue?, relationValue?, edge?_mergeNodes, edge?_mergeNodes]

theorem WellFormed.ingest_ofElements_eq_iff (hc : c.WellFormed) (hxs : Absorbable xs)
    (hmerged : (c.ingest settle (Graph.ofElements xs)).WellFormed)
    (hlisted : (c.ingest settle (Graph.listing xs)).WellFormed) :
    c.ingest settle (Graph.ofElements xs) = c.ingest settle (Graph.listing xs) ↔
      c.SettlesNodesAtOnce settle (Graph.listing xs) ∧
        c.SettlesEdgesAtOnce settle (Graph.listing xs) := by
  rw [(upToValues_ingest_ofElements settle c hxs).eq_iff hmerged hlisted]
  apply and_congr
  · refine forall₂_congr fun i key => ?_
    rw [value?_ingest, value?_ingest]
    exact c.value?_ofElements_iff hxs i key
  · exact forall₂_congr (hc.relationValue?_ofElements_iff hxs)

/-- Values that survive are settled at once. -/
theorem Survives.settlesNodesAtOnce (hc : c.Survives) (hg : g.Survives) :
    c.SettlesNodesAtOnce Json.reread g := by
  intro i key v hv _
  have hold : ∀ x, c.value? i key = some x → x.Survives := by
    intro x hx
    obtain ⟨n, hn, hx⟩ := Option.bind_eq_some_iff.1 hx
    exact hc.node hn key x hx
  rw [value?_unsettled] at hv
  have hsurvives : v.reread = v := ((laidOver_reread (hg.valuesOf i key) hold).2 v hv).reread
  rw [Function.iterate_fixed hsurvives, hsurvives]

theorem Survives.settlesEdgesAtOnce (hc : c.Survives) (hg : g.Survives) :
    c.SettlesEdgesAtOnce Json.reread g := by
  intro k key v hv _
  have hold : ∀ x, c.relationValue? k key = some x → x.Survives := by
    intro x hx
    obtain ⟨p, hp, hx⟩ := Option.bind_eq_some_iff.1 hx
    exact hc.edge hp key x hx
  have hsurvives : v.reread = v := by
    rw [unsettled, relationValue?_ingest_eq] at hv
    split at hv
    · exact ((laidOver_reread (hg.relationValuesOf k key) hold).2 v hv).reread
    · exact (hold v hv).reread
  rw [Function.iterate_fixed hsurvives, hsurvives]

end Contents

/-! ## How far an ingest comes -/

section

variable {σ : Type}

/-- The nodes of a graph are written. -/
def NodesTaken [Backend σ] (s : σ) (g : Graph) : Prop :=
  g.WritableNodes ∧ ¬NodesBlocked s g.storedNodes

/-- The edges of a graph are written too. -/
def EdgesTaken [Backend σ] (s : σ) (g : Graph) : Prop :=
  NodesTaken s g ∧ g.WritableEdges ∧
    ¬EdgesBlocked (Backend.putNodes s g.storedNodes).2 g.storedEdges

/-- What an ingest writes more than once can be read, but for the last time. -/
structure Graph.RepeatsLegibly [Backend σ] (g : Graph) (s : σ) : Prop where
  nodes : g.storedNodes.Pairwise fun m n => m.id = n.id → Backend.legible σ m.properties = true
  edges : (g.storedEdges.filter (endsStored (Backend.putNodes s g.storedNodes).2)).Pairwise
    fun d e => d.key = e.key → Backend.legible σ d.properties = true

/-- The values that an ingest leaves, so far as it comes, are settled once they were settled at
all. -/
structure SettlesAtOnce [LawfulBackend σ] (s : σ) (g : Graph) : Prop where
  nodes : NodesTaken s g → (contents s).SettlesNodesAtOnce (LawfulBackend.settle σ) g
  edges : EdgesTaken s g → (contents s).SettlesEdgesAtOnce (LawfulBackend.settle σ) g

theorem Graph.repeatsLegibly_of_readsAll [Backend σ] [Backend.ReadsAll σ] (g : Graph) (s : σ) :
    g.RepeatsLegibly s where
  nodes := List.pairwise_of_forall fun _ _ _ => Backend.ReadsAll.legible_eq _
  edges := List.pairwise_of_forall fun _ _ _ => Backend.ReadsAll.legible_eq _

theorem Graph.IsLegible.repeatsLegibly [LawfulBackend σ] {g : Graph} (hg : g.IsLegible σ) (s : σ) :
    g.RepeatsLegibly s where
  nodes := List.pairwise_of_forall_mem_list fun _ hm _ _ _ => hg.storedNodes _ hm
  edges := List.pairwise_of_forall_mem_list fun _ hd _ _ _ =>
    hg.storedEdges _ (List.mem_filter.1 hd).1

/-- Contents that survive settle at once under a graph that does. -/
theorem Contents.Survives.settlesAtOnce {t : TableStore} {g : Graph} (ht : (contents t).Survives)
    (hg : g.Survives) : SettlesAtOnce t g :=
  ⟨fun _ => ht.settlesNodesAtOnce hg, fun _ => ht.settlesEdgesAtOnce hg⟩

open Classical in
/-- What an ingest leaves, whether or not it fails. -/
theorem Valid.snd_ingest_eq_ite [LawfulBackend σ] {s : σ} (hs : Valid s) (g : Graph) :
    (Store.ingest s g).2 =
      if EdgesTaken s g then Backend.putGraph s g
      else if NodesTaken s g then (Backend.putNodes s g.storedNodes).2
      else s := by
  by_cases hnodes : NodesTaken s g
  · rw [if_pos hnodes]
    by_cases hedges : EdgesTaken s g
    · obtain ⟨_, hok⟩ := hs.ingest_eq_ok (hnodes.1.isWritable hedges.2.1)
        (not_or.2 ⟨hnodes.2, hedges.2.2⟩)
      rw [if_pos hedges, hok]
    · rw [if_neg hedges]
      refine hs.snd_ingest_of_fails hnodes.1 hnodes.2 (hs.ingest_fails_iff.2 ?_)
      by_contra hfree
      obtain ⟨_, hwritable, hfree⟩ := by simpa only [not_or, not_not] using hfree
      exact hedges ⟨hnodes, hwritable, fun h => hfree (.inr h)⟩
  · rw [if_neg fun hedges : EdgesTaken s g => hnodes hedges.1, if_neg hnodes]
    by_cases hwritable : g.WritableNodes
    · have hblocked := not_not.1 fun h => hnodes ⟨hwritable, h⟩
      rw [hs.ingest_of_nodes_blocked hwritable hblocked]
    · rw [Store.ingest_of_empty_node s hwritable]

end

/-! ## Listed or merged, an ingest comes as far -/

section

variable {σ : Type} [LawfulBackend σ] {s : σ} {xs : List Element}

open LawfulBackend (settle)

/-- Listed nodes are blocked where merged ones are, and by one another. -/
theorem nodesBlocked_listing_iff (s : σ) (xs : List Element) :
    NodesBlocked s (Graph.listing xs).storedNodes ↔
      NodesBlocked s (Graph.ofElements xs).storedNodes ∨
        ¬(Graph.listing xs).storedNodes.Pairwise fun m n =>
          m.id = n.id → Backend.legible σ m.properties = true :=
  blocked_iff_of_nodup (nodup_storedIds_ofElements xs) fun _ => mem_storedIds_ofElements

/-- An ingest that repeats nothing that cannot be read comes as far listed as merged. -/
theorem nodesTaken_listing_iff (h : (Graph.listing xs).RepeatsLegibly s) :
    NodesTaken s (Graph.ofElements xs) ↔ NodesTaken s (Graph.listing xs) := by
  rw [NodesTaken, NodesTaken, nodesBlocked_listing_iff, or_iff_left (not_not_intro h.nodes),
    Graph.writableNodes_ofElements]

namespace Valid

variable (hs : Valid s) (hxs : Absorbable xs)

include hs hxs

/-- Listed edges are blocked where merged ones are, and by one another. -/
theorem edgesBlocked_listing_iff (hnodes : (Graph.listing xs).WritableNodes) :
    EdgesBlocked (Backend.putNodes s (Graph.listing xs).storedNodes).2
        (Graph.listing xs).storedEdges ↔
      EdgesBlocked (Backend.putNodes s (Graph.ofElements xs).storedNodes).2
          (Graph.ofElements xs).storedEdges ∨
        ¬((Graph.listing xs).storedEdges.filter
            (endsStored (Backend.putNodes s (Graph.listing xs).storedNodes).2)).Pairwise
          fun d e => d.key = e.key → Backend.legible σ d.properties = true := by
  have hmerged := hs.putNodes (Graph.writableNodes_ofElements.2 hnodes).wellFormed
  have hlisted := hs.putNodes hnodes.wellFormed
  have hsame := Contents.upToValues_mergeNodes_ofElements (settle σ) (contents s) hxs
  rw [← hs.contents_putNodes hnodes.wellFormed,
    ← hs.contents_putNodes (Graph.writableNodes_ofElements.2 hnodes).wellFormed] at hsame
  have hedge : (contents (Backend.putNodes s (Graph.ofElements xs).storedNodes).2).edge? =
      (contents (Backend.putNodes s (Graph.listing xs).storedNodes).2).edge? := by
    rw [hs.contents_putNodes hnodes.wellFormed,
      hs.contents_putNodes (Graph.writableNodes_ofElements.2 hnodes).wellFormed,
      Contents.edge?_mergeNodes, Contents.edge?_mergeNodes]
  rw [hmerged.edgesBlocked_congr hlisted
    (fun e _ => congrFun (Contents.joins_congr hsame.node) e) hedge]
  apply blocked_iff_of_nodup
  · exact (List.filter_sublist.map StoredEdge.key).nodup hxs.nodup_keys_storedEdges
  · intro k
    have hkeys (es : List StoredEdge) : k ∈ (es.filter (contents (Backend.putNodes s
        (Graph.listing xs).storedNodes).2).joins).map StoredEdge.key ↔ _ :=
      Contents.mem_keys_filter_joins
    exact (hkeys _).trans ((and_congr_left' hxs.mem_keys_storedEdges_iff).trans (hkeys _).symm)

/-- So it does with its edges. -/
theorem edgesTaken_listing_iff (h : (Graph.listing xs).RepeatsLegibly s) :
    EdgesTaken s (Graph.ofElements xs) ↔ EdgesTaken s (Graph.listing xs) := by
  rw [EdgesTaken, EdgesTaken, nodesTaken_listing_iff h, Graph.writableEdges_ofElements]
  refine and_congr_right fun htaken => and_congr_right fun _ => not_congr ?_
  rw [hs.edgesBlocked_listing_iff hxs htaken.1, or_iff_left (not_not_intro h.edges)]

/-- Elements are refused listed if they are refused merged, or if they repeat what cannot be read. -/
theorem ingest_listing_fails_iff :
    (∃ e, (Store.ingest s (Graph.listing xs)).1 = .error e) ↔
      (∃ e, (Store.ingest s (Graph.ofElements xs)).1 = .error e) ∨
        ¬(Graph.listing xs).RepeatsLegibly s := by
  rw [hs.ingest_fails_iff, hs.ingest_fails_iff, Graph.writableNodes_ofElements,
    Graph.writableEdges_ofElements]
  by_cases hnodes : (Graph.listing xs).WritableNodes
  · have hrepeats : ¬(Graph.listing xs).RepeatsLegibly s ↔ _ :=
      (not_congr ⟨fun h => And.intro h.nodes h.edges, fun h => ⟨h.1, h.2⟩⟩).trans not_and_or
    rw [hrepeats, IngestBlocked, IngestBlocked, nodesBlocked_listing_iff,
      hs.edgesBlocked_listing_iff hxs hnodes]
    tauto
  · exact iff_of_true (.inl hnodes) (.inl (.inl hnodes))

/-- Then an ingest fails alike, listed or merged. -/
theorem ingest_ofElements_eq_error_iff (h : (Graph.listing xs).RepeatsLegibly s) (e : StoreError) :
    (Store.ingest s (Graph.ofElements xs)).1 = .error e ↔
      (Store.ingest s (Graph.listing xs)).1 = .error e := by
  have hnodes : NodesBlocked s (Graph.ofElements xs).storedNodes ↔
      NodesBlocked s (Graph.listing xs).storedNodes := by
    rw [nodesBlocked_listing_iff, or_iff_left (not_not_intro h.nodes)]
  rw [hs.ingest_eq_error_iff, hs.ingest_eq_error_iff, hnodes, Graph.writableNodes_ofElements,
    Graph.writableEdges_ofElements]
  refine or_congr_right (and_congr_right fun hwritable => and_congr_right fun _ => ?_)
  rw [hs.edgesBlocked_listing_iff hxs hwritable, or_iff_left (not_not_intro h.edges)]

/-- Then elements leave the same contents listed or merged exactly if the values settle at once. -/
theorem contents_ingest_ofElements_iff (h : (Graph.listing xs).RepeatsLegibly s) :
    contents (Store.ingest s (Graph.ofElements xs)).2 =
        contents (Store.ingest s (Graph.listing xs)).2 ↔
      SettlesAtOnce s (Graph.listing xs) := by
  classical
  rw [hs.snd_ingest_eq_ite, hs.snd_ingest_eq_ite]
  simp only [hs.edgesTaken_listing_iff hxs h, nodesTaken_listing_iff h]
  by_cases hnodes : NodesTaken s (Graph.listing xs)
  · have hnodes' := Graph.writableNodes_ofElements.2 hnodes.1
    by_cases hedges : EdgesTaken s (Graph.listing xs)
    · have hlisted := hnodes.1.isWritable hedges.2.1
      have hmerged := hnodes'.isWritable (Graph.writableEdges_ofElements.2 hedges.2.1)
      have hct := hs.contents_putGraph hlisted
      have hcu := hs.contents_putGraph hmerged
      rw [if_pos hedges, if_pos hedges, hct, hcu, hs.wellFormed.ingest_ofElements_eq_iff hxs
        (hcu ▸ (hs.putGraph hmerged).wellFormed) (hct ▸ (hs.putGraph hlisted).wellFormed)]
      exact ⟨fun h => ⟨fun _ => h.1, fun _ => h.2⟩, fun h => ⟨h.nodes hnodes, h.edges hedges⟩⟩
    · have hct := hs.contents_putNodes hnodes.1.wellFormed
      have hcu := hs.contents_putNodes hnodes'.wellFormed
      rw [if_neg hedges, if_neg hedges, if_pos hnodes, if_pos hnodes, hct, hcu,
        Contents.mergeNodes_ofElements_eq_iff hxs
          (hcu ▸ (hs.putNodes hnodes'.wellFormed).wellFormed)
          (hct ▸ (hs.putNodes hnodes.1.wellFormed).wellFormed)]
      exact ⟨fun h => ⟨fun _ => h, fun h' => absurd h' hedges⟩, fun h => h.nodes hnodes⟩
  · have hedges : ¬EdgesTaken s (Graph.listing xs) := fun h => hnodes h.1
    rw [if_neg hedges, if_neg hedges, if_neg hnodes, if_neg hnodes]
    exact iff_of_true rfl ⟨fun h => absurd h hnodes, fun h => absurd h hedges⟩

end Valid

end

/-- In memory, elements leave the same store listed or merged. -/
theorem AdjacencyStore.ingest_ofElements {s : AdjacencyStore} (hs : Valid s) {xs : List Element}
    (hxs : Absorbable xs) :
    (Store.ingest s (Graph.ofElements xs)).2 = (Store.ingest s (Graph.listing xs)).2 := by
  classical
  have hrepeats := (Graph.listing xs).repeatsLegibly_of_readsAll s
  have hnodes : (Backend.putNodes s (Graph.ofElements xs).storedNodes).2 =
      (Backend.putNodes s (Graph.listing xs).storedNodes).2 :=
    absorbs_nodes.foldl_storedNodes hxs hs.sound
  rw [hs.snd_ingest_eq_ite, hs.snd_ingest_eq_ite, hnodes]
  simp only [hs.edgesTaken_listing_iff hxs hrepeats, nodesTaken_listing_iff hrepeats]
  refine if_ctx_congr .rfl (fun hedges => ?_) fun _ => rfl
  have ht := hs.putNodes hedges.1.1.wellFormed
  rw [Backend.putGraph, Backend.putGraph, hnodes,
    ht.putEdges_eq (Graph.writableEdges_ofElements.2 hedges.2.1).wellFormed,
    ht.putEdges_eq hedges.2.1.wellFormed]
  exact absorbs_edges.foldl_storedEdges (Contents.joins_congr_key _) hxs ht.sound

/-- Elements that bring no `null`, and whose edges have one label each, are refused listed exactly if
they are refused merged, and leave the same.  In memory this is so in every case.  In tables elements
that repeat what cannot be read are refused listed; others leave the same contents exactly if the
values settle at once. -/
theorem listed_as_merged {s : AdjacencyStore} {t : TableStore} (hs : Reachable s)
    (ht : Reachable t) {xs : List Element} (hxs : Absorbable xs) :
    (∀ e, (Store.ingest s (Graph.ofElements xs)).1 = .error e ↔
      (Store.ingest s (Graph.listing xs)).1 = .error e) ∧
    (Store.ingest s (Graph.ofElements xs)).2 = (Store.ingest s (Graph.listing xs)).2 ∧
    ((∃ e, (Store.ingest t (Graph.listing xs)).1 = .error e) ↔
      (∃ e, (Store.ingest t (Graph.ofElements xs)).1 = .error e) ∨
        ¬(Graph.listing xs).RepeatsLegibly t) ∧
    ((Graph.listing xs).RepeatsLegibly t →
      (∀ e, (Store.ingest t (Graph.ofElements xs)).1 = .error e ↔
        (Store.ingest t (Graph.listing xs)).1 = .error e) ∧
      (contents (Store.ingest t (Graph.ofElements xs)).2 =
          contents (Store.ingest t (Graph.listing xs)).2 ↔
        SettlesAtOnce t (Graph.listing xs))) :=
  ⟨hs.valid.ingest_ofElements_eq_error_iff hxs (Graph.repeatsLegibly_of_readsAll _ s),
    AdjacencyStore.ingest_ofElements hs.valid hxs, ht.valid.ingest_listing_fails_iff hxs,
    fun h => ⟨ht.valid.ingest_ofElements_eq_error_iff hxs h,
      ht.valid.contents_ingest_ofElements_iff hxs h⟩⟩

/-- A dataset and its relationship to a file, each given twice, and a dangling edge. -/
def Element.repeated : List Element :=
  [.node ⟨"a", ["Dataset"], KeyMap.empty.insert "name" (.str "old")⟩,
    .edge ⟨"a", "f", ["about"], KeyMap.empty.insert "note" (.str "old")⟩,
    .edge (.plain "a" "nowhere" "about"),
    .node ⟨"a", ["old data", "Dataset"], KeyMap.empty.insert "name" (.str "new")⟩,
    .edge ⟨"a", "f", ["about"], KeyMap.empty.insert "note" (.str "new")⟩]

theorem Element.all_repeated {P : Json → Prop} (h : ∀ text, P (.str text)) :
    (∀ n ∈ Graph.nodesAmong repeated, n.properties.All P) ∧
      ∀ e ∈ Graph.edgesAmong repeated, e.properties.All P := by
  have hone : ∀ key text, KeyMap.All P (KeyMap.empty.insert key (.str text)) :=
    fun key text => KeyMap.all_empty.insert key (h text)
  constructor
  · exact List.forall_mem_cons.2 ⟨hone _ _, List.forall_mem_singleton.2 (hone _ _)⟩
  · exact List.forall_mem_cons.2 ⟨hone _ _,
      List.forall_mem_cons.2 ⟨KeyMap.all_empty, List.forall_mem_singleton.2 (hone _ _)⟩⟩

/-- Between datasets that share a file they leave the same, listed or merged. -/
theorem listed_as_merged_sharing :
    Reachable (sharing ["a", "b"] : AdjacencyStore) ∧ Reachable (sharing ["a", "b"] : TableStore) ∧
    Absorbable Element.repeated ∧
    (Store.ingest (sharing ["a", "b"] : AdjacencyStore) (Graph.ofElements Element.repeated)).2 =
      (Store.ingest (sharing ["a", "b"] : AdjacencyStore) (Graph.listing Element.repeated)).2 ∧
    (Graph.listing Element.repeated).RepeatsLegibly (sharing ["a", "b"] : TableStore) ∧
    contents (Store.ingest (sharing ["a", "b"] : TableStore) (Graph.ofElements Element.repeated)).2 =
      contents (Store.ingest (sharing ["a", "b"] : TableStore)
        (Graph.listing Element.repeated)).2 := by
  have hmemory := reachable_sharing (σ := AdjacencyStore) ["a", "b"]
  have htables := reachable_sharing (σ := TableStore) ["a", "b"]
  have hxs : Absorbable Element.repeated := by
    obtain ⟨hnodes, hedges⟩ := Element.all_repeated (P := (· ≠ .null)) nofun
    have hlabels : ∀ e ∈ Graph.edgesAmong Element.repeated, e.labels.length = 1 := by decide
    constructor
    · exact fun hn => hnodes _ (Graph.mem_nodesAmong.2 hn)
    · intro e he
      rw [← Graph.mem_edgesAmong] at he
      exact ⟨List.length_eq_one_iff.1 (hlabels e he), hedges e he⟩
  have hsurvives : (Graph.listing Element.repeated).Survives :=
    Element.all_repeated (P := Json.Survives) Json.survives_str
  obtain ⟨_, hsame, _, hiff⟩ := listed_as_merged hmemory htables hxs
  have hlegible := hsurvives.isLegible.repeatsLegibly (sharing ["a", "b"] : TableStore)
  exact ⟨hmemory, htables, hxs, hsame, hlegible,
    (hiff hlegible).2.2 ((survives_contents_sharing ["a", "b"]).settlesAtOnce hsurvives)⟩

/-- A dataset with the restless double, and its name. -/
def Element.restless : List Element :=
  [.node ⟨"n", ["Dataset"], KeyMap.empty.insert "v" (.num (.double .restless))⟩,
    .node ⟨"n", [], KeyMap.empty.insert "name" (.str "N")⟩]

/-- In tables the double is read back twice if the two are listed, and once if they are merged. -/
theorem listing_moves_double :
    Reachable (Backend.empty : TableStore) ∧ Absorbable Element.restless ∧
    (contents (Store.ingest (Backend.empty : TableStore) (.ofElements Element.restless)).2).value?
        "n" "v" ≠
      (contents (Store.ingest (Backend.empty : TableStore) (.listing Element.restless)).2).value?
        "n" "v" := by
  have hnodes : ∀ n ∈ Graph.nodesAmong Element.restless, n.properties.NotNull :=
    List.forall_mem_cons.2 ⟨KeyMap.all_empty.insert "v" nofun,
      List.forall_mem_singleton.2 (KeyMap.all_empty.insert "name" nofun)⟩
  refine ⟨.empty, ⟨fun hn => hnodes _ (Graph.mem_nodesAmong.2 hn), fun he => ?_⟩, ?_⟩
  · rw [← Graph.mem_edgesAmong] at he
    cases he
  · decide +kernel

end DatasetGraph
