import DatasetGraph.Proofs.Json.Compact
import DatasetGraph.Proofs.Json.Equal
import DatasetGraph.Proofs.Sort
import Mathlib.Tactic.MkIffOfInductiveProp

/-!
# The canonical form of a graph

Two graphs with the same nodes, edges and labels in different order are *reorderings* of each other
(`Graph.Reordered`), and they are *equivalent* if beyond that properties may be equal without being the
same (`Graph.Equivalent`).  The canonical form forgets the order and nothing else: two graphs have the
same canonical form exactly if they are reorderings of each other, and graphs are equivalent if their
canonical forms are equal (`canonical_forgets_only_order`).

The labels of each node and edge are sorted first, and then nodes by id and edges by all that they
consist of.  The comparison of edges tells all of them apart, since the last thing that it looks at is
the text of the properties (`compareEdges_eq_eq_iff`).  That of nodes does so where no id repeats;
where one does, the order of its nodes is not forgotten (`filter_canonical_nodes`).

The text tells even properties apart that are equal, by the signs of their zeros.  So parallel edges
of graphs that are equivalent can be put in different orders, and then the canonical forms are not equal
(`canonical_separates_zeros`).  This happens to no others (`ParallelsAgree`).
-/

namespace DatasetGraph

open Json.Source (Correspond)
open Std (TransCmp)

/-! ## Labels -/

theorem sortTexts_eq_sortBy (ls : List String) : sortTexts ls = sortBy compare ls := by
  have hle : (fun a b : String => decide (a ≤ b)) = fun a b => (compare a b).isLE := by
    funext a b
    rw [Bool.eq_iff_iff, decide_eq_true_iff]
    exact Std.LawfulBCmp.isLE_iff_le.symm
  rw [sortTexts, hle, sortBy]

theorem sortTexts_eq_iff {ls ls' : List String} : sortTexts ls = sortTexts ls' ↔ ls.Perm ls' := by
  rw [sortTexts_eq_sortBy, sortTexts_eq_sortBy]
  exact sortBy_eq_iff fun a _ b _ => compare_eq_iff_eq.1

@[simp] theorem sortTexts_sortTexts (ls : List String) : sortTexts (sortTexts ls) = sortTexts ls :=
  sortTexts_eq_iff.2 (sortTexts_perm ls)

/-! ## Reorderings -/

/-- The nodes differ in nothing but the order of their labels. -/
@[mk_iff]
structure Node.Reordered (m n : Node) : Prop where
  id : m.id = n.id
  labels : m.labels.Perm n.labels
  properties : m.properties = n.properties

/-- The edges differ in nothing but the order of their labels. -/
@[mk_iff]
structure Edge.Reordered (e f : Edge) : Prop where
  source : e.source = f.source
  target : e.target = f.target
  labels : e.labels.Perm f.labels
  properties : e.properties = f.properties

/-- The graphs differ in nothing but the order of their nodes, of their edges and of the labels of
each. -/
@[mk_iff]
structure Graph.Reordered (g h : Graph) : Prop where
  nodes : Correspond Node.Reordered g.nodes h.nodes
  edges : Correspond Edge.Reordered g.edges h.edges

/-- The nodes are equal but for the order of their labels. -/
structure Node.Equivalent (m n : Node) : Prop where
  id : m.id = n.id
  labels : m.labels.Perm n.labels
  properties : m.properties.equal n.properties = true

/-- The edges are equal but for the order of their labels. -/
structure Edge.Equivalent (e f : Edge) : Prop where
  source : e.source = f.source
  target : e.target = f.target
  labels : e.labels.Perm f.labels
  properties : e.properties.equal f.properties = true

/-- The graphs are equal but for the order of their nodes, of their edges and of the labels of
each. -/
structure Graph.Equivalent (g h : Graph) : Prop where
  nodes : Correspond Node.Equivalent g.nodes h.nodes
  edges : Correspond Edge.Equivalent g.edges h.edges

/-- The node with its labels in increasing order. -/
def Node.sortLabels (n : Node) : Node := { n with labels := sortTexts n.labels }

/-- The edge with its labels in increasing order. -/
def Edge.sortLabels (e : Edge) : Edge := { e with labels := sortTexts e.labels }

theorem Node.sortLabels_eq_iff {m n : Node} : m.sortLabels = n.sortLabels ↔ m.Reordered n := by
  rw [sortLabels, sortLabels, mk.injEq, sortTexts_eq_iff, reordered_iff]

theorem Edge.sortLabels_eq_iff {e f : Edge} : e.sortLabels = f.sortLabels ↔ e.Reordered f := by
  rw [sortLabels, sortLabels, mk.injEq, sortTexts_eq_iff, reordered_iff]

theorem Node.equal_sortLabels_iff {m n : Node} : m.sortLabels.Equal n.sortLabels ↔ m.Equivalent n :=
  ⟨fun h => ⟨h.id, sortTexts_eq_iff.1 h.labels, h.properties⟩,
    fun h => ⟨h.id, sortTexts_eq_iff.2 h.labels, h.properties⟩⟩

theorem Edge.equal_sortLabels_iff {e f : Edge} : e.sortLabels.Equal f.sortLabels ↔ e.Equivalent f :=
  ⟨fun h => ⟨h.source, h.target, sortTexts_eq_iff.1 h.labels, h.properties⟩,
    fun h => ⟨h.source, h.target, sortTexts_eq_iff.2 h.labels, h.properties⟩⟩

/-- The key of an edge forgets the order of its labels and, but for its properties, nothing else. -/
theorem Edge.key_eq_iff {e f : Edge} : e.key = f.key ↔
    e.source = f.source ∧ e.target = f.target ∧ e.labels.Perm f.labels := by
  rw [key, key, EdgeKey.mk.injEq, sortTexts_eq_iff]

theorem Edge.Equivalent.key {e f : Edge} (h : e.Equivalent f) : e.key = f.key :=
  Edge.key_eq_iff.2 ⟨h.source, h.target, h.labels⟩

@[simp] theorem Node.sortLabels_sortLabels (n : Node) : n.sortLabels.sortLabels = n.sortLabels := by
  simp [sortLabels]

@[simp] theorem Edge.sortLabels_sortLabels (e : Edge) : e.sortLabels.sortLabels = e.sortLabels := by
  simp [sortLabels]

/-- Two lists are changed into permutations of each other exactly if their members correspond. -/
theorem map_perm_map_iff {α β : Type} {f : α → β} {R : α → α → Prop} (hR : ∀ a b, f a = f b ↔ R a b)
    {xs ys : List α} : (xs.map f).Perm (ys.map f) ↔ Correspond R xs ys := by
  constructor
  · intro hperm
    -- A permutation of the images comes from one of the list itself.
    have himage : List.Forall₂ (fun a b => f a = b) xs (xs.map f) := by
      rw [List.forall₂_map_right_iff]
      exact List.forall₂_same.2 fun _ _ => rfl
    obtain ⟨zs, hzs, hforall⟩ := Correspond.of_perm himage hperm
    rw [List.forall₂_map_right_iff] at hforall
    exact ⟨zs, hzs, hforall.imp fun a b => (hR a b).1⟩
  · rintro ⟨zs, hzs, hforall⟩
    refine (hzs.map f).trans (.of_eq ?_)
    rw [← List.forall₂_eq_eq_eq, List.forall₂_map_left_iff, List.forall₂_map_right_iff]
    exact hforall.imp fun a b => (hR a b).2

namespace Graph

/-! ## The order of edges -/

theorem compareEdges_eq : compareEdges = compareLex (compareOn Edge.source)
    (compareLex (compareOn Edge.target) (compareLex (compareOn Edge.labels)
      (compareOn fun e => e.properties.text))) := rfl

instance : TransCmp compareEdges := by
  rw [compareEdges_eq]
  infer_instance

/-- Edges are told apart by what they consist of. -/
theorem compareEdges_eq_eq_iff {e f : Edge} : compareEdges e f = .eq ↔ e = f := by
  constructor
  · intro h
    obtain ⟨hsource, h⟩ := Ordering.then_eq_eq.1 h
    obtain ⟨htarget, h⟩ := Ordering.then_eq_eq.1 h
    obtain ⟨hlabels, htext⟩ := Ordering.then_eq_eq.1 h
    obtain ⟨source, target, labels, properties⟩ := e
    obtain rfl := compare_eq_iff_eq.1 hsource
    obtain rfl := compare_eq_iff_eq.1 htarget
    obtain rfl := Std.LawfulEqCmp.eq_of_compare hlabels
    obtain rfl := Properties.text_injective (compare_eq_iff_eq.1 htext)
    rfl
  · rintro rfl
    exact Std.ReflCmp.compare_self

/-! ## The canonical form -/

theorem canonical_nodes (g : Graph) :
    g.canonical.nodes = sortBy (compareOn Node.id) (g.nodes.map Node.sortLabels) := rfl

theorem canonical_edges (g : Graph) :
    g.canonical.edges = sortBy compareEdges (g.edges.map Edge.sortLabels) := rfl

theorem eq_iff {g h : Graph} : g = h ↔ g.nodes = h.nodes ∧ g.edges = h.edges := by
  cases g
  cases h
  rw [mk.injEq]

/-- In canonical form nothing is left to sort. -/
theorem canonical_canonical (g : Graph) : g.canonical.canonical = g.canonical := by
  rw [eq_iff, canonical_nodes, canonical_edges, canonical_nodes g, canonical_edges g]
  constructor
  · rw [map_sortBy_map _ Node.sortLabels_sortLabels, sortBy_sortBy]
  · rw [map_sortBy_map _ Edge.sortLabels_sortLabels, sortBy_sortBy]

theorem canonical_nodes_eq_iff {g h : Graph} (hids : (g.nodes.map Node.id).Nodup) :
    g.canonical.nodes = h.canonical.nodes ↔ Correspond Node.Reordered g.nodes h.nodes := by
  rw [canonical_nodes, canonical_nodes, sortBy_eq_iff,
    map_perm_map_iff fun _ _ => Node.sortLabels_eq_iff]
  intro a ha b hb hab
  have hmap : ((g.nodes.map Node.sortLabels).map Node.id).Nodup := by rwa [List.map_map]
  exact List.inj_on_of_nodup_map hmap ha hb (compare_eq_iff_eq.1 hab)

theorem canonical_edges_eq_iff {g h : Graph} :
    g.canonical.edges = h.canonical.edges ↔ Correspond Edge.Reordered g.edges h.edges := by
  rw [canonical_edges, canonical_edges, sortBy_eq_iff,
    map_perm_map_iff fun _ _ => Edge.sortLabels_eq_iff]
  intro a _ b _ hab
  exact compareEdges_eq_eq_iff.1 hab

/-- Nodes that share an id stay in the order in which they were listed. -/
theorem filter_canonical_nodes (g : Graph) (id : String) :
    g.canonical.nodes.filter (fun n => n.id = id) =
      (g.nodes.filter fun n => n.id = id).map Node.sortLabels := by
  have hmap : (g.nodes.filter fun n => n.id = id).map Node.sortLabels =
      (g.nodes.map Node.sortLabels).filter fun n => n.id = id := by
    rw [List.filter_map]
    rfl
  rw [canonical_nodes, hmap]
  refine filter_sortBy fun a _ b _ ha hb => ?_
  exact compare_eq_iff_eq.2 ((of_decide_eq_true ha).trans (of_decide_eq_true hb).symm)

/-! ## Canonical forms that are equal -/

/-- What the order of edges looks at before the properties. -/
def compareKeys (a b : EdgeKey) : Ordering :=
  (compare a.source b.source).then <|
    (compare a.target b.target).then (compare a.labels b.labels)

theorem compareKeys_eq_eq_iff {a b : EdgeKey} : compareKeys a b = .eq ↔ a = b := by
  obtain ⟨source, target, labels⟩ := a
  obtain ⟨source', target', labels'⟩ := b
  simp [compareKeys]

theorem compareEdges_sortLabels (e f : Edge) : compareEdges e.sortLabels f.sortLabels =
    (compareKeys e.key f.key).then (compare e.properties.text f.properties.text) := by
  rw [compareKeys, Ordering.then_assoc, Ordering.then_assoc]
  rfl

/-- Where an edge of one graph is equivalent to one of the other, it has the same properties, or
there is no other edge beside it. -/
def ParallelsAgree (g h : Graph) : Prop :=
  ∀ e ∈ g.edges, ∀ f ∈ h.edges, e.Equivalent f →
    e.properties = f.properties ∨ (g.edges.filter fun d => d.key = e.key).length = 1

/-- Graphs whose canonical forms are equal are equivalent. -/
theorem equivalent_of_equal_canonical {g h : Graph} (hgh : g.canonical.Equal h.canonical) :
    g.Equivalent h := by
  obtain ⟨hnodes, hedges⟩ := equal_iff.1 hgh
  have hnodes := (((sortBy_perm _ _).map Node.unsigned).symm.trans (.of_eq hnodes)).trans
    ((sortBy_perm _ _).map Node.unsigned)
  have hedges := (((sortBy_perm _ _).map Edge.unsigned).symm.trans (.of_eq hedges)).trans
    ((sortBy_perm _ _).map Edge.unsigned)
  rw [List.map_map, List.map_map] at hnodes hedges
  constructor
  · refine (map_perm_map_iff fun m n => ?_).1 hnodes
    exact Node.equal_iff.symm.trans Node.equal_sortLabels_iff
  · refine (map_perm_map_iff fun e f => ?_).1 hedges
    exact Edge.equal_iff.symm.trans Edge.equal_sortLabels_iff

/-- Nodes that are equivalent are equal in canonical form, where no id repeats. -/
theorem Equivalent.canonical_nodes {g h : Graph} (hgh : g.Equivalent h)
    (hids : (g.nodes.map Node.id).Nodup) :
    List.Forall₂ Node.Equal g.canonical.nodes h.canonical.nodes := by
  obtain ⟨ns, hperm, hequivalent⟩ := hgh.nodes
  have hsorted : g.canonical.nodes = sortBy (compareOn Node.id) (ns.map Node.sortLabels) := by
    rw [Graph.canonical_nodes, sortBy_eq_iff]
    · exact hperm.map Node.sortLabels
    · intro a ha b hb hab
      have hmap : ((g.nodes.map Node.sortLabels).map Node.id).Nodup := by rwa [List.map_map]
      exact List.inj_on_of_nodup_map hmap ha hb (compare_eq_iff_eq.1 hab)
  rw [hsorted, Graph.canonical_nodes, sortBy_map, sortBy_map,
    List.forall₂_map_left_iff, List.forall₂_map_right_iff]
  refine (forall₂_sortBy hequivalent fun p hp q hq => ?_).imp fun _ _ => Node.equal_sortLabels_iff.2
  have hpartners : ∀ r ∈ ns.zip h.nodes, r.1.id = r.2.id :=
    fun r hr => ((List.forall₂_iff_zip.1 hequivalent).2 hr).id
  show compare p.1.id q.1.id = compare p.2.id q.2.id
  rw [hpartners p hp, hpartners q hq]

/-- A pair is the only one with the key of its first edge, if the edge is. -/
theorem pair_eq_of_key_eq {es fs : List Edge} (hlength : es.length = fs.length)
    {p q : Edge × Edge} (hp : p ∈ es.zip fs) (hq : q ∈ es.zip fs) (hkey : q.1.key = p.1.key)
    (hone : (es.filter fun d => d.key = p.1.key).length = 1) : p = q := by
  have hpairs : ((es.zip fs).filter fun r => r.1.key = p.1.key).length = 1 := by
    rw [← hone]
    nth_rewrite 2 [← List.map_fst_zip (Nat.le_of_eq hlength)]
    rw [List.filter_map, List.length_map]
    rfl
  obtain ⟨r, hr⟩ := List.length_eq_one_iff.1 hpairs
  have hmem (x : Edge × Edge) (hx : x ∈ es.zip fs) (hkey : x.1.key = p.1.key) : x = r := by
    have hx : x ∈ (es.zip fs).filter fun r => r.1.key = p.1.key :=
      List.mem_filter.2 ⟨hx, decide_eq_true hkey⟩
    rw [hr] at hx
    exact List.mem_singleton.1 hx
  rw [hmem p hp rfl, hmem q hq hkey]

/-- Edges that are equivalent are equal in canonical form, where parallel ones have the same
properties. -/
theorem Equivalent.canonical_edges {g h : Graph} (hgh : g.Equivalent h) (hagree : g.ParallelsAgree h) :
    List.Forall₂ Edge.Equal g.canonical.edges h.canonical.edges := by
  obtain ⟨es, hperm, hequivalent⟩ := hgh.edges
  have hsorted : g.canonical.edges = sortBy compareEdges (es.map Edge.sortLabels) := by
    rw [Graph.canonical_edges, sortBy_eq_iff fun _ _ _ _ => compareEdges_eq_eq_iff.1]
    exact hperm.map Edge.sortLabels
  rw [hsorted, Graph.canonical_edges, sortBy_map, sortBy_map,
    List.forall₂_map_left_iff, List.forall₂_map_right_iff]
  refine (forall₂_sortBy hequivalent fun p hp q hq => ?_).imp fun _ _ => Edge.equal_sortLabels_iff.2
  have hpartners : ∀ r ∈ es.zip h.edges, r.1.Equivalent r.2 :=
    fun r hr => (List.forall₂_iff_zip.1 hequivalent).2 hr
  rw [compareEdges_sortLabels, compareEdges_sortLabels, (hpartners p hp).key, (hpartners q hq).key]
  by_cases hpq : p = q
  · rw [hpq, Std.compare_self, Std.compare_self]
  by_cases hkey : p.2.key = q.2.key
  · -- Parallel edges have the properties of their partners, and so their texts.
    have hsame : ∀ r ∈ es.zip h.edges, r.2.key = p.2.key → r.1.properties = r.2.properties := by
      intro r hr hrp
      have he := hperm.mem_iff.2 (List.of_mem_zip hr).1
      refine (hagree r.1 he r.2 (List.of_mem_zip hr).2 (hpartners r hr)).resolve_right fun hone => ?_
      rw [(hperm.filter _).length_eq] at hone
      have hlength := hequivalent.length_eq
      have hkeys (x : Edge × Edge) (hx : x ∈ es.zip h.edges) (hxp : x.2.key = p.2.key) : r = x := by
        refine pair_eq_of_key_eq hlength hr hx ?_ hone
        rw [(hpartners x hx).key, (hpartners r hr).key, hxp, hrp]
      exact hpq ((hkeys p hp rfl).symm.trans (hkeys q hq hkey.symm))
    rw [hsame p hp rfl, hsame q hq hkey.symm]
  · cases hcompare : compareKeys p.2.key q.2.key with
    | eq => exact absurd (compareKeys_eq_eq_iff.1 hcompare) hkey
    | lt => rfl
    | gt => rfl

/-- Two graphs, of which one repeats no id, have one canonical form exactly if they are reorderings
of each other, and they are equivalent if their canonical forms are equal; where parallel edges have
the same properties, they are equivalent exactly if their canonical forms are equal.  The canonical
form is its own.  Edges may repeat and be parallel. -/
theorem canonical_forgets_only_order (g h : Graph) :
    ((g.nodes.map Node.id).Nodup →
      (g.canonical = h.canonical ↔ g.Reordered h) ∧
      (g.canonical.Equal h.canonical → g.Equivalent h) ∧
      (g.ParallelsAgree h → (g.canonical.Equal h.canonical ↔ g.Equivalent h))) ∧
    g.canonical.canonical = g.canonical := by
  refine ⟨fun hids => ⟨?_, equivalent_of_equal_canonical, fun hagree => ?_⟩, canonical_canonical g⟩
  · rw [eq_iff, canonical_nodes_eq_iff hids, canonical_edges_eq_iff, reordered_iff]
  · exact ⟨equivalent_of_equal_canonical,
      fun hgh => ⟨hgh.canonical_nodes hids, hgh.canonical_edges hagree⟩⟩

end Graph

/-! ### Two graphs -/

/-- An edge with one property. -/
def Edge.weighted (v : Json) : Edge := ⟨"a", "b", ["e"], KeyMap.empty.insert "weight" v⟩

/-- A zero with or without a sign. -/
def Json.zero (negative : Bool) : Json := .num (.double (.ofRank negative 0))

namespace Graph

/-- A graph with an edge that repeats. -/
def pair : Graph where
  nodes := [⟨"b", ["Y", "X"], .empty⟩, ⟨"a", [], .empty⟩]
  edges := [.plain "a" "b" "e2", .plain "a" "b" "e1", .plain "a" "b" "e2"]

/-- The same graph in another order. -/
def pairRelisted : Graph where
  nodes := [⟨"a", [], .empty⟩, ⟨"b", ["X", "Y"], .empty⟩]
  edges := [.plain "a" "b" "e1", .plain "a" "b" "e2", .plain "a" "b" "e2"]

/-- A graph of one edge with one property. -/
def weighted (v : Json) : Graph := ⟨[], [.weighted v]⟩

theorem pair_reordered : pair.Reordered pairRelisted where
  nodes := ⟨_, .swap _ _ _, .cons ⟨rfl, .refl _, rfl⟩ (.cons ⟨rfl, .swap _ _ _, rfl⟩ .nil)⟩
  edges := ⟨_, .swap _ _ _, List.forall₂_same.2 fun _ _ => ⟨rfl, rfl, .refl _, rfl⟩⟩

/-- Relisted, the graph has the same canonical form; with a number replaced by its text, deep inside
a property, it has another.  The sign of a zero makes no difference to an edge that has no others
beside it. -/
theorem canonical_forgets_only_order_of_pair :
    (pair.nodes.map Node.id).Nodup ∧ pair ≠ pairRelisted ∧
    pair.canonical = pairRelisted.canonical ∧
    ¬(weighted (.arr [.num (.int 1)])).canonical.Equal (weighted (.arr [.str "1"])).canonical ∧
    (weighted (.zero true)).ParallelsAgree (weighted (.zero false)) ∧
    (weighted (.zero true)).canonical.Equal (weighted (.zero false)).canonical := by
  have hids : (pair.nodes.map Node.id).Nodup := by decide
  have hagree : (weighted (.zero true)).ParallelsAgree (weighted (.zero false)) := by
    rintro e he - - -
    obtain rfl := List.mem_singleton.1 he
    exact .inr (by simp [weighted])
  have hequivalent : (weighted (.zero true)).Equivalent (weighted (.zero false)) :=
    ⟨.of_forall₂ .nil, .of_forall₂ (.cons ⟨rfl, rfl, .refl _, by decide⟩ .nil)⟩
  have hpair := (canonical_forgets_only_order pair pairRelisted).1 hids
  have hweighted (v w : Json) :=
    (canonical_forgets_only_order (weighted v) (weighted w)).1 List.nodup_nil
  refine ⟨hids, by decide, hpair.1.2 pair_reordered, ?_, hagree,
    ((hweighted _ _).2.2 hagree).2 hequivalent⟩
  intro hcanonical
  obtain ⟨e, he, hsame⟩ :=
    ((hweighted _ _).2.1 hcanonical).edges.exists_partner List.mem_cons_self
  rw [List.mem_singleton.1 he] at hsame
  exact absurd hsame.properties (by decide)

/-- Two parallel edges with two properties each, of which one is a zero. -/
def parallel (negative negative' : Bool) : Graph where
  nodes := []
  edges := [
    ⟨"a", "b", ["e"], (KeyMap.empty.insert "a" (.zero negative)).insert "b" (.num (.int 1))⟩,
    ⟨"a", "b", ["e"], (KeyMap.empty.insert "a" (.zero negative')).insert "b" (.num (.int 2))⟩]

/-- In canonical form the edge comes first whose zero has a sign. -/
theorem canonical_parallel (negative : Bool) : (parallel negative !negative).canonical.edges =
    if negative then (parallel negative !negative).edges
    else (parallel negative !negative).edges.reverse := by
  have hlabels : (parallel negative !negative).edges.map Edge.sortLabels =
      (parallel negative !negative).edges := by
    simp [parallel, Edge.sortLabels, sortTexts]
  rw [canonical_edges, hlabels]
  cases negative with
  | true => exact List.mergeSort_of_pairwise (by decide +kernel)
  | false =>
    rw [(sortBy_eq_iff fun _ _ _ _ => compareEdges_eq_eq_iff.1).2 (List.reverse_perm _).symm]
    exact List.mergeSort_of_pairwise (by decide +kernel)

/-- Graphs that are equal in the order in which they are listed do not have equal canonical forms:
the edge whose zero has a sign comes first. -/
theorem canonical_separates_zeros :
    ((parallel false true).nodes.map Node.id).Nodup ∧
    ((parallel true false).nodes.map Node.id).Nodup ∧
    (parallel false true).Equal (parallel true false) ∧
    (parallel false true).Equivalent (parallel true false) ∧
    ¬(parallel false true).canonical.Equal (parallel true false).canonical := by
  have hequal : (parallel false true).Equal (parallel true false) := by decide
  refine ⟨List.nodup_nil, List.nodup_nil, hequal, ⟨.of_forall₂ .nil, ?_⟩, fun hcanonical => ?_⟩
  · exact .of_forall₂ (hequal.edges.imp fun _ _ he =>
      ⟨he.source, he.target, .of_eq he.labels, he.properties⟩)
  · have hedges := (equal_iff.1 hcanonical).2
    rw [show (parallel false true).canonical.edges = _ from canonical_parallel false,
      show (parallel true false).canonical.edges = _ from canonical_parallel true] at hedges
    revert hedges
    decide

end Graph

end DatasetGraph
