import DatasetGraph.Proofs.Store.Adjacency
import DatasetGraph.Proofs.Store.Ingest
import DatasetGraph.Proofs.Store.Table

/-!
# Contents and layout

Contents leave out how a store is laid out: in which rows or at which places things stand.  What they
leave out is the *layout*, and the two together determine the store (`eq_of_layout_eq`).

A node that is merged into one that is there, without new labels, leaves the layout alone, and so does
a relationship that is merged into one that is there.  So a graph that brings nothing new leaves the
layout as it was (`Valid.layout_putGraph`), and the very same store if the contents are the same.
-/

namespace DatasetGraph

/-- A backend whose stores are determined by their layout and contents. -/
class LaidOutBackend (σ : Type) extends LawfulBackend σ where
  /-- What the contents leave out. -/
  Layout : Type
  layout : σ → Layout
  eq_of_layout_eq {s t : σ} (hs : LawfulBackend.Sound s) (ht : LawfulBackend.Sound t)
    (hlayout : layout s = layout t) (hcontents : contents s = contents t) : s = t
  layout_mergeNode {s : σ} (hs : LawfulBackend.Sound s) {n : StoredNode}
    (stored : Backend.hasNode s n.id = true)
    (hlabels : ∀ l ∈ n.labels, l ∈ (contents s).labels n.id) :
    layout (Backend.mergeNode s n) = layout s
  layout_mergeEdge {s : σ} (hs : LawfulBackend.Sound s) {e : StoredEdge}
    (source : Backend.hasNode s e.source = true) (target : Backend.hasNode s e.target = true)
    (stored : ((contents s).edge? e.key).isSome = true) :
    layout (Backend.mergeEdge s e) = layout s

/-- Lists are equal if they have the same keys and members of one key are the same. -/
theorem eq_of_map_eq {α κ : Type} {key : α → κ} {xs ys : List α} (h : xs.map key = ys.map key)
    (hkey : ∀ x ∈ xs, ∀ y ∈ ys, key x = key y → x = y) : xs = ys := by
  induction xs generalizing ys with
  | nil => exact (List.map_eq_nil_iff.1 h.symm).symm
  | cons x xs ih =>
    cases ys with
    | nil => cases h
    | cons y ys =>
      rw [List.map_cons, List.map_cons, List.cons.injEq] at h
      have hxy : x = y := hkey x List.mem_cons_self y List.mem_cons_self h.1
      have hrest : xs = ys := ih h.2 fun x hx y hy =>
        hkey x (List.mem_cons_of_mem _ hx) y (List.mem_cons_of_mem _ hy)
      rw [hxy, hrest]

/-! ## In tables -/

namespace TableStore

/-- The ids and the keys in the order of their rows, and the rows of labels. -/
structure Layout where
  ids : List String
  labels : List LabelRow
  keys : List RelationKey

/-- The layout of the tables. -/
def layout (s : TableStore) : Layout := ⟨s.ids, s.labels, s.edges.map StoredEdge.key⟩

variable {s t : TableStore}

theorem eq_of_layout_eq (hs : s.Sound) (ht : t.Sound) (hlayout : s.layout = t.layout)
    (hcontents : contents s = contents t) : s = t := by
  have hids : s.nodes.map NodeRow.id = t.nodes.map NodeRow.id := congrArg Layout.ids hlayout
  have hlabels : s.labels = t.labels := congrArg Layout.labels hlayout
  have hkeys : s.edges.map StoredEdge.key = t.edges.map StoredEdge.key :=
    congrArg Layout.keys hlayout
  have hnodes : s.nodes = t.nodes := by
    apply eq_of_map_eq hids
    intro r hr q hq hid
    have hsr : s.node? r.id = some (s.nodeOf r) :=
      (node?_eq_some_iff hs).2 ⟨List.mem_map_of_mem hr, rfl⟩
    have htq : t.node? q.id = some (t.nodeOf q) :=
      (node?_eq_some_iff ht).2 ⟨List.mem_map_of_mem hq, rfl⟩
    have hnode : s.node? r.id = t.node? r.id := congrArg (fun c => Contents.node? c r.id) hcontents
    rw [hsr, hid, htq, Option.some.injEq] at hnode
    obtain ⟨id, p⟩ := r
    obtain ⟨_, q⟩ := q
    cases hid
    cases congrArg StoredNode.properties hnode
    rfl
  have hedges : s.edges = t.edges := by
    apply eq_of_map_eq hkeys
    intro e he f hf hkey
    have hse := (mem_allEdges_iff (s := s) hs).1 he
    have htf := (mem_allEdges_iff (s := t) ht).1 hf
    rw [hcontents, hkey, htf] at hse
    rw [← StoredEdge.key_withProperties e, ← StoredEdge.key_withProperties f, hkey,
      Option.some.inj hse]
  cases s
  cases t
  cases hnodes
  cases hlabels
  cases hedges
  rfl

theorem layout_mergeNode {n : StoredNode} (stored : Backend.hasNode s n.id = true)
    (hlabels : ∀ l ∈ n.labels, l ∈ s.labelsOf n.id) : (s.mergeNode n).layout = s.layout := by
  have hids : (s.mergeNode n).ids = s.ids := by
    rw [ids_mergeNode, insertNew, if_pos (hasNode_iff.1 stored)]
  have hrows : (s.mergeNode n).labels = s.labels := by
    apply addNew_of_subset
    intro r hr
    obtain ⟨l, hl, rfl⟩ := List.mem_map.1 hr
    exact mem_labelsOf.1 (hlabels l hl)
  rw [layout, layout, hids, hrows]
  rfl

theorem layout_mergeEdge (hs : s.Sound) {e : StoredEdge}
    (stored : ((contents s).edge? e.key).isSome = true) : (s.mergeEdge e).layout = s.layout := by
  obtain ⟨p, hp⟩ := Option.isSome_iff_exists.1 stored
  have hmem : e.key ∈ s.edges.map StoredEdge.key :=
    List.mem_map.2 ⟨_, (edge?_contents_eq_some_iff (s := s) hs).1 hp, e.key.key_withProperties p⟩
  have hkeys : (s.mergeEdge e).edges.map StoredEdge.key = s.edges.map StoredEdge.key := by
    show (updateOrAppend _ _ _ s.edges).map StoredEdge.key = _
    rw [map_updateOrAppend StoredEdge.key (by intro f; rfl) (by rfl)]
    exact if_pos hmem
  rw [layout, hkeys]
  rfl

instance : LaidOutBackend TableStore where
  Layout := Layout
  layout := layout
  eq_of_layout_eq := eq_of_layout_eq
  layout_mergeNode {s} hs {n} stored hlabels := by
    apply layout_mergeNode stored
    intro l hl
    have hmem := hlabels l hl
    rw [Contents.labels, node?_contents] at hmem
    split at hmem
    · next m hm =>
      obtain ⟨r, _, rfl⟩ := Option.map_eq_some_iff.1 hm
      exact hmem
    · cases hmem
  layout_mergeEdge hs _ _ _ stored := layout_mergeEdge hs stored

end TableStore

/-! ## In memory -/

namespace AdjacencyStore

/-- How many places there are, which is whose, and what joins them, without properties. -/
structure Layout where
  places : Nat
  index : KeyMap Nat
  links : List (Nat × Nat × Nat × Identifier)
  nextSerial : Nat

/-- What tells a relationship from others, and what it joins. -/
def placed (l : Link) : Nat × Nat × Nat × Identifier := (l.serial, l.ends)

/-- The layout of the memory. -/
def layout (s : AdjacencyStore) : Layout :=
  ⟨s.places.length, s.index, s.links.map placed, s.nextSerial⟩

variable {s t : AdjacencyStore}

theorem at?_of_at? (hs : s.Sound) (hindex : s.index = t.index)
    (hnode : ∀ id, s.node? id = t.node? id) {place : Nat} {n : StoredNode}
    (hn : s.at? place = some n) : t.at? place = some n := by
  have hplace := hs.index_id hn
  have hfound : s.node? n.id = some n := by rw [node?, hplace, Option.bind_some, hn]
  rw [hindex] at hplace
  rwa [hnode, node?, hplace, Option.bind_some] at hfound

/-- With one index, the same node stands at each place. -/
theorem at?_eq (hs : s.Sound) (ht : t.Sound) (hindex : s.index = t.index)
    (hcontents : contents s = contents t) (place : Nat) : s.at? place = t.at? place := by
  have hnode : ∀ id, s.node? id = t.node? id := fun id =>
    congrArg (fun c => Contents.node? c id) hcontents
  apply Option.ext
  intro n
  exact ⟨at?_of_at? hs hindex hnode, at?_of_at? ht hindex.symm fun id => (hnode id).symm⟩

theorem eq_of_layout_eq (hs : s.Sound) (ht : t.Sound) (hlayout : s.layout = t.layout)
    (hcontents : contents s = contents t) : s = t := by
  have hlength : s.places.length = t.places.length := congrArg Layout.places hlayout
  have hindex : s.index = t.index := congrArg Layout.index hlayout
  have hplaced : s.links.map placed = t.links.map placed := congrArg Layout.links hlayout
  have hserial : s.nextSerial = t.nextSerial := congrArg Layout.nextSerial hlayout
  have hat := at?_eq hs ht hindex hcontents
  have hplaces : s.places = t.places := by
    apply List.ext_getElem hlength
    intro i hi hi'
    have hi := hat i
    rwa [at?, at?, List.getElem?_eq_getElem, List.getElem?_eq_getElem, Option.join_some,
      Option.join_some] at hi
  have hlinks : s.links = t.links := by
    apply eq_of_map_eq hplaced
    intro l hl k hk hlk
    obtain ⟨a, ha⟩ := Option.isSome_iff_exists.1 (hs.source_taken l hl)
    obtain ⟨b, hb⟩ := Option.isSome_iff_exists.1 (hs.target_taken l hl)
    obtain ⟨i, source, target, type, p⟩ := l
    obtain ⟨_, _, _, _, q⟩ := k
    cases hlk
    -- Both join the same nodes, so they have one key.
    have hse : s.edge? ⟨i, source, target, type, p⟩ = some ⟨a.id, b.id, type, p⟩ :=
      edge?_eq_some_iff.2 ⟨a, b, ha, hb, rfl⟩
    rw [hat] at ha hb
    have hte : t.edge? ⟨i, source, target, type, q⟩ = some ⟨a.id, b.id, type, q⟩ :=
      edge?_eq_some_iff.2 ⟨a, b, ha, hb, rfl⟩
    have hp := (mem_allEdges_iff (s := s) hs).1 (List.mem_filterMap.2 ⟨_, hl, hse⟩)
    have hq := (mem_allEdges_iff (s := t) ht).1 (List.mem_filterMap.2 ⟨_, hk, hte⟩)
    rw [hcontents] at hp
    cases Option.some.inj (hp.symm.trans hq)
    rfl
  cases s
  cases t
  cases hplaces
  cases hindex
  cases hlinks
  cases hserial
  rfl

theorem layout_mergeNode {n : StoredNode} {place : Nat} (h : s.index.get? n.id = some place) :
    (s.mergeNode n).layout = s.layout := by
  rw [mergeNode, h]
  show Layout.mk (s.places.modify place _).length _ _ _ = _
  rw [List.length_modify]
  rfl

theorem layout_mergeLink {a b : Nat} {type : Identifier} (p : Properties)
    (h : (s.links.any fun l => l.ends = (a, b, type)) = true) :
    (s.mergeLink a b type p).layout = s.layout := by
  rw [mergeLink, if_pos h]
  show Layout.mk _ _ ((changeFirst _ _ s.links).map placed) _ = _
  rw [map_changeFirst placed (by intro l; rfl)]
  rfl

theorem layout_mergeEdge (hs : s.Sound) {e : StoredEdge} {a b : Nat}
    (ha : s.index.get? e.source = some a) (hb : s.index.get? e.target = some b)
    (stored : ((contents s).edge? e.key).isSome = true) : (s.mergeEdge e).layout = s.layout := by
  rw [edge?_contents_eq hs, StoredEdge.key, ha, hb, Option.bind_some, Option.bind_some,
    Option.isSome_map, List.find?_isSome] at stored
  rw [mergeEdge, ha, hb]
  exact layout_mergeLink _ (List.any_eq_true.2 stored)

instance : LaidOutBackend AdjacencyStore where
  Layout := Layout
  layout := layout
  eq_of_layout_eq := eq_of_layout_eq
  layout_mergeNode hs _ stored _ := by
    obtain ⟨place, hplace⟩ := (hasNode_iff hs).1 stored
    exact layout_mergeNode hplace
  layout_mergeEdge hs _ source target stored := by
    obtain ⟨a, ha⟩ := (hasNode_iff hs).1 source
    obtain ⟨b, hb⟩ := (hasNode_iff hs).1 target
    exact layout_mergeEdge hs ha hb stored

end AdjacencyStore

/-! ## Graphs that bring nothing new -/

namespace Contents

variable {settle : Json → Json} {c d : Contents} {g : Graph}

theorem joins_congr (h : ∀ id, (c.node? id).isSome = (d.node? id).isSome) : c.joins = d.joins := by
  funext e
  rw [joins, joins, h, h]

theorem joins_congr_key (c : Contents) (e f : StoredEdge) (h : e.key = f.key) :
    c.joins e = c.joins f := by
  have hsource : e.source = f.source := congrArg RelationKey.source h
  have htarget : e.target = f.target := congrArg RelationKey.target h
  rw [joins, joins, hsource, htarget]

/-- Of the relationships of a key, all join stored nodes or none. -/
theorem filter_key_joins (c : Contents) (es : List StoredEdge) (k : RelationKey) :
    ((es.filter c.joins).filter fun e => e.key = k) =
      if c.joins (k.withProperties .empty) then es.filter fun e => e.key = k else [] := by
  rw [List.filter_filter]
  split
  · next hends =>
    apply List.filter_congr
    intro e _
    by_cases hk : e.key = k
    · rw [c.joins_congr_key e (k.withProperties .empty) hk, hends, Bool.and_true]
    · rw [decide_eq_false hk, Bool.false_and]
  · next hends =>
    rw [List.filter_eq_nil_iff]
    intro e _ he
    obtain ⟨hk, hjoins⟩ := Bool.and_eq_true_iff.1 he
    exact hends (c.joins_congr_key (k.withProperties .empty) e (of_decide_eq_true hk).symm ▸ hjoins)

/-- The nodes of a graph that is covered are those of stored ids. -/
theorem Covers.isSome_node?_mergeNodes (h : c.Covers g) (id : String) :
    ((c.mergeNodes settle g.storedNodes).node? id).isSome = (c.node? id).isSome := by
  rw [Bool.eq_iff_iff, Contents.isSome_node?_mergeNodes]
  apply or_iff_left_of_imp
  intro hid
  obtain ⟨n, hn, rfl⟩ := List.mem_map.1 hid
  exact (h.node hn).1

end Contents

namespace Valid

variable {σ : Type} [LaidOutBackend σ] {s : σ}

open LaidOutBackend

theorem layout_putNodes (hs : Valid s) {ns : List StoredNode} (hns : ∀ n ∈ ns, n.WellFormed)
    (hold : ∀ n ∈ ns, Backend.hasNode s n.id = true ∧
      ∀ l ∈ n.labels, l ∈ (contents s).labels n.id) :
    layout (Backend.putNodes s ns).2 = layout s := by
  induction ns generalizing s with
  | nil => rfl
  | cons n ns ih =>
    obtain ⟨hn, hns⟩ := List.forall_mem_cons.1 hns
    obtain ⟨⟨hstored, hlabels⟩, hold⟩ := List.forall_mem_cons.1 hold
    have hmerge := LawfulBackend.contents_mergeNode hs.sound hn.nodup_labels
    show layout (Backend.putNodes (Backend.mergeNode s n) ns).2 = _
    rw [ih (hs.mergeNode hn) hns, layout_mergeNode hs.sound hstored hlabels]
    -- What was there is still there.
    intro m hm
    obtain ⟨hstored, hlabels⟩ := hold m hm
    constructor
    · show ((contents (Backend.mergeNode s n)).node? m.id).isSome = true
      rw [hmerge, Contents.node?_mergeNode]
      split
      · rfl
      · exact hstored
    · intro l hl
      rw [hmerge, Contents.labels_mergeNode]
      split
      · exact mem_addNew.2 (.inl (hlabels l hl))
      · exact hlabels l hl

/-- Nodes that bring nothing new leave the store as it is. -/
theorem putNodes_eq_self (hs : Valid s) {ns : List StoredNode} (hns : ∀ n ∈ ns, n.WellFormed)
    (h : contents (Backend.putNodes s ns).2 = contents s) : (Backend.putNodes s ns).2 = s := by
  refine eq_of_layout_eq (hs.putNodes hns).sound hs.sound (hs.layout_putNodes hns ?_) h
  intro n hn
  rw [hs.contents_putNodes hns] at h
  constructor
  · show ((contents s).node? n.id).isSome = true
    rw [← h, Contents.isSome_node?_mergeNodes]
    exact .inr (List.mem_map_of_mem hn)
  · intro l hl
    rw [← h, Contents.labels_mergeNodes, mem_addNew, List.mem_flatMap]
    exact .inr ⟨n, List.mem_filter.2 ⟨hn, decide_eq_true rfl⟩, hl⟩

theorem layout_foldl_mergeEdge (hs : Valid s) {es : List StoredEdge}
    (hes : ∀ e ∈ es, e.WellFormed) (hjoins : ∀ e ∈ es, (contents s).joins e = true)
    (hold : ∀ e ∈ es, ((contents s).edge? e.key).isSome = true) :
    layout (es.foldl Backend.mergeEdge s) = layout s := by
  induction es generalizing s with
  | nil => rfl
  | cons e es ih =>
    obtain ⟨he, hes⟩ := List.forall_mem_cons.1 hes
    obtain ⟨hends, hjoins⟩ := List.forall_mem_cons.1 hjoins
    obtain ⟨hstored, hold⟩ := List.forall_mem_cons.1 hold
    obtain ⟨source, target⟩ := Bool.and_eq_true_iff.1 hends
    have hmerge := LawfulBackend.contents_mergeEdge hs.sound source target
    rw [List.foldl_cons, ih (hs.mergeEdge he source target) hes,
      layout_mergeEdge hs.sound source target hstored]
    · rw [hmerge]
      exact hjoins
    · intro f hf
      rw [hmerge, Contents.edge?_mergeEdge]
      split
      · rfl
      · exact hold f hf

/-- A graph that is covered leaves the layout alone when it is laid over the store. -/
theorem layout_putGraph (hs : Valid s) {g : Graph} (hg : g.IsWritable)
    (hcovers : (contents s).Covers g) : layout (Backend.putGraph s g) = layout s := by
  have ht := hs.putNodes hg.nodes.wellFormed
  have hct := hs.contents_putNodes hg.nodes.wellFormed
  have hjoins : (contents (Backend.putNodes s g.storedNodes).2).joins = (contents s).joins := by
    rw [hct]
    exact Contents.joins_congr hcovers.isSome_node?_mergeNodes
  rw [Backend.putGraph, ht.putEdges_eq hg.edges.wellFormed, ht.layout_foldl_mergeEdge,
    hs.layout_putNodes hg.nodes.wellFormed fun n hn => hcovers.node hn]
  · exact fun e he => hg.edges.wellFormed e (List.mem_filter.1 he).1
  · exact fun e he => (List.mem_filter.1 he).2
  · intro e he
    obtain ⟨he, hends⟩ := List.mem_filter.1 he
    rw [hjoins] at hends
    rw [hct, Contents.edge?_mergeNodes]
    exact hcovers.edge he hends

end Valid

end DatasetGraph
