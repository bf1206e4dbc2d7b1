import DatasetGraph.Proofs.Query.Selection
import Mathlib.Data.List.Perm.Basic

/-!
# Pages up to order

What a walk finds is fixed up to order by what is stored, so two walks from one root find
neighborhoods that differ in order only.  Two pages that show the same slice then have the same
nodes and edges up to order (`Page.Shows.agrees`), although repeats are dropped by position: a node
that comes in several parts of a page is kept where it comes first, the parts come in one order, and
no node comes twice in a part.
-/

namespace DatasetGraph

/-- Pages with the same nodes and edges in some order. -/
structure Page.Agrees (p q : Page) : Prop where
  offset_eq : p.offset = q.offset
  count_eq : p.count = q.count
  total_eq : p.total = q.total
  nodes_perm : p.nodes.Perm q.nodes
  edges_perm : p.edges.Perm q.edges

/-! ## Repeats in several parts -/

theorem unseenOn_flatten_perm {α β : Type} [DecidableEq α] {key : β → α} {xss yss : List (List β)}
    (h : List.Forall₂ (fun xs ys => xs.Perm ys ∧ (xs.map key).Nodup) xss yss) (seen : List α) :
    (unseenOn key seen xss.flatten).Perm (unseenOn key seen yss.flatten) := by
  induction h generalizing seen with
  | nil => exact List.Perm.refl _
  | @cons xs ys xss yss hxy _ ih =>
    obtain ⟨hperm, hnodup⟩ := hxy
    have hkeys := hperm.map key
    rw [List.flatten_cons, List.flatten_cons, unseenOn_append, unseenOn_append,
      unseenOn_of_nodup hnodup, unseenOn_of_nodup (hkeys.nodup_iff.1 hnodup)]
    -- What was seen before the later parts is the same, in another order.
    have hseen : ∀ k, k ∈ ys.map key ++ seen ↔ k ∈ xs.map key ++ seen := by
      intro k
      rw [List.mem_append, List.mem_append, hkeys.mem_iff]
    rw [unseenOn_congr hseen]
    exact (hperm.filter _).append (ih _)

/-- Where the key tells members apart, dropping repeats leaves the order of the list alone. -/
theorem distinctOn_perm {α β : Type} [DecidableEq α] {key : β → α} {xs ys : List β}
    (h : xs.Perm ys) (hinj : ∀ x ∈ xs, ∀ y ∈ xs, key x = key y → x = y) :
    (distinctOn key xs).Perm (distinctOn key ys) := by
  have hinj' : ∀ x ∈ ys, ∀ y ∈ ys, key x = key y → x = y := by
    intro x hx y hy
    exact hinj x (h.mem_iff.2 hx) y (h.mem_iff.2 hy)
  apply (List.perm_ext_iff_of_nodup (nodup_map_distinctOn key xs).of_map
    (nodup_map_distinctOn key ys).of_map).2
  intro x
  rw [mem_distinctOn_of_injOn hinj, mem_distinctOn_of_injOn hinj', h.mem_iff]

/-! ## Neighborhoods -/

section

variable {store : Contents} {pass : Node → Bool} {hops : Nat} {hood hood' : Neighborhood}

theorem Neighborhood.IsExact.nodes_perm (h : hood.IsExact store pass hops)
    (h' : hood'.IsExact store pass hops) (hroot : hood.root = hood'.root) :
    hood.nodes.Perm hood'.nodes := by
  apply (List.perm_ext_iff_of_nodup h.nodup_ids.of_map h'.nodup_ids.of_map).2
  intro hx
  obtain ⟨n, d⟩ := hx
  rw [h.mem_nodes_iff, h'.mem_nodes_iff, hroot]

theorem Neighborhood.IsExact.edges_perm (h : hood.IsExact store pass hops)
    (h' : hood'.IsExact store pass hops) (hroot : hood.root = hood'.root) :
    hood.edges.Perm hood'.edges := by
  apply (List.perm_ext_iff_of_nodup h.nodup_edges h'.nodup_edges).2
  intro e
  rw [h.mem_edges_iff, h'.mem_edges_iff, hroot]

end

/-! ## Parts of a page -/

section

variable {store : Contents} {c : Criteria}

/-- A root and what was found of it. -/
def Found (store : Contents) (root : Node) (hood : Neighborhood) : Prop :=
  hood.root = root.id ∧ hood.IsExact store Node.isDependent maxHops

variable {root : Node} {hood hood' : Neighborhood}

theorem Found.included_perm (h : Found store root hood) (h' : Found store root hood') :
    (c.included hood).Perm (c.included hood') :=
  ((h.2.nodes_perm h'.2 (h.1.trans h'.1.symm)).map Prod.fst).filter _

/-- No node comes twice in what is returned of one root. -/
theorem Found.nodup_shown (h : Found store root hood) :
    ((shown c root hood).1.map Node.id).Nodup := by
  show ((c.project root).id :: (c.included hood).map Node.id).Nodup
  rw [List.nodup_cons, project_id]
  constructor
  · -- A walk does not come back to its root.
    intro hmem
    obtain ⟨n, hn, hid⟩ := List.mem_map.1 hmem
    obtain ⟨⟨m, d⟩, hm, rfl⟩ := List.mem_map.1 (List.mem_filter.1 hn).1
    obtain ⟨_, hpos, _, hdist⟩ := h.2.mem_nodes_iff.1 hm
    exact hdist.ne_root hpos (hid.trans h.1.symm)
  · have hids : ((hood.nodes.map Prod.fst).map Node.id).Nodup := by
      rw [List.map_map]
      exact h.2.nodup_ids
    exact (List.filter_sublist.map Node.id).nodup hids

theorem Found.shown_perm (h : Found store root hood) (h' : Found store root hood') :
    (shown c root hood).1.Perm (shown c root hood').1 ∧
      (shown c root hood).2.Perm (shown c root hood').2 := by
  have hincluded := h.included_perm h' (c := c)
  refine ⟨hincluded.cons _, ?_⟩
  -- Which edges are returned depends on the nodes that are, not on their order.
  have hids : ∀ id, (root.id :: (c.included hood).map Node.id).contains id =
      (root.id :: (c.included hood').map Node.id).contains id := by
    intro id
    rw [Bool.eq_iff_iff, List.contains_iff_mem, List.contains_iff_mem]
    exact ((hincluded.map Node.id).cons root.id).mem_iff
  show (hood.edges.filter fun e => _ && _).Perm (hood'.edges.filter fun e => _ && _)
  simp only [hids]
  exact (h.2.edges_perm h'.2 (h.1.trans h'.1.symm)).filter _

/-! ## Pages -/

variable {roots : List Node} {hoods hoods' : List Neighborhood}

theorem parts_alike (h : List.Forall₂ (Found store) roots hoods)
    (h' : List.Forall₂ (Found store) roots hoods') :
    List.Forall₂ (fun x y => x.1.Perm y.1 ∧ (x.1.map Node.id).Nodup ∧ x.2.Perm y.2)
      (List.zipWith (shown c) roots hoods) (List.zipWith (shown c) roots hoods') := by
  induction h generalizing hoods' with
  | nil =>
    cases h'
    exact List.Forall₂.nil
  | cons hfound _ ih =>
    cases h' with
    | cons hfound' hrest' =>
      obtain ⟨hnodes, hedges⟩ := hfound.shown_perm hfound' (c := c)
      exact List.Forall₂.cons ⟨hnodes, hfound.nodup_shown, hedges⟩ (ih hrest')

theorem exists_found_of_mem_parts (h : List.Forall₂ (Found store) roots hoods)
    {part : List Node × List Edge} (hpart : part ∈ List.zipWith (shown c) roots hoods) :
    ∃ root ∈ roots, ∃ hood, Found store root hood ∧ part = shown c root hood := by
  induction h with
  | nil => cases hpart
  | cons hfound _ ih =>
    rcases List.mem_cons.1 hpart with rfl | hpart
    · exact ⟨_, List.mem_cons_self, _, hfound, rfl⟩
    · obtain ⟨root, hroot, hrest⟩ := ih hpart
      exact ⟨root, List.mem_cons_of_mem _ hroot, hrest⟩

/-- The edges that are returned are stored. -/
theorem holdsEdge_of_mem_parts (h : List.Forall₂ (Found store) roots hoods) {e : Edge}
    (he : e ∈ (List.zipWith (shown c) roots hoods).flatMap Prod.snd) : store.HoldsEdge e := by
  obtain ⟨part, hpart, he⟩ := List.mem_flatMap.1 he
  obtain ⟨root, _, hood, hfound, rfl⟩ := exists_found_of_mem_parts h hpart
  exact (hfound.2.mem_edges_iff.1 (List.mem_filter.1 he).1).1

/-- Stored edges are told apart by their keys, so no edge stands for another one. -/
theorem eq_of_fingerprint_eq (hstore : store.WellFormed)
    (h : List.Forall₂ (Found store) roots hoods) :
    ∀ e ∈ (List.zipWith (shown c) roots hoods).flatMap Prod.snd,
      ∀ f ∈ (List.zipWith (shown c) roots hoods).flatMap Prod.snd,
        e.fingerprint = f.fingerprint → e = f := by
  intro e he f hf hef
  exact hstore.eq_of_key_eq (holdsEdge_of_mem_parts h he) (holdsEdge_of_mem_parts h hf)
    (congrArg Prod.fst hef)

theorem shownNodes_perm (h : List.Forall₂ (Found store) roots hoods)
    (h' : List.Forall₂ (Found store) roots hoods') :
    (shownNodes c roots hoods).Perm (shownNodes c roots hoods') := by
  have hparts := parts_alike h h' (c := c)
  rw [shownNodes, shownNodes, List.flatMap_def, List.flatMap_def]
  apply unseenOn_flatten_perm
  rw [List.forall₂_map_left_iff, List.forall₂_map_right_iff]
  exact hparts.imp fun _ _ hxy => ⟨hxy.1, hxy.2.1⟩

theorem shownEdges_perm (hstore : store.WellFormed) (h : List.Forall₂ (Found store) roots hoods)
    (h' : List.Forall₂ (Found store) roots hoods') :
    (shownEdges c roots hoods).Perm (shownEdges c roots hoods') := by
  have hparts := parts_alike h h' (c := c)
  apply distinctOn_perm
  · rw [List.flatMap_def, List.flatMap_def]
    apply List.Perm.flatten_congr
    rw [List.forall₂_map_left_iff, List.forall₂_map_right_iff]
    exact hparts.imp fun _ _ hxy => hxy.2.2
  · exact eq_of_fingerprint_eq hstore h

theorem Page.Shows.agrees (hstore : store.WellFormed) {offset count : Nat} {p q : Page}
    (hp : p.Shows store c roots offset count) (hq : q.Shows store c roots offset count) :
    p.Agrees q := by
  obtain ⟨hoods, hfound, hnodes, hedges⟩ := hp.expands
  obtain ⟨hoods', hfound', hnodes', hedges'⟩ := hq.expands
  constructor
  case offset_eq => rw [hp.offset_eq, hq.offset_eq]
  case count_eq => rw [hp.count_eq, hq.count_eq]
  case total_eq => rw [hp.total_eq, hq.total_eq]
  case nodes_perm =>
    rw [hnodes, hnodes']
    exact shownNodes_perm hfound hfound'
  case edges_perm =>
    rw [hedges, hedges']
    exact shownEdges_perm hstore hfound hfound'

end

end DatasetGraph
