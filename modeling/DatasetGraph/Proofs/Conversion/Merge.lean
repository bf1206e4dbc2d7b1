import DatasetGraph.Graph.Merge
import DatasetGraph.Proofs.Store.Contents
import Mathlib.Data.List.Induction

/-!
# What merging makes of elements

A graph that is put together from elements has one node for each id among its node elements, in the
order in which the ids come (`map_id_nodes`), and that node is all elements of the id laid over each
other (`node?_ofElements`).  So it carries the labels of all of them and no other label
(`mem_labels_iff`), and no value that none of them brings (`all_properties`).

Edges without properties have nothing to be laid over, and only repeats are dropped
(`edges_ofElements`).
-/

namespace DatasetGraph

/-- Where no member passes, the new one is put at the end. -/
theorem updateOrAppend_of_forall {α : Type} {passes : α → Bool} {change : α → α} {new : α}
    {xs : List α} (h : ∀ x ∈ xs, passes x = false) :
    updateOrAppend passes change new xs = xs ++ [new] := by
  induction xs with
  | nil => rfl
  | cons x xs ih =>
    obtain ⟨hx, hxs⟩ := List.forall_mem_cons.1 h
    rw [updateOrAppend, if_neg (by simp [hx]), ih hxs, List.cons_append]

section

variable {α : Type} [DecidableEq α]

theorem distinct_append_singleton (xs : List α) (y : α) :
    distinct (xs ++ [y]) = insertNew (distinct xs) y := addNew_append [] xs [y]

/-- Where only `y` itself passes and the change is none, `y` is put in if it is new. -/
theorem updateOrAppend_eq_insertNew {passes : α → Bool} {change : α → α} {y : α} {xs : List α}
    (hpasses : ∀ x ∈ xs, passes x = true ↔ x = y) (hchange : change y = y) :
    updateOrAppend passes change y xs = insertNew xs y := by
  induction xs with
  | nil => rfl
  | cons x xs ih =>
    have hx := hpasses x List.mem_cons_self
    rw [updateOrAppend, ih fun z hz => hpasses z (List.mem_cons_of_mem _ hz)]
    by_cases h : x = y
    · rw [if_pos (hx.2 h), h, hchange, insertNew, if_pos List.mem_cons_self]
    · rw [if_neg fun hp => h (hx.1 hp), insertNew, insertNew]
      by_cases hy : y ∈ xs
      · rw [if_pos hy, if_pos (List.mem_cons_of_mem _ hy)]
      · have hyx : y ∉ x :: xs := by simp [hy, Ne.symm h]
        rw [if_neg hy, if_neg hyx, List.cons_append]

end

/-! ## Lists merged by a key -/

section

variable {α κ : Type} [DecidableEq κ]

/-- The members of each key merged into the first of them. -/
def mergedBy (key : α → κ) (merge : α → α → α) (xs : List α) : List α :=
  xs.foldl (fun ys x => updateOrAppend (fun y => key y = key x) (merge · x) x ys) []

variable {key : α → κ} {merge : α → α → α}

theorem mergedBy_append_singleton (xs : List α) (x : α) : mergedBy key merge (xs ++ [x]) =
    updateOrAppend (fun y => key y = key x) (merge · x) x (mergedBy key merge xs) :=
  List.foldl_append

/-- There is one member for each key, where the key first comes. -/
theorem map_mergedBy (hkey : ∀ x y, key (merge x y) = key x) (xs : List α) :
    (mergedBy key merge xs).map key = distinct (xs.map key) := by
  induction xs using List.reverseRecOn with
  | nil => rfl
  | append_singleton xs x ih =>
    rw [mergedBy_append_singleton, map_updateOrAppend key (fun y => hkey y x) rfl, ih,
      List.map_append]
    exact (distinct_append_singleton _ _).symm

/-- Members whose keys come once are not merged. -/
theorem mergedBy_of_nodup {xs : List α} (h : (xs.map key).Nodup) : mergedBy key merge xs = xs := by
  induction xs using List.reverseRecOn with
  | nil => rfl
  | append_singleton xs x ih =>
    rw [List.map_append, List.map_singleton, List.nodup_append] at h
    obtain ⟨hxs, -, hnew⟩ := h
    rw [mergedBy_append_singleton, ih hxs]
    apply updateOrAppend_of_forall
    intro y hy
    exact decide_eq_false (hnew _ (List.mem_map_of_mem hy) _ (List.mem_singleton_self _))

/-- What holds of all members and is kept by merging holds of the merged ones. -/
theorem forall_mem_mergedBy {P : α → Prop} (hmerge : ∀ x y, P x → P y → P (merge x y))
    {xs : List α} (hxs : ∀ x ∈ xs, P x) : ∀ y ∈ mergedBy key merge xs, P y := by
  apply List.foldlRecOn xs _ (motive := fun ys => ∀ y ∈ ys, P y) (List.forall_mem_nil P)
  intro ys hys x hx y hy
  rcases mem_updateOrAppend hy with hy | ⟨z, hz, rfl⟩ | rfl
  · exact hys y hy
  · exact hmerge z x (hys z hz) (hxs x hx)
  · exact hxs y hx

end

/-- The node, if the element is one. -/
def Element.node? : Element → Option Node
  | node n => some n
  | edge _ => none

/-- The edge, if the element is one. -/
def Element.edge? : Element → Option Edge
  | node _ => none
  | edge e => some e

@[simp] theorem Element.mem_node?_iff {x : Element} {n : Node} :
    x.node? = some n ↔ x = .node n := by
  cases x <;> simp [node?]

@[simp] theorem Element.mem_edge?_iff {x : Element} {e : Edge} :
    x.edge? = some e ↔ x = .edge e := by
  cases x <;> simp [edge?]

/-- Nodes laid over each other. -/
def Node.merged? : List Node → Option Node
  | [] => none
  | n :: ns => some (ns.foldl merge n)

namespace Node

theorem merged?_append_singleton (ns : List Node) (m : Node) :
    merged? (ns ++ [m]) = some (((merged? ns).map (·.merge m)).getD m) := by
  cases ns with
  | nil => rfl
  | cons n ns => exact congrArg some List.foldl_append

theorem mem_labels_merged {ns : List Node} {n : Node} (h : merged? ns = some n) {l : String} :
    l ∈ n.labels ↔ ∃ m ∈ ns, l ∈ m.labels := by
  cases ns with
  | nil => cases h
  | cons m ns =>
    cases h
    induction ns generalizing m with
    | nil => simp
    | cons k ns ih => rw [List.foldl_cons, ih]; simp [merge, or_assoc]

theorem all_properties_merged {P : Json → Prop} {ns : List Node} {n : Node}
    (h : merged? ns = some n) (hns : ∀ m ∈ ns, m.properties.All P) : n.properties.All P := by
  cases ns with
  | nil => cases h
  | cons m ns =>
    cases h
    obtain ⟨hm, hns⟩ := List.forall_mem_cons.1 hns
    apply List.foldlRecOn ns merge (motive := fun n => n.properties.All P) hm
    exact fun _ hk j hj => hk.overlay (hns j hj)

end Node

namespace Edge

@[simp] theorem key_plain (source target label : String) :
    (plain source target label).key = ⟨source, target, [label]⟩ := by
  rw [key, plain, sortTexts, List.mergeSort_singleton]

theorem key_plain_inj {source target label source' target' label' : String} :
    (plain source target label).key = (plain source' target' label').key ↔
      plain source target label = plain source' target' label' := by
  rw [key_plain, key_plain]
  simp [plain]

end Edge

namespace Graph

theorem ofElements_append_singleton (xs : List Element) (x : Element) :
    ofElements (xs ++ [x]) = (ofElements xs).add x := List.foldl_append

@[simp] theorem nodes_add_edge (g : Graph) (e : Edge) : (g.add (.edge e)).nodes = g.nodes := rfl

@[simp] theorem edges_add_node (g : Graph) (n : Node) : (g.add (.node n)).edges = g.edges := rfl

/-! ## Nodes -/

/-- The nodes among elements. -/
def nodesAmong (xs : List Element) : List Node := xs.filterMap Element.node?

@[simp] theorem nodesAmong_append (xs ys : List Element) :
    nodesAmong (xs ++ ys) = nodesAmong xs ++ nodesAmong ys := List.filterMap_append

@[simp] theorem nodesAmong_singleton_node (n : Node) : nodesAmong [.node n] = [n] := rfl

@[simp] theorem nodesAmong_singleton_edge (e : Edge) : nodesAmong [.edge e] = [] := rfl

@[simp] theorem mem_nodesAmong {xs : List Element} {n : Node} :
    n ∈ nodesAmong xs ↔ Element.node n ∈ xs := by
  simp [nodesAmong]

theorem nodes_ofElements (xs : List Element) :
    (ofElements xs).nodes = mergedBy Node.id Node.merge (nodesAmong xs) := by
  induction xs using List.reverseRecOn with
  | nil => rfl
  | append_singleton xs x ih =>
    rw [ofElements_append_singleton]
    cases x with
    | edge e => rw [nodes_add_edge, ih, nodesAmong_append, nodesAmong_singleton_edge, List.append_nil]
    | node n =>
      rw [nodesAmong_append, nodesAmong_singleton_node, mergedBy_append_singleton, ← ih]
      rfl

/-- There is one node for each id, where the id first comes. -/
theorem map_id_nodes (xs : List Element) :
    (ofElements xs).nodes.map Node.id = distinct ((nodesAmong xs).map Node.id) := by
  rw [nodes_ofElements]
  exact map_mergedBy (by intro m n; rfl) _

theorem nodup_map_id_nodes (xs : List Element) : ((ofElements xs).nodes.map Node.id).Nodup := by
  rw [map_id_nodes]
  exact nodup_distinct _

theorem node?_ofElements (xs : List Element) (id : String) :
    (ofElements xs).node? id = Node.merged? ((nodesAmong xs).filter fun n => n.id = id) := by
  induction xs using List.reverseRecOn with
  | nil => rfl
  | append_singleton xs x ih =>
    rw [ofElements_append_singleton]
    cases x with
    | edge e => simpa [node?] using ih
    | node n =>
      show (updateOrAppend _ _ n (ofElements xs).nodes).find? _ = _
      rw [find?_updateOrAppend Node.id (by intro m; rfl) (by rfl), nodesAmong_append,
        nodesAmong_singleton_node, List.filter_append]
      by_cases hid : id = n.id
      · subst hid
        rw [if_pos rfl, List.filter_cons_of_pos (by simp), List.filter_nil,
          Node.merged?_append_singleton, ← ih]
        rfl
      · rw [if_neg hid, List.filter_cons_of_neg (by simpa using Ne.symm hid), List.filter_nil,
          List.append_nil, ← ih]
        rfl

/-- A node of the graph is its elements laid over each other. -/
theorem merged?_of_mem_nodes {xs : List Element} {n : Node} (h : n ∈ (ofElements xs).nodes) :
    Node.merged? ((nodesAmong xs).filter fun m => m.id = n.id) = some n := by
  rw [← node?_ofElements]
  exact (find?_key_eq_some_iff (nodup_map_id_nodes xs)).2 ⟨h, rfl⟩

/-- A node of the graph carries the labels of the elements of its id. -/
theorem mem_labels_iff {xs : List Element} {n : Node} (h : n ∈ (ofElements xs).nodes)
    {l : String} : l ∈ n.labels ↔ ∃ m, Element.node m ∈ xs ∧ m.id = n.id ∧ l ∈ m.labels := by
  rw [Node.mem_labels_merged (merged?_of_mem_nodes h)]
  simp [and_assoc]

theorem all_properties {P : Json → Prop} {xs : List Element}
    (hxs : ∀ m, Element.node m ∈ xs → m.properties.All P) {n : Node}
    (h : n ∈ (ofElements xs).nodes) : n.properties.All P := by
  refine Node.all_properties_merged (merged?_of_mem_nodes h) ?_
  intro m hm
  exact hxs m (mem_nodesAmong.1 (List.mem_filter.1 hm).1)

/-! ## Edges -/

/-- The edges among elements. -/
def edgesAmong (xs : List Element) : List Edge := xs.filterMap Element.edge?

@[simp] theorem edgesAmong_append (xs ys : List Element) :
    edgesAmong (xs ++ ys) = edgesAmong xs ++ edgesAmong ys := List.filterMap_append

@[simp] theorem edgesAmong_singleton_node (n : Node) : edgesAmong [.node n] = [] := rfl

@[simp] theorem edgesAmong_singleton_edge (e : Edge) : edgesAmong [.edge e] = [e] := rfl

@[simp] theorem mem_edgesAmong {xs : List Element} {e : Edge} :
    e ∈ edgesAmong xs ↔ Element.edge e ∈ xs := by
  simp [edgesAmong]

theorem edges_ofElements_eq_mergedBy (xs : List Element) :
    (ofElements xs).edges = mergedBy Edge.key Edge.merge (edgesAmong xs) := by
  induction xs using List.reverseRecOn with
  | nil => rfl
  | append_singleton xs x ih =>
    rw [ofElements_append_singleton]
    cases x with
    | node n => rw [edges_add_node, ih, edgesAmong_append, edgesAmong_singleton_node, List.append_nil]
    | edge e =>
      rw [edgesAmong_append, edgesAmong_singleton_edge, mergedBy_append_singleton, ← ih]
      rfl

/-- Of plain edges, only repeats are dropped. -/
theorem edges_ofElements {xs : List Element}
    (h : ∀ e, Element.edge e ∈ xs → ∃ source target label, e = .plain source target label) :
    (ofElements xs).edges = distinct (edgesAmong xs) := by
  induction xs using List.reverseRecOn with
  | nil => rfl
  | append_singleton xs x ih =>
    have hxs := ih fun e he => h e (List.mem_append_left _ he)
    rw [ofElements_append_singleton]
    cases x with
    | node n => simpa using hxs
    | edge e =>
      obtain ⟨source, target, label, rfl⟩ := h e (List.mem_append_right _ (List.mem_singleton_self _))
      show updateOrAppend _ _ _ (ofElements xs).edges = _
      rw [hxs, updateOrAppend_eq_insertNew, edgesAmong_append, edgesAmong_singleton_edge]
      · exact (distinct_append_singleton _ _).symm
      · intro f hf
        obtain ⟨source', target', label', rfl⟩ :=
          h f (List.mem_append_left _ (mem_edgesAmong.1 (mem_distinct.1 hf)))
        rw [decide_eq_true_eq]
        exact Edge.key_plain_inj
      · rfl

end Graph

end DatasetGraph
