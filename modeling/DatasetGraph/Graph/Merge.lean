import DatasetGraph.Distinct
import DatasetGraph.Graph.Basic

/-!
# Graphs from repeated elements

A graph can be put together from nodes and edges that come more than once.  A node whose id is there
already adds its new labels to it and lays its properties over those it has; an edge with the ends
and labels of one that is there lays its properties over.  Elements stay where they first came.
-/

namespace DatasetGraph

/-- Change the first member that passes, or put `new` at the end if none does. -/
def updateOrAppend {α : Type} (passes : α → Bool) (change : α → α) (new : α) : List α → List α
  | [] => [new]
  | x :: xs => if passes x then change x :: xs else x :: updateOrAppend passes change new xs

/-- A member of the changed list was there, or is a change of one that was, or is new. -/
theorem mem_updateOrAppend {α : Type} {passes : α → Bool} {change : α → α} {new x : α}
    {xs : List α} (h : x ∈ updateOrAppend passes change new xs) :
    x ∈ xs ∨ (∃ y ∈ xs, x = change y) ∨ x = new := by
  induction xs with
  | nil => exact .inr (.inr (List.mem_singleton.1 h))
  | cons y ys ih =>
    rw [updateOrAppend] at h
    split at h
    · rcases List.mem_cons.1 h with rfl | h
      · exact .inr (.inl ⟨y, List.mem_cons_self, rfl⟩)
      · exact .inl (List.mem_cons_of_mem _ h)
    · rcases List.mem_cons.1 h with rfl | h
      · exact .inl List.mem_cons_self
      · rcases ih h with h | ⟨z, hz, rfl⟩ | rfl
        · exact .inl (List.mem_cons_of_mem _ h)
        · exact .inr (.inl ⟨z, List.mem_cons_of_mem _ hz, rfl⟩)
        · exact .inr (.inr rfl)

section

variable {α κ : Type} [DecidableEq κ] (key : α → κ) {k : κ} {change : α → α} {new : α}

/-- Changed by a key, a list gains that key if it did not have it. -/
theorem map_updateOrAppend (hchange : ∀ x, key (change x) = key x) (hnew : key new = k)
    (xs : List α) :
    (updateOrAppend (fun x => key x = k) change new xs).map key = insertNew (xs.map key) k := by
  induction xs with
  | nil => simp [updateOrAppend, insertNew, hnew]
  | cons x xs ih =>
    rw [updateOrAppend, List.map_cons, insertNew]
    by_cases hx : key x = k
    · simp [hx, hchange]
    · rw [if_neg (by simpa using hx), List.map_cons, ih, insertNew]
      by_cases hk : k ∈ xs.map key
      · rw [if_pos hk, if_pos (List.mem_cons_of_mem _ hk)]
      · rw [if_neg hk, if_neg (by simpa [Ne.symm hx] using hk), List.cons_append]

/-- Changed by a key, a list holds under that key what was there, changed, or the new member; it
holds what it held under any other. -/
theorem find?_updateOrAppend (hchange : ∀ x, key (change x) = key x) (hnew : key new = k)
    (xs : List α) (j : κ) :
    (updateOrAppend (fun x => key x = k) change new xs).find? (fun x => key x = j) =
      if j = k then some (((xs.find? fun x => key x = k).map change).getD new)
      else xs.find? fun x => key x = j := by
  induction xs with
  | nil =>
    by_cases hj : j = k
    · simp [updateOrAppend, hnew, hj]
    · simp [updateOrAppend, hnew, hj, Ne.symm hj]
  | cons x xs ih =>
    rw [updateOrAppend]
    by_cases hx : key x = k
    · by_cases hj : j = k
      · simp [hx, hj, hchange]
      · simp [hx, hj, hchange, Ne.symm hj]
    · rw [if_neg (by simpa using hx), List.find?_cons, List.find?_cons, List.find?_cons, ih]
      by_cases hj : j = k
      · subst hj
        simp [hx]
      · simp [hj]

end

/-- A node or an edge. -/
inductive Element where
  | node (n : Node)
  | edge (e : Edge)

/-- Take over the labels and properties of another node. -/
def Node.merge (n m : Node) : Node :=
  { n with labels := addNew n.labels m.labels, properties := n.properties.overlay m.properties }

/-- Take over the properties of another edge. -/
def Edge.merge (e f : Edge) : Edge := { e with properties := e.properties.overlay f.properties }

namespace Graph

/-- Add a node, or merge it into the one with its id. -/
def addNode (g : Graph) (n : Node) : Graph :=
  { g with nodes := updateOrAppend (fun m => m.id = n.id) (·.merge n) n g.nodes }

/-- Add an edge, or merge it into the one with its ends and labels. -/
def addEdge (g : Graph) (e : Edge) : Graph :=
  { g with edges := updateOrAppend (fun f => f.key = e.key) (·.merge e) e g.edges }

/-- Add an element. -/
def add (g : Graph) : Element → Graph
  | .node n => g.addNode n
  | .edge e => g.addEdge e

/-- The graph of a sequence of elements. -/
def ofElements (elements : List Element) : Graph := elements.foldl add empty

end Graph

end DatasetGraph
