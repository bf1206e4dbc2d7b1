import DatasetGraph.Proofs.Store.Ingest
import Mathlib.Logic.Function.Iterate

/-!
# Values under writes

A write of a node lays the values that it brings over those that are there, and settles them all
anew.  So what stands under one id and key after many writes is found by following that value alone:
whatever the nodes of the id bring under the key is laid over it, one after the other
(`value?_mergeNodes`), and a node that brings nothing there settles it once more.  Of relationships
the same is true (`relationValue?_layEdges`).

Nodes are told apart by their labels and values (`WellFormed.node?_eq`), and the properties of
relationships by their values (`edge?_eq_of_values`).  So contents that hold the same nodes,
labels and relationships are the same if their values are (`Contents.UpToValues`).
-/

namespace DatasetGraph

/-! ## Values laid over others -/

/-- A value over which others are laid, one after the other, and which is settled each time. -/
def laidOver (settle : Json → Json) (v : Option Json) (ws : List (Option Json)) : Option Json :=
  ws.foldl (fun v w => (w.or v).map settle) v

section

variable {settle : Json → Json} {v : Option Json} {ws : List (Option Json)}

theorem laidOver_append (us : List (Option Json)) :
    laidOver settle v (ws ++ us) = laidOver settle (laidOver settle v ws) us :=
  List.foldl_append

/-- A value that is there is not lost. -/
theorem isSome_laidOver (hv : v.isSome = true) (ws : List (Option Json)) :
    (laidOver settle v ws).isSome = true := by
  induction ws generalizing v with
  | nil => exact hv
  | cons w ws ih =>
    refine ih (v := (w.or v).map settle) ?_
    rw [Option.isSome_map, Option.isSome_or, hv, Bool.or_true]

/-- Under a value that is laid over it, it does not matter what was there. -/
theorem laidOver_congr (h : ∃ w ∈ ws, w ≠ none) (u v : Option Json) :
    laidOver settle u ws = laidOver settle v ws := by
  induction ws generalizing u v with
  | nil =>
    obtain ⟨w, hw, _⟩ := h
    cases hw
  | cons w ws ih =>
    show laidOver settle ((w.or u).map settle) ws = laidOver settle ((w.or v).map settle) ws
    cases w with
    | some x => rfl
    | none =>
      obtain ⟨w, hw, hne⟩ := h
      rcases List.mem_cons.1 hw with rfl | hw
      · exact absurd rfl hne
      · exact ih ⟨w, hw, hne⟩ _ _

theorem laidOver_of_forall_eq_none (h : ∀ w ∈ ws, w = none) (v : Option Json) :
    laidOver settle v ws = v.map settle^[ws.length] := by
  induction ws generalizing v with
  | nil => exact Option.map_id'.symm
  | cons w ws ih =>
    obtain ⟨hw, hws⟩ := List.forall_mem_cons.1 h
    show laidOver settle ((w.or v).map settle) ws = _
    rw [hw, Option.none_or, ih hws, Option.map_map]
    rfl

/-- What others bring stands over a value; if they bring none, the value is settled each time. -/
theorem laidOver_eq_or (v : Option Json) (ws : List (Option Json)) :
    laidOver settle v ws = (laidOver settle none ws).or (v.map settle^[ws.length]) := by
  by_cases h : ∀ w ∈ ws, w = none
  · rw [laidOver_of_forall_eq_none h, laidOver_of_forall_eq_none h]
    rfl
  · push Not at h
    have hsome : (laidOver settle none ws).isSome = true := by
      obtain ⟨w, hw, hne⟩ := h
      obtain ⟨before, after, rfl⟩ := List.append_of_mem hw
      obtain ⟨x, rfl⟩ := Option.ne_none_iff_exists'.1 hne
      rw [laidOver_append]
      exact isSome_laidOver rfl after
    rw [Option.or_of_isSome hsome]
    exact laidOver_congr h _ _

theorem laidOver_twice_iff : laidOver settle (laidOver settle v ws) ws = laidOver settle v ws ↔
    ((∀ w ∈ ws, w = none) → ∀ x, v = some x →
      settle^[ws.length] (settle^[ws.length] x) = settle^[ws.length] x) := by
  by_cases h : ∀ w ∈ ws, w = none
  · rw [laidOver_of_forall_eq_none h, laidOver_of_forall_eq_none h]
    cases v with
    | none => exact ⟨fun _ _ => nofun, fun _ => rfl⟩
    | some x =>
      constructor
      · rintro hx _ _ ⟨⟩
        exact Option.some.inj hx
      · exact fun hx => congrArg some (hx h x rfl)
  · have hsome : ∃ w ∈ ws, w ≠ none := by
      push Not at h
      exact h
    exact ⟨fun _ hnone => absurd hnone h, fun _ => laidOver_congr hsome _ _⟩

/-- Values that some members of a list bring are laid over one twice. -/
theorem laidOver_filter_twice_iff {α : Type} {xs : List α} {p : α → Bool} {f : α → Option Json} :
    laidOver settle (laidOver settle v ((xs.filter p).map f)) ((xs.filter p).map f) =
        laidOver settle v ((xs.filter p).map f) ↔
      ∀ x, v = some x → (∀ a ∈ xs, p a = true → f a = none) →
        settle^[(xs.filter p).length] (settle^[(xs.filter p).length] x) =
          settle^[(xs.filter p).length] x := by
  rw [laidOver_twice_iff, List.length_map, List.forall_mem_map, List.forall_mem_filter]
  exact ⟨fun h x hx hnone => h hnone x hx, fun h hnone x hx => h x hx hnone⟩

/-- What is looked up under a key, if a write under that key lays a value over it and any other write
leaves it alone. -/
theorem foldl_eq_laidOver {α β κ : Type} [DecidableEq κ] (look : β → Option Json)
    {write : β → α → β} {keyOf : α → κ} {brings : α → Option Json} {k : κ}
    (hwrite : ∀ b x, look (write b x) =
      if k = keyOf x then ((brings x).or (look b)).map settle else look b) (xs : List α) (b : β) :
    look (xs.foldl write b) =
      laidOver settle (look b) ((xs.filter fun x => keyOf x = k).map brings) := by
  induction xs generalizing b with
  | nil => rfl
  | cons x xs ih =>
    rw [List.foldl_cons, ih, hwrite]
    by_cases hk : k = keyOf x
    · rw [if_pos hk, List.filter_cons_of_pos (by simpa using hk.symm)]
      rfl
    · rw [if_neg hk, List.filter_cons_of_neg (by simpa using Ne.symm hk)]

end

/-! ## Values of nodes and of relationships -/

/-- What nodes bring under an id and a key. -/
def valuesOf (ns : List StoredNode) (id key : String) : List (Option Json) :=
  (ns.filter fun n => n.id = id).map fun n => n.properties.get? key

/-- What relationships bring under their own key and one of a property. -/
def relationValuesOf (es : List StoredEdge) (k : RelationKey) (key : String) :
    List (Option Json) :=
  (es.filter fun e => e.key = k).map fun e => e.properties.get? key

namespace Contents

/-- The value that is stored under an id and a key. -/
def value? (c : Contents) (id key : String) : Option Json :=
  (c.node? id).bind fun n => n.properties.get? key

/-- The value that a relationship has under a key. -/
def relationValue? (c : Contents) (k : RelationKey) (key : String) : Option Json :=
  (c.edge? k).bind fun p => p.get? key

variable {settle : Json → Json} {c : Contents}

theorem value?_mergeNode (n : StoredNode) (id key : String) :
    (c.mergeNode settle n).value? id key =
      if id = n.id then ((n.properties.get? key).or (c.value? id key)).map settle
      else c.value? id key := by
  rw [value?, value?, node?_mergeNode]
  split
  · rw [Option.bind_some, mergedNode, KeyMap.get?_mapValues, KeyMap.get?_overlay]
    cases c.node? id <;> rfl
  · rfl

/-- The nodes of an id are laid over the value one after the other. -/
theorem value?_mergeNodes (ns : List StoredNode) (id key : String) :
    (c.mergeNodes settle ns).value? id key =
      laidOver settle (c.value? id key) (valuesOf ns id key) :=
  foldl_eq_laidOver (fun c => c.value? id key) (fun _ n => value?_mergeNode n id key) ns c

theorem relationValue?_mergeEdge (e : StoredEdge) (k : RelationKey) (key : String) :
    (c.mergeEdge settle e).relationValue? k key =
      if k = e.key then ((e.properties.get? key).or (c.relationValue? k key)).map settle
      else c.relationValue? k key := by
  rw [relationValue?, relationValue?, edge?_mergeEdge]
  split
  · rw [Option.bind_some, mergedProperties, KeyMap.get?_mapValues, KeyMap.get?_overlay]
    cases c.edge? k <;> rfl
  · rfl

/-- The relationships of a key are laid over the value one after the other. -/
theorem relationValue?_layEdges (es : List StoredEdge) (k : RelationKey) (key : String) :
    (c.layEdges settle es).relationValue? k key =
      laidOver settle (c.relationValue? k key) (relationValuesOf es k key) :=
  foldl_eq_laidOver (fun c => c.relationValue? k key)
    (fun _ e => relationValue?_mergeEdge e k key) es c

end Contents

/-! ## Told apart by values -/

/-- Where one is there exactly if the other is, they are related if they are whenever both are
there. -/
theorem rel_of_isSome_eq {α : Type} {R : α → α → Prop} {x y : Option α}
    (h : x.isSome = y.isSome) (hR : ∀ a b, x = some a → y = some b → R a b) : Option.Rel R x y := by
  cases x with
  | none =>
    cases y with
    | none => exact .none
    | some b => cases h
  | some a =>
    cases y with
    | none => cases h
    | some b => exact .some (hR a b rfl rfl)

theorem eq_of_isSome_eq {α : Type} {x y : Option α} (h : x.isSome = y.isSome)
    (hsame : ∀ a b, x = some a → y = some b → a = b) : x = y := by
  cases rel_of_isSome_eq h hsame with
  | none => rfl
  | some hab => exact congrArg some hab

namespace Contents

variable {c d : Contents}

theorem properties_eq_of_values {id : String} {m n : StoredNode} (hm : c.node? id = some m)
    (hn : d.node? id = some n) (hvalues : ∀ key, c.value? id key = d.value? id key) :
    m.properties = n.properties := by
  apply KeyMap.ext_get?
  intro key
  have hvalue := hvalues key
  rwa [value?, value?, hm, hn] at hvalue

/-- Nodes are told apart by their labels and values. -/
theorem WellFormed.node?_eq (hc : c.WellFormed) (hd : d.WellFormed) {id : String}
    (hstored : (c.node? id).isSome = (d.node? id).isSome) (hlabels : c.labels id = d.labels id)
    (hvalues : ∀ key, c.value? id key = d.value? id key) : c.node? id = d.node? id := by
  apply eq_of_isSome_eq hstored
  intro m n hm hn
  rw [labels, labels, hm, hn] at hlabels
  have hid : m.id = n.id := (hc.id_eq hm).trans (hd.id_eq hn).symm
  have hproperties := properties_eq_of_values hm hn hvalues
  obtain ⟨_, _, _⟩ := m
  obtain ⟨_, _, _⟩ := n
  cases hid
  cases hlabels
  cases hproperties
  rfl

/-- The properties of relationships are told apart by their values. -/
theorem edge?_eq_of_values {k : RelationKey}
    (hstored : (c.edge? k).isSome = (d.edge? k).isSome)
    (hvalues : ∀ key, c.relationValue? k key = d.relationValue? k key) : c.edge? k = d.edge? k := by
  apply eq_of_isSome_eq hstored
  intro p q hp hq
  apply KeyMap.ext_get?
  intro key
  have hvalue := hvalues key
  rwa [relationValue?, relationValue?, hp, hq] at hvalue

/-- Contents that differ at most in values. -/
structure UpToValues (c d : Contents) : Prop where
  node (id : String) : (c.node? id).isSome = (d.node? id).isSome
  labels (id : String) : c.labels id = d.labels id
  edge (k : RelationKey) : (c.edge? k).isSome = (d.edge? k).isSome

namespace UpToValues

theorem symm (h : c.UpToValues d) : d.UpToValues c where
  node id := (h.node id).symm
  labels id := (h.labels id).symm
  edge k := (h.edge k).symm

theorem trans {e : Contents} (h : c.UpToValues d) (h' : d.UpToValues e) : c.UpToValues e where
  node id := (h.node id).trans (h'.node id)
  labels id := (h.labels id).trans (h'.labels id)
  edge k := (h.edge k).trans (h'.edge k)

/-- They are the same exactly if their values are. -/
theorem eq_iff (h : c.UpToValues d) (hc : c.WellFormed) (hd : d.WellFormed) : c = d ↔
    (∀ id key, c.value? id key = d.value? id key) ∧
      ∀ k key, c.relationValue? k key = d.relationValue? k key := by
  constructor
  · rintro rfl
    exact ⟨fun _ _ => rfl, fun _ _ => rfl⟩
  · rintro ⟨hvalues, hrelations⟩
    apply Contents.ext
    · funext id
      exact hc.node?_eq hd (h.node id) (h.labels id) (hvalues id)
    · funext k
      exact edge?_eq_of_values (h.edge k) (hrelations k)

end UpToValues

end Contents

end DatasetGraph
