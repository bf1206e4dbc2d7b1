import DatasetGraph.Proofs.Fallible
import DatasetGraph.Proofs.Identifier
import DatasetGraph.Proofs.Store.Contents
import DatasetGraph.Store.Exchange

/-!
# Well-formed contents

What is in a store is *well-formed* (`Contents.WellFormed`) if every node has an id, its labels come
once and can be read back, relationships join stored nodes and their types can be read back, and no
value is `null` or the empty list.

Each of the four writes keeps contents well-formed, given elements that are well-formed themselves,
and that is what conversion to the stored form makes of any node or edge (`wellFormed_toStored`).
-/

namespace DatasetGraph

/-- A value that may be kept. -/
def Json.IsKept (v : Json) : Prop := v.isNull = false ∧ v ≠ .arr []

/-- A node that may be kept. -/
structure StoredNode.WellFormed (n : StoredNode) : Prop where
  id_ne : n.id ≠ ""
  nodup_labels : n.labels.Nodup
  proper : ∀ l ∈ n.labels, l.IsProper
  kept : n.properties.All Json.IsKept

/-- A relationship that may be kept between stored nodes. -/
structure StoredEdge.WellFormed (e : StoredEdge) : Prop where
  proper : e.type.IsProper
  kept : e.properties.All Json.IsKept

/-- What holds of everything that is kept. -/
structure Contents.WellFormed (c : Contents) : Prop where
  id_eq {id : String} {n : StoredNode} : c.node? id = some n → n.id = id
  node {id : String} {n : StoredNode} : c.node? id = some n → n.WellFormed
  edge {k : RelationKey} {p : Properties} : c.edge? k = some p → (k.withProperties p).WellFormed
  source_stored {k : RelationKey} {p : Properties} :
    c.edge? k = some p → (c.node? k.source).isSome = true
  target_stored {k : RelationKey} {p : Properties} :
    c.edge? k = some p → (c.node? k.target).isSome = true

namespace Contents

theorem wellFormed_empty : Contents.empty.WellFormed := ⟨nofun, nofun, nofun, nofun, nofun⟩

/-! ## What the writes keep -/

variable {settle : Json → Json} (hsettle : ∀ v, v.IsKept → (settle v).IsKept) {c : Contents}

include hsettle

theorem kept_settled {p : Properties} (hp : p.All Json.IsKept) :
    KeyMap.All Json.IsKept (p.mapValues settle) :=
  KeyMap.all_mapValues.2 (hp.imp hsettle)

theorem wellFormed_mergedNode {old : Option StoredNode} {n : StoredNode}
    (hold : ∀ m, old = some m → m.WellFormed) (hn : n.WellFormed) :
    (mergedNode settle old n).WellFormed where
  id_ne := hn.id_ne
  nodup_labels := by
    cases old with
    | none => exact nodup_addNew List.nodup_nil _
    | some m => exact nodup_addNew (hold m rfl).nodup_labels _
  proper := by
    intro l hl
    rcases mem_addNew.1 hl with hl | hl
    · cases old with
      | none => cases hl
      | some m => exact (hold m rfl).proper l hl
    · exact hn.proper l hl
  kept := by
    apply kept_settled hsettle
    cases old with
    | none => exact KeyMap.all_empty.overlay hn.kept
    | some m => exact (hold m rfl).kept.overlay hn.kept

theorem WellFormed.mergeNode (hc : c.WellFormed) {n : StoredNode} (hn : n.WellFormed) :
    (c.mergeNode settle n).WellFormed := by
  -- No node goes, so the relationships still join stored nodes.
  have hstored : ∀ id, (c.node? id).isSome = true →
      ((c.mergeNode settle n).node? id).isSome = true := by
    intro id hid
    rw [node?_mergeNode]
    split
    · rfl
    · exact hid
  constructor
  case id_eq =>
    intro id m hm
    rw [node?_mergeNode] at hm
    split at hm
    · next hid =>
      cases hm
      exact hid.symm
    · exact hc.id_eq hm
  case node =>
    intro id m hm
    rw [node?_mergeNode] at hm
    split at hm
    · cases hm
      exact wellFormed_mergedNode hsettle (fun _ => hc.node) hn
    · exact hc.node hm
  case edge => exact hc.edge
  case source_stored => exact fun hp => hstored _ (hc.source_stored hp)
  case target_stored => exact fun hp => hstored _ (hc.target_stored hp)

theorem WellFormed.mergeEdge (hc : c.WellFormed) {e : StoredEdge} (he : e.WellFormed)
    (source : (c.node? e.source).isSome = true) (target : (c.node? e.target).isSome = true) :
    (c.mergeEdge settle e).WellFormed := by
  have hedge : ∀ {k p}, (c.mergeEdge settle e).edge? k = some p →
      (k = e.key ∧ p = mergedProperties settle (c.edge? k) e.properties) ∨ c.edge? k = some p := by
    intro k p hp
    rw [edge?_mergeEdge] at hp
    split at hp
    · next hk => exact .inl ⟨hk, (Option.some.inj hp).symm⟩
    · exact .inr hp
  constructor
  case id_eq => exact hc.id_eq
  case node => exact hc.node
  case edge =>
    intro k p hp
    rcases hedge hp with ⟨rfl, rfl⟩ | hp
    · refine ⟨he.proper, kept_settled hsettle ?_⟩
      cases hold : c.edge? e.key with
      | none => exact KeyMap.all_empty.overlay he.kept
      | some q => exact (hc.edge hold).kept.overlay he.kept
    · exact hc.edge hp
  case source_stored =>
    intro k p hp
    rcases hedge hp with ⟨rfl, _⟩ | hp
    · exact source
    · exact hc.source_stored hp
  case target_stored =>
    intro k p hp
    rcases hedge hp with ⟨rfl, _⟩ | hp
    · exact target
    · exact hc.target_stored hp

theorem WellFormed.updateNode (hc : c.WellFormed) {u : PropertyUpdate}
    (hu : u.properties.All fun v => v ≠ .arr []) : (c.updateNode settle u).WellFormed := by
  have hstored : ∀ id, (c.node? id).isSome = true →
      ((c.updateNode settle u).node? id).isSome = true := by
    intro id hid
    rw [node?_updateNode]
    split
    · rwa [Option.isSome_map]
    · exact hid
  have hnode : ∀ {id m}, (c.updateNode settle u).node? id = some m → ∃ n, c.node? id = some n ∧
      (m = n ∨ m = updatedNode settle u.properties n) := by
    intro id m hm
    rw [node?_updateNode] at hm
    split at hm
    · obtain ⟨n, hn, hnm⟩ := Option.map_eq_some_iff.1 hm
      exact ⟨n, hn, .inr hnm.symm⟩
    · exact ⟨m, hm, .inl rfl⟩
  constructor
  case id_eq =>
    intro id m hm
    obtain ⟨n, hn, rfl | rfl⟩ := hnode hm
    · exact hc.id_eq hn
    · show n.id = id
      exact hc.id_eq hn
  case node =>
    intro id m hm
    obtain ⟨n, hn, rfl | rfl⟩ := hnode hm
    · exact hc.node hn
    · obtain ⟨hid, hlabels, hproper, hkept⟩ := hc.node hn
      -- A `null` in the update removes a value and is never kept.
      refine ⟨hid, hlabels, hproper, kept_settled hsettle (Properties.all_update hkept ?_)⟩
      exact hu.imp fun v hv hnull => ⟨hnull, hv⟩
  case edge => exact hc.edge
  case source_stored => exact fun hp => hstored _ (hc.source_stored hp)
  case target_stored => exact fun hp => hstored _ (hc.target_stored hp)

omit hsettle in
theorem WellFormed.deleteNode (hc : c.WellFormed) (id : String) : (c.deleteNode id).WellFormed := by
  have hnode : ∀ {j n}, (c.deleteNode id).node? j = some n → c.node? j = some n := by
    intro j n hn
    rw [node?_deleteNode] at hn
    split at hn
    · cases hn
    · exact hn
  -- A relationship that stays has both its ends elsewhere.
  have hedge : ∀ {k p}, (c.deleteNode id).edge? k = some p →
      c.edge? k = some p ∧ k.source ≠ id ∧ k.target ≠ id := by
    intro k p hp
    rw [edge?_deleteNode] at hp
    split at hp
    · cases hp
    · next htouches => exact ⟨hp, by simpa [RelationKey.touches] using htouches⟩
  constructor
  case id_eq => exact fun hn => hc.id_eq (hnode hn)
  case node => exact fun hn => hc.node (hnode hn)
  case edge => exact fun hp => hc.edge (hedge hp).1
  case source_stored =>
    intro k p hp
    obtain ⟨hp, hsource, _⟩ := hedge hp
    rw [node?_deleteNode, if_neg hsource]
    exact hc.source_stored hp
  case target_stored =>
    intro k p hp
    obtain ⟨hp, _, htarget⟩ := hedge hp
    rw [node?_deleteNode, if_neg htarget]
    exact hc.target_stored hp

end Contents

/-! ## The stored form -/

theorem Json.markEmpty_ne_nil (v : Json) : v.markEmpty ≠ .arr [] := by
  unfold markEmpty
  split
  · nofun
  · next h => exact fun hv => h hv

theorem Properties.all_mark (p : Properties) : p.mark.All fun v => v ≠ .arr [] :=
  KeyMap.all_mapValues.2 fun _ v _ => v.markEmpty_ne_nil

theorem Properties.kept_encode (p : Properties) : p.encode.All Json.IsKept := by
  intro k v hv
  rw [encode, KeyMap.get?_filter, Option.filter_eq_some_iff] at hv
  obtain ⟨hmark, hnull⟩ := hv
  exact ⟨by simpa using hnull, p.all_mark k v hmark⟩

theorem isProper_of_ofToken {t : String} {i : Identifier} (h : Identifier.ofToken t = .ok i) :
    i.IsProper := by
  obtain ⟨ht, hi⟩ := Identifier.ofToken_eq_ok_iff.1 h
  exact ⟨t, ht, hi⟩

theorem Node.toStored_eq_ok {n : Node} {m : StoredNode} (h : n.toStored = .ok m) :
    ∃ labels, n.labels.mapM Identifier.ofToken = .ok labels ∧
      m = ⟨n.id, distinct labels, n.properties.encode⟩ := by
  rw [toStored] at h
  obtain ⟨labels, hlabels, h⟩ := Fallible.bind_eq_ok_iff.1 h
  exact ⟨labels, hlabels, (Except.ok.inj h).symm⟩

/-- A node with an id becomes one that may be kept. -/
theorem Node.wellFormed_toStored {n : Node} {m : StoredNode} (hid : n.id ≠ "")
    (h : n.toStored = .ok m) : m.WellFormed := by
  obtain ⟨labels, hlabels, rfl⟩ := toStored_eq_ok h
  refine ⟨hid, nodup_distinct labels, ?_, n.properties.kept_encode⟩
  intro l hl
  obtain ⟨t, _, ht⟩ := (Fallible.mem_of_mapM_eq_ok hlabels).1 (mem_distinct.1 hl)
  exact isProper_of_ofToken ht

theorem wellFormed_of_mapM_nodes {g : Graph} {ns : List StoredNode}
    (h : (g.nodes.filter fun n => n.id ≠ "").mapM Node.toStored = .ok ns) :
    ∀ n ∈ ns, n.WellFormed := by
  intro n hn
  obtain ⟨m, hm, hmn⟩ := (Fallible.mem_of_mapM_eq_ok h).1 hn
  exact Node.wellFormed_toStored (by simpa using (List.mem_filter.1 hm).2) hmn

theorem Edge.mem_of_toStored {e : Edge} {es : List StoredEdge} (h : e.toStored = .ok es)
    {f : StoredEdge} : f ∈ es ↔ ∃ t ∈ e.labels, ∃ i, Identifier.ofToken t = .ok i ∧
      f = ⟨e.source, e.target, i, e.properties.encode⟩ := by
  rw [Fallible.mem_of_mapM_eq_ok h]
  refine exists_congr fun t => and_congr_right fun _ => ?_
  cases Identifier.ofToken t with
  | error e =>
    constructor
    · nofun
    · intro hx
      obtain ⟨i, hi, _⟩ := hx
      cases hi
  | ok i =>
    constructor
    · exact fun hf => ⟨i, rfl, (Except.ok.inj hf).symm⟩
    · intro hx
      obtain ⟨_, hi, rfl⟩ := hx
      cases hi
      rfl

/-- An edge becomes relationships that may be kept. -/
theorem Edge.wellFormed_toStored {e : Edge} {es : List StoredEdge} (h : e.toStored = .ok es)
    {f : StoredEdge} (hf : f ∈ es) : f.WellFormed := by
  obtain ⟨t, _, i, hi, rfl⟩ := (mem_of_toStored h).1 hf
  exact ⟨isProper_of_ofToken hi, e.properties.kept_encode⟩

theorem wellFormed_of_mapM_edges {g : Graph} {es : List (List StoredEdge)}
    (h : g.edges.mapM Edge.toStored = .ok es) : ∀ f ∈ es.flatten, f.WellFormed := by
  intro f hf
  obtain ⟨fs, hfs, hf⟩ := List.mem_flatten.1 hf
  obtain ⟨e, _, he⟩ := (Fallible.mem_of_mapM_eq_ok h).1 hfs
  exact Edge.wellFormed_toStored he hf

end DatasetGraph
