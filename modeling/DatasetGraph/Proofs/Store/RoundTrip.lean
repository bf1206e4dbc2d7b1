import DatasetGraph.Proofs.Store.View

/-!
# What is written and read again

Properties of a node or relationship that was not there are read as they were written, without those
that are `null` (`Restores`).  The one exception is the marker of an empty list: it is a text among
others, nothing keeps it apart when it is written, and it is read as an empty list.  So the round trip
gives back what was written exactly if the marker is none of the values
(`Properties.decode_encode_eq_iff`).
-/

namespace DatasetGraph

/-! ## Properties -/

theorem Json.unmarkEmpty_markEmpty_eq (v : Json) : v.markEmpty.unmarkEmpty = v.unmarkEmpty := by
  by_cases hv : v = .str emptyListMarker
  · rw [hv]
    rfl
  · rw [unmarkEmpty_markEmpty hv]
    unfold unmarkEmpty
    grind

theorem Json.unmarkEmpty_eq_self_iff {v : Json} :
    v.unmarkEmpty = v ↔ v ≠ .str emptyListMarker := by
  constructor
  · rintro h rfl
    cases h
  · intro h
    unfold unmarkEmpty
    grind

namespace Properties

/-- After the round trip, properties are read as if they had been stored as they are, without those
that are `null`. -/
theorem decode_encode (p : Properties) : p.encode.decode = p.notNull.decode := by
  apply KeyMap.ext_get?
  intro key
  rw [decode, decode, KeyMap.get?_mapValues, KeyMap.get?_mapValues, get?_encode, get?_notNull,
    Option.map_map]
  congr 1
  funext v
  exact v.unmarkEmpty_markEmpty_eq

theorem avoidsMarker_notNull {p : Properties} : p.notNull.AvoidsMarker ↔ p.AvoidsMarker := by
  constructor
  · intro h key v hv hmarker
    refine h key v ?_ hmarker
    rw [get?_notNull, notNull?, hv, hmarker]
    rfl
  · exact fun h => h.filter _

/-- The marker is all that is not given back. -/
theorem decode_encode_eq_iff (p : Properties) : p.encode.decode = p.notNull ↔ p.AvoidsMarker := by
  rw [decode_encode, ← avoidsMarker_notNull]
  constructor
  · intro h key v hv
    have hread : p.notNull.decode.get? key = some v.unmarkEmpty := by
      rw [decode, KeyMap.get?_mapValues, hv, Option.map_some]
    rw [h, hv] at hread
    exact Json.unmarkEmpty_eq_self_iff.1 (Option.some.inj hread).symm
  · exact fun h => KeyMap.mapValues_eq_self fun key v hv =>
      Json.unmarkEmpty_eq_self_iff.2 (h key v hv)

end Properties

/-! ## Nodes and relationships that were not there -/

theorem Node.toNode_stored (n : Node) :
    n.stored.toNode = .ok ⟨n.id, distinct n.labels, n.properties.encode.decode⟩ := by
  rw [StoredNode.toNode, labels_stored, mapM_token_escape]
  rfl

theorem Edge.mem_stored {e : Edge} {f : StoredEdge} : f ∈ e.stored ↔
    ∃ l ∈ e.labels, f = ⟨e.source, e.target, ⟨Identifier.escape l⟩, e.properties.encode⟩ := by
  simp [stored, eq_comm]

namespace Contents

variable {settle : Json → Json} {c : Contents}

theorem mergedNode_stored {n : Node}
    (hsettled : n.properties.encode.mapValues settle = n.properties.encode) :
    mergedNode settle none n.stored = n.stored := by
  have hlabels : addNew [] n.stored.labels = n.stored.labels :=
    distinct_of_nodup (nodup_distinct _)
  show StoredNode.mk n.id (addNew [] n.stored.labels)
    ((KeyMap.empty.overlay n.properties.encode).mapValues settle) = _
  rw [hlabels, KeyMap.empty_overlay, hsettled]
  rfl

/-- A node that was not there is read as it was written. -/
theorem read?_mergeNode_of_new {n : Node}
    (hsettled : n.properties.encode.mapValues settle = n.properties.encode)
    (hnew : c.node? n.id = none) : (c.mergeNode settle n.stored).read? n.id =
      some ⟨n.id, distinct n.labels, n.properties.encode.decode⟩ := by
  refine read?_eq_some_iff.2 ⟨n.stored, ?_, n.toNode_stored⟩
  rw [node?_mergeNode, Node.id_stored, if_pos rfl, hnew, mergedNode_stored hsettled]

theorem mergedProperties_self {q : Properties} (hsettled : q.mapValues settle = q)
    {old : Option Properties} (hold : old = none ∨ old = some q) :
    mergedProperties settle old q = q := by
  have hoverlay : (old.getD .empty).overlay q = q := by
    rcases hold with rfl | rfl
    · exact KeyMap.empty_overlay q
    · apply KeyMap.ext_get?
      intro key
      rw [Option.getD_some, KeyMap.get?_overlay, Option.or_self]
  rw [mergedProperties, hoverlay, hsettled]

/-- Relationships with the same properties leave these, however many of them there are. -/
theorem edge?_layEdges_of_new {q : Properties} (hsettled : q.mapValues settle = q)
    {es : List StoredEdge} (hes : ∀ e ∈ es, e.properties = q) {k : RelationKey}
    (hk : ∃ e ∈ es, e.key = k) (hnew : c.edge? k = none) :
    (c.layEdges settle es).edge? k = some q := by
  have hstored : ((c.layEdges settle es).edge? k).isSome = true :=
    (isSome_edge?_layEdges es k).2 (.inr hk)
  have hsame : (c.layEdges settle es).edge? k = none ∨ (c.layEdges settle es).edge? k = some q := by
    apply List.foldlRecOn es (mergeEdge settle)
      (motive := fun d => d.edge? k = none ∨ d.edge? k = some q) (.inl hnew)
    intro d hd e he
    rw [edge?_mergeEdge]
    split
    · exact .inr (by rw [hes e he, mergedProperties_self hsettled hd])
    · exact hd
  refine hsame.resolve_left fun hnone => ?_
  rw [hnone] at hstored
  cases hstored

end Contents

section

variable {σ : Type}

/-- What clients read of properties that are written to a node or relationship that was not there.
Where an edge goes to relationships that were there as well, these must be readable; nothing that
could be read is lost. -/
structure Restores [ListedBackend σ] (s : σ) (p : Properties) : Prop where
  node {id : String} {labels : List String} : id ≠ "" → "" ∉ labels →
    Backend.hasNode s id = false →
    ∃ r v, Store.upsertNodes s ⟨[⟨id, labels, p⟩], []⟩ = .ok r ∧ Shows r.2 v ∧
      v.node? id = some ⟨id, distinct labels, p.encode.decode⟩ ∧
      Store.readNode r.2 id = .ok ⟨[⟨id, distinct labels, p.encode.decode⟩], []⟩
  edge {source target label : String} {labels : List String} :
    Backend.hasNode s source = true → Backend.hasNode s target = true → "" ∉ labels →
    label ∈ labels → (contents s).edge? ⟨source, target, ⟨Identifier.escape label⟩⟩ = none →
    (∀ l ∈ labels, ∀ q, (contents s).edge? ⟨source, target, ⟨Identifier.escape l⟩⟩ = some q →
      Backend.legible σ q = true) →
    ∃ r v, Store.upsertEdges s ⟨[], [⟨source, target, labels, p⟩]⟩ = .ok r ∧ Shows r.2 v ∧
      v.relation? source target label = some p.encode.decode ∧
      ∀ id, EdgeUnreadable r.2 id ↔ EdgeUnreadable s id

variable [LawfulBackend σ] {s : σ}

open LawfulBackend (settle)

namespace Valid

/-- A node that was not there is not merged into anything, and is read as it was written. -/
theorem restores_node (hs : Valid s) {n : Node} (hid : n.id ≠ "") (hlabels : "" ∉ n.labels)
    (hnew : Backend.node? s n.id = none)
    (hsettled : n.properties.encode.mapValues (settle σ) = n.properties.encode)
    (hlegible : Backend.legible σ n.properties.encode = true) :
    (∃ count, Store.upsertNodes s ⟨[n], []⟩ = .ok (count, (Backend.putNodes s [n.stored]).2)) ∧
      Valid (Backend.putNodes s [n.stored]).2 ∧
      (contents (Backend.putNodes s [n.stored]).2).view.node? n.id =
        some ⟨n.id, distinct n.labels, n.properties.encode.decode⟩ ∧
      ¬NodeUnreadable (Backend.putNodes s [n.stored]).2 n.id := by
  have hwritable : Graph.WritableNodes ⟨[n], []⟩ := List.forall_mem_singleton.2 fun _ => hlabels
  have hstored : Graph.storedNodes ⟨[n], []⟩ = [n.stored] := by simp [Graph.storedNodes, hid]
  have hwellFormed := hwritable.wellFormed
  rw [hstored] at hwellFormed
  have hfree : ¬NodesBlocked s [n.stored] := by
    apply not_blocked_of_legible
    · refine List.forall_mem_singleton.2 fun q hq => ?_
      rw [Node.id_stored, hnew] at hq
      cases hq
    · exact List.forall_mem_singleton.2 hlegible
  refine ⟨?_, hs.putNodes hwellFormed, ?_, ?_⟩
  · have hupsert := hs.upsertNodes_eq hwritable
    rw [hstored] at hupsert
    exact ⟨_, hupsert hfree⟩
  · rw [hs.contents_putNodes hwellFormed]
    exact Contents.read?_mergeNode_of_new hsettled hnew
  · rw [hs.nodeUnreadable_putNodes_iff hwellFormed hfree]
    rintro (⟨m, hm, _⟩ | ⟨m, hm, _, hnot⟩)
    · rw [hnew] at hm
      cases hm
    · obtain rfl := List.mem_singleton.1 hm
      exact absurd (hlegible.symm.trans hnot) (by decide)

/-- An edge is merged into relationships that can be read, and the one that was not there is read as
it was written. -/
theorem restores_edge (hs : Valid s) {e : Edge} {label : String}
    (hsource : Backend.hasNode s e.source = true) (htarget : Backend.hasNode s e.target = true)
    (hlabels : "" ∉ e.labels) (hlabel : label ∈ e.labels)
    (hnew : (contents s).edge? ⟨e.source, e.target, ⟨Identifier.escape label⟩⟩ = none)
    (hkept : ∀ f ∈ e.stored, ∀ q, (contents s).edge? f.key = some q → Backend.legible σ q = true)
    (hsettled : e.properties.encode.mapValues (settle σ) = e.properties.encode)
    (hlegible : Backend.legible σ e.properties.encode = true) :
    (∃ count, Store.upsertEdges s ⟨[], [e]⟩ = .ok (count, (Backend.putEdges s e.stored).2)) ∧
      Valid (Backend.putEdges s e.stored).2 ∧
      (contents (Backend.putEdges s e.stored).2).view.relation? e.source e.target label =
        some e.properties.encode.decode ∧
      ∀ id, EdgeUnreadable (Backend.putEdges s e.stored).2 id ↔ EdgeUnreadable s id := by
  have hwritable : Graph.WritableEdges ⟨[], [e]⟩ := List.forall_mem_singleton.2 hlabels
  have hstored : Graph.storedEdges ⟨[], [e]⟩ = e.stored := List.append_nil _
  have hwellFormed := hwritable.wellFormed
  rw [hstored] at hwellFormed
  have hproperties : ∀ f ∈ e.stored, f.properties = e.properties.encode := by
    intro f hf
    obtain ⟨_, _, rfl⟩ := Edge.mem_stored.1 hf
    rfl
  have hfree : ¬EdgesBlocked s e.stored := by
    apply not_blocked_of_legible
    · intro f hf q hq
      exact hkept f (List.mem_filter.1 hf).1 q ((LawfulBackend.edge?_eq hs.sound _).symm.trans hq)
    · intro f hf
      rw [hproperties f (List.mem_filter.1 hf).1, hlegible]
  refine ⟨?_, hs.putEdges hwellFormed, ?_, fun id => ?_⟩
  · have hupsert := hs.upsertEdges_eq hwritable
    rw [hstored] at hupsert
    exact ⟨_, hupsert hfree⟩
  · rw [hs.contents_putEdges hwellFormed]
    refine Option.map_eq_some_iff.2 ⟨e.properties.encode, ?_, rfl⟩
    apply Contents.edge?_layEdges_of_new hsettled
    · exact fun f hf => hproperties f (List.mem_filter.1 hf).1
    · refine ⟨⟨e.source, e.target, ⟨Identifier.escape label⟩, e.properties.encode⟩, ?_, rfl⟩
      exact List.mem_filter.2
        ⟨List.mem_map_of_mem hlabel, Bool.and_eq_true_iff.2 ⟨hsource, htarget⟩⟩
    · exact hnew
  · rw [hs.edgeUnreadable_putEdges_iff hwellFormed hfree]
    refine or_iff_left ?_
    rintro ⟨f, hf, _, _, hnot⟩
    rw [hproperties f hf, hlegible] at hnot
    cases hnot

/-- Properties whose values are settled and can be read are given back. -/
theorem restores (hs : Valid s) {p : Properties}
    (hsettled : p.encode.mapValues (settle σ) = p.encode)
    (hlegible : Backend.legible σ p.encode = true) : Restores s p where
  node {id labels} hid hlabels hnew := by
    have hnone : Backend.node? s id = none :=
      Option.not_isSome_iff_eq_none.1 (Bool.eq_false_iff.1 hnew)
    obtain ⟨⟨count, hupsert⟩, ht, hread, hreadable⟩ :=
      hs.restores_node (n := ⟨id, labels, p⟩) hid hlabels hnone hsettled hlegible
    refine ⟨_, _, hupsert, ht.shows, hread, ?_⟩
    rw [ht.shows.readNode hreadable, hread]
    rfl
  edge {source target label labels} hsource htarget hlabels hlabel hnew hkept := by
    obtain ⟨⟨count, hupsert⟩, ht, hread, hreadable⟩ :=
      hs.restores_edge (e := ⟨source, target, labels, p⟩) hsource htarget hlabels hlabel hnew
        (fun f hf => by
          obtain ⟨l, hl, rfl⟩ := Edge.mem_stored.1 hf
          exact hkept l hl) hsettled hlegible
    exact ⟨_, _, hupsert, ht.shows, hread, hreadable⟩

end Valid

end

/-- What is written is read without `null`, and with an empty list in place of the marker; nothing
else is lost or confused, in memory whatever the values, in tables if they survive. -/
theorem round_trip {s : AdjacencyStore} {t : TableStore} (hs : Reachable s) (ht : Reachable t)
    (p : Properties) :
    p.encode.decode = p.notNull.decode ∧ (p.encode.decode = p.notNull ↔ p.AvoidsMarker) ∧
    Restores s p ∧ (p.All Json.Survives → Restores t p) :=
  ⟨p.decode_encode, p.decode_encode_eq_iff, hs.valid.restores (AdjacencyStore.mapValues_id _) rfl,
    fun hp => ht.valid.restores
      (KeyMap.mapValues_eq_self ((Properties.survives_encode hp).imp fun _ => Json.Survives.reread))
      (isLegible_of_survives (Properties.survives_encode hp))⟩

/-- A text that happens to be the marker, an empty list, and `null`. -/
def Properties.marked : Properties :=
  ((KeyMap.empty.insert "marker" (.str emptyListMarker)).insert "list" (.arr [])).insert "gone" .null

/-- Written between datasets that share a file, the text is read as an empty list, like the other. -/
theorem round_trip_sharing :
    Reachable (sharing ["a", "b"] : AdjacencyStore) ∧ Reachable (sharing ["a", "b"] : TableStore) ∧
    Properties.marked.All Json.Survives ∧
    (Properties.marked.encode.decode = Properties.marked.notNull.decode ∧
      Properties.marked.encode.decode =
        (KeyMap.empty.insert "marker" (.arr [])).insert "list" (.arr [])) ∧
    Restores (sharing ["a", "b"] : AdjacencyStore) .marked ∧
    Restores (sharing ["a", "b"] : TableStore) .marked := by
  have hempty : KeyMap.All Json.Survives .empty := KeyMap.all_empty
  have hsurvive : Properties.marked.All Json.Survives :=
    ((hempty.insert "marker" (Json.survives_str _)).insert "list" (Json.survives_iff.2 rfl)).insert
      "gone" (Json.survives_iff.2 rfl)
  have hmemory := reachable_sharing (σ := AdjacencyStore) ["a", "b"]
  have htables := reachable_sharing (σ := TableStore) ["a", "b"]
  obtain ⟨hdecode, _, hrestores, hrestores'⟩ := round_trip hmemory htables .marked
  exact ⟨hmemory, htables, hsurvive, ⟨hdecode, by decide⟩, hrestores, hrestores' hsurvive⟩

/-- The text is not given back, and it cannot be told from an empty list once it is written. -/
theorem marker_is_lost :
    Properties.marked.encode.decode ≠ Properties.marked.notNull ∧
    Properties.marked.encode.get? "marker" = Properties.marked.encode.get? "list" ∧
    Properties.marked.get? "marker" ≠ Properties.marked.get? "list" := by
  refine ⟨?_, by decide, by decide⟩
  intro h
  have hvalue := congrArg (fun p : Properties => p.get? "marker") h
  revert hvalue
  decide

end DatasetGraph
