import DatasetGraph.Proofs.Store.Passes
import DatasetGraph.Proofs.Store.Values

/-!
# Convergence

Two clients that take graphs in at the same time *converge* (`Converges`) if it does not matter in
which order their passes come: what is left is the same in nothing but the order of the labels of
nodes.

Labels only gather, and no node or relationship goes, so it is a matter of values.  Where both graphs
bring one, it must be the same; where only one does, it must stay as it is while the other graph
writes the same node or relationship without it (`CommuteUnder`).  If this is so of all values, the
clients converge, and otherwise they do not (`Valid.converges_iff`).

All this is said of clients that nothing impedes: in no order of their passes is anything merged into
what cannot be read (`Impeded`).
-/

namespace DatasetGraph

/-! ## Values laid down in either order -/

/-- Two lists of values come to the same whichever is laid down first.  If both bring a value, they
bring the same; if one does, the value is not changed in the rounds of the other. -/
def CommuteUnder (settle : Json → Json) (ws us : List (Option Json)) : Prop :=
  match laidOver settle none ws, laidOver settle none us with
  | some x, some y => x = y
  | some x, none => settle^[us.length] x = x
  | none, some y => settle^[ws.length] y = y
  | none, none => True

section

variable {settle : Json → Json} {ws us : List (Option Json)}

theorem laidOver_append_eq_or (v : Option Json) (ws us : List (Option Json)) :
    laidOver settle v (ws ++ us) = (laidOver settle none us).or
      (((laidOver settle none ws).or (v.map settle^[ws.length])).map settle^[us.length]) := by
  rw [laidOver_append, laidOver_eq_or _ us, laidOver_eq_or v ws]

theorem laidOver_append_comm_iff (v : Option Json) :
    laidOver settle v (ws ++ us) = laidOver settle v (us ++ ws) ↔ CommuteUnder settle ws us := by
  rw [laidOver_append_eq_or, laidOver_append_eq_or, CommuteUnder]
  cases laidOver settle none ws with
  | some x =>
    cases laidOver settle none us with
    | some y =>
      show some y = some x ↔ x = y
      rw [Option.some.injEq, eq_comm]
    | none =>
      show some (settle^[us.length] x) = some x ↔ _
      rw [Option.some.injEq]
  | none =>
    cases laidOver settle none us with
    | some y =>
      show some y = some (settle^[ws.length] y) ↔ _
      rw [Option.some.injEq, eq_comm]
    | none =>
      -- Only the old value is left, and it is settled as often in either order.
      refine iff_of_true ?_ trivial
      show (v.map settle^[ws.length]).map settle^[us.length] =
        (v.map settle^[us.length]).map settle^[ws.length]
      rw [Option.map_map, Option.map_map, ← Function.iterate_add, ← Function.iterate_add,
        Nat.add_comm]

end

/-- The graphs come to the same whichever is written first. -/
structure Graph.CommutesUnder (settle : Json → Json) (g h : Graph) : Prop where
  node (id key : String) :
    CommuteUnder settle (valuesOf g.storedNodes id key) (valuesOf h.storedNodes id key)
  edge (k : RelationKey) (key : String) :
    CommuteUnder settle (relationValuesOf g.storedEdges k key)
      (relationValuesOf h.storedEdges k key)

theorem valuesOf_append (ns ms : List StoredNode) (id key : String) :
    valuesOf (ns ++ ms) id key = valuesOf ns id key ++ valuesOf ms id key := by
  rw [valuesOf, List.filter_append, List.map_append]
  rfl

theorem relationValuesOf_append (es fs : List StoredEdge) (k : RelationKey) (key : String) :
    relationValuesOf (es ++ fs) k key = relationValuesOf es k key ++ relationValuesOf fs k key := by
  rw [relationValuesOf, List.filter_append, List.map_append]
  rfl

/-! ## The same but for the order of labels -/

/-- The nodes differ in nothing but the order of their labels. -/
structure StoredNode.Alike (m n : StoredNode) : Prop where
  id_eq : m.id = n.id
  perm : m.labels.Perm n.labels
  properties_eq : m.properties = n.properties

/-- The contents differ in nothing but the order of the labels of nodes. -/
structure Contents.Alike (c d : Contents) : Prop where
  node (id : String) : Option.Rel StoredNode.Alike (c.node? id) (d.node? id)
  edge (k : RelationKey) : c.edge? k = d.edge? k

namespace Contents

variable {c d : Contents}

theorem Alike.value?_eq (h : c.Alike d) (id key : String) : c.value? id key = d.value? id key := by
  have hnode := h.node id
  rw [value?, value?]
  generalize c.node? id = m at hnode
  generalize d.node? id = n at hnode
  cases hnode with
  | none => rfl
  | some h => exact congrArg (fun p : Properties => p.get? key) h.properties_eq

theorem Alike.relationValue?_eq (h : c.Alike d) (k : RelationKey) (key : String) :
    c.relationValue? k key = d.relationValue? k key := by
  rw [relationValue?, relationValue?, h.edge]

theorem WellFormed.nodup_labels (hc : c.WellFormed) (id : String) : (c.labels id).Nodup := by
  rw [labels]
  split
  · next n hn => exact (hc.node hn).nodup_labels
  · exact List.nodup_nil

theorem WellFormed.node_alike (hc : c.WellFormed) (hd : d.WellFormed) {id : String}
    (hstored : (c.node? id).isSome = (d.node? id).isSome)
    (hlabels : ∀ l, l ∈ c.labels id ↔ l ∈ d.labels id)
    (hvalues : ∀ key, c.value? id key = d.value? id key) :
    Option.Rel StoredNode.Alike (c.node? id) (d.node? id) := by
  have hperm : (c.labels id).Perm (d.labels id) :=
    (List.perm_ext_iff_of_nodup (hc.nodup_labels id) (hd.nodup_labels id)).2 hlabels
  apply rel_of_isSome_eq hstored
  intro m n hm hn
  rw [labels, labels, hm, hn] at hperm
  exact ⟨(hc.id_eq hm).trans (hd.id_eq hn).symm, hperm, properties_eq_of_values hm hn hvalues⟩

/-! ## What is left of nodes and relationships -/

/-- Contents after nodes and then relationships are laid down. -/
def laid (settle : Json → Json) (c : Contents) (ns : List StoredNode) (es : List StoredEdge) :
    Contents :=
  (c.mergeNodes settle ns).layEdges settle es

variable {settle : Json → Json} {ns ms : List StoredNode} {es fs : List StoredEdge}

theorem value?_laid (id key : String) : (c.laid settle ns es).value? id key =
    laidOver settle (c.value? id key) (valuesOf ns id key) := by
  rw [value?, laid, node?_layEdges, ← value?, value?_mergeNodes]

theorem relationValue?_laid (k : RelationKey) (key : String) :
    (c.laid settle ns es).relationValue? k key =
      laidOver settle (c.relationValue? k key) (relationValuesOf es k key) := by
  rw [laid, relationValue?_layEdges, relationValue?, edge?_mergeNodes, ← relationValue?]

theorem isSome_node?_laid (id : String) : ((c.laid settle ns es).node? id).isSome = true ↔
    (c.node? id).isSome = true ∨ id ∈ ns.map StoredNode.id := by
  rw [laid, node?_layEdges, isSome_node?_mergeNodes]

theorem isSome_edge?_laid (k : RelationKey) : ((c.laid settle ns es).edge? k).isSome = true ↔
    (c.edge? k).isSome = true ∨ ∃ e ∈ es, e.key = k := by
  rw [laid, isSome_edge?_layEdges, edge?_mergeNodes]

theorem mem_labels_laid {id : String} {l : Identifier} : l ∈ (c.laid settle ns es).labels id ↔
    l ∈ c.labels id ∨ ∃ n ∈ ns, n.id = id ∧ l ∈ n.labels := by
  rw [labels, laid, node?_layEdges, ← labels, labels_mergeNodes, mem_addNew, List.mem_flatMap]
  simp [and_assoc]

/-- What is left is alike if the same nodes and relationships were laid down and the values come to
the same. -/
theorem alike_laid (hc : (c.laid settle ns es).WellFormed) (hd : (c.laid settle ms fs).WellFormed)
    (hnodes : ∀ n, n ∈ ns ↔ n ∈ ms) (hedges : ∀ e, e ∈ es ↔ e ∈ fs)
    (hvalues : ∀ id key, (c.laid settle ns es).value? id key = (c.laid settle ms fs).value? id key)
    (hrelations : ∀ k key,
      (c.laid settle ns es).relationValue? k key = (c.laid settle ms fs).relationValue? k key) :
    (c.laid settle ns es).Alike (c.laid settle ms fs) where
  node id := by
    apply hc.node_alike hd
    · rw [Bool.eq_iff_iff, isSome_node?_laid, isSome_node?_laid, List.mem_map, List.mem_map]
      simp only [hnodes]
    · intro l
      rw [mem_labels_laid, mem_labels_laid]
      simp only [hnodes]
    · exact hvalues id
  edge k := by
    apply edge?_eq_of_values
    · rw [Bool.eq_iff_iff, isSome_edge?_laid, isSome_edge?_laid]
      simp only [hedges]
    · exact hrelations k

end Contents

/-! ## Two graphs at the same time -/

namespace Graph

/-- Each edge starts and ends at stored nodes or such of the graph itself. -/
def ClosedOver (c : Contents) (g : Graph) : Prop :=
  ∀ e ∈ g.edges, ∀ id, id = e.source ∨ id = e.target →
    (c.node? id).isSome = true ∨ ∃ n ∈ g.nodes, n.id ≠ "" ∧ n.id = id

variable {g h : Graph} {c : Contents}

theorem ClosedOver.ready (hg : g.ClosedOver c) :
    Pass.Ready (fun id => (c.node? id).isSome = true) g.passes := by
  have hknown : ∀ {e : Edge}, e ∈ g.edges → ∀ id, id = e.source ∨ id = e.target →
      (c.node? id).isSome = true ∨ id ∈ g.storedNodes.map StoredNode.id := by
    intro e he id hid
    refine (hg e he id hid).imp_right ?_
    rintro ⟨n, hn, hne, rfl⟩
    exact List.mem_map.2 ⟨n.stored, mem_storedNodes.2 ⟨n, hn, hne, rfl⟩, rfl⟩
  refine ⟨nofun, ?_, trivial⟩
  intro f hf
  obtain ⟨e, he, hf⟩ := mem_storedEdges.1 hf
  obtain ⟨hsource, htarget⟩ := Edge.ends_of_mem_stored hf
  exact ⟨hknown he _ (.inl hsource), hknown he _ (.inr htarget)⟩

end Graph

theorem Graph.storedNodes_passes_append (g h : Graph) :
    (g.passes ++ h.passes).flatMap Pass.storedNodes = g.storedNodes ++ h.storedNodes := by
  show g.storedNodes ++ ([] ++ (h.storedNodes ++ ([] ++ []))) = _
  simp

theorem Graph.storedEdges_passes_append (g h : Graph) :
    (g.passes ++ h.passes).flatMap Pass.storedEdges = g.storedEdges ++ h.storedEdges := by
  show [] ++ (g.storedEdges ++ ([] ++ (h.storedEdges ++ []))) = _
  simp

namespace Interleaves

variable {g h : Graph} {ps : List Pass}

theorem isWritable (hps : Interleaves g.passes h.passes ps) (hg : g.IsWritable)
    (hh : h.IsWritable) : ∀ p ∈ ps, p.graph.IsWritable := by
  intro p hp
  rcases hps.mem_iff.1 hp with hp | hp
  · rcases List.mem_pair.1 hp with rfl | rfl <;> exact hg
  · rcases List.mem_pair.1 hp with rfl | rfl <;> exact hh

/-- The nodes of one graph come before those of the other. -/
theorem storedNodes_eq (hps : Interleaves g.passes h.passes ps) :
    ps.flatMap Pass.storedNodes = g.storedNodes ++ h.storedNodes ∨
      ps.flatMap Pass.storedNodes = h.storedNodes ++ g.storedNodes :=
  hps.flatMap_eq rfl rfl

/-- The relationships of one graph come before those of the other. -/
theorem storedEdges_eq (hps : Interleaves g.passes h.passes ps) :
    ps.flatMap Pass.storedEdges = g.storedEdges ++ h.storedEdges ∨
      ps.flatMap Pass.storedEdges = h.storedEdges ++ g.storedEdges :=
  hps.flatMap_eq rfl rfl

theorem mem_storedNodes_iff (hps : Interleaves g.passes h.passes ps) {n : StoredNode} :
    n ∈ ps.flatMap Pass.storedNodes ↔ n ∈ g.storedNodes ∨ n ∈ h.storedNodes := by
  rcases hps.storedNodes_eq with heq | heq
  · rw [heq, List.mem_append]
  · rw [heq, List.mem_append, or_comm]

theorem mem_storedEdges_iff (hps : Interleaves g.passes h.passes ps) {e : StoredEdge} :
    e ∈ ps.flatMap Pass.storedEdges ↔ e ∈ g.storedEdges ∨ e ∈ h.storedEdges := by
  rcases hps.storedEdges_eq with heq | heq
  · rw [heq, List.mem_append]
  · rw [heq, List.mem_append, or_comm]

end Interleaves

namespace Graph.CommutesUnder

variable {settle : Json → Json} {g h : Graph} {ps : List Pass}

theorem laidOver_values (hcommutes : g.CommutesUnder settle h)
    (hps : Interleaves g.passes h.passes ps) (v : Option Json) (id key : String) :
    laidOver settle v (valuesOf (ps.flatMap Pass.storedNodes) id key) =
      laidOver settle v (valuesOf g.storedNodes id key ++ valuesOf h.storedNodes id key) := by
  rcases hps.storedNodes_eq with heq | heq
  · rw [heq, valuesOf_append]
  · rw [heq, valuesOf_append]
    exact ((laidOver_append_comm_iff v).2 (hcommutes.node id key)).symm

theorem laidOver_relationValues (hcommutes : g.CommutesUnder settle h)
    (hps : Interleaves g.passes h.passes ps) (v : Option Json) (k : RelationKey) (key : String) :
    laidOver settle v (relationValuesOf (ps.flatMap Pass.storedEdges) k key) =
      laidOver settle v
        (relationValuesOf g.storedEdges k key ++ relationValuesOf h.storedEdges k key) := by
  rcases hps.storedEdges_eq with heq | heq
  · rw [heq, relationValuesOf_append]
  · rw [heq, relationValuesOf_append]
    exact ((laidOver_append_comm_iff v).2 (hcommutes.edge k key)).symm

end Graph.CommutesUnder

/-- Whatever the order of the passes, no relationship is passed over. -/
def TakesAll {σ : Type} [Backend σ] (s : σ) (g h : Graph) : Prop :=
  ∀ ps, Interleaves g.passes h.passes ps →
    (run s (ps.map Pass.operation)).1 = ps.map Pass.reply

/-- Whatever the order of the passes, no relationship is passed over, unless something is merged into
what cannot be read, and then the passes are cut short. -/
def TakesAllLegible {σ : Type} [Backend σ] (s : σ) (g h : Graph) : Prop :=
  ∀ ps, Interleaves g.passes h.passes ps →
    (¬PassesBlocked s ps → (run s (ps.map Pass.operation)).1 = ps.map Pass.reply) ∧
      (PassesBlocked s ps → CutShort s ps)

/-- In some order of the passes, something is merged into what cannot be read. -/
def Impeded {σ : Type} [Backend σ] (s : σ) (g h : Graph) : Prop :=
  ∃ ps, Interleaves g.passes h.passes ps ∧ PassesBlocked s ps

@[simp] theorem not_impeded {σ : Type} [Backend σ] [Backend.ReadsAll σ] (s : σ) (g h : Graph) :
    ¬Impeded s g h := by
  rintro ⟨ps, _, hblocked⟩
  exact not_passesBlocked s ps hblocked

/-- Whatever the order of the passes, the same is left but for the order of labels. -/
def Converges {σ : Type} [ListedBackend σ] (s : σ) (g h : Graph) : Prop :=
  ∀ ps qs, Interleaves g.passes h.passes ps → Interleaves g.passes h.passes qs →
    (contents (run s (ps.map Pass.operation)).2).Alike (contents (run s (qs.map Pass.operation)).2)

section

variable {σ : Type} [LawfulBackend σ] {s : σ} {g h : Graph}

open LawfulBackend (settle)

namespace Valid

theorem run_interleaved (hs : Valid s) (hg : g.IsWritable) (hh : h.IsWritable)
    (hgs : g.ClosedOver (contents s)) (hhs : h.ClosedOver (contents s)) {ps : List Pass}
    (hps : Interleaves g.passes h.passes ps) (hfree : ¬PassesBlocked s ps) :
    (run s (ps.map Pass.operation)).1 = ps.map Pass.reply ∧
      Valid (run s (ps.map Pass.operation)).2 ∧
      contents (run s (ps.map Pass.operation)).2 = (contents s).laid (settle σ)
        (ps.flatMap Pass.storedNodes) (ps.flatMap Pass.storedEdges) :=
  hs.run_passes (hps.isWritable hg hh) (hps.ready hgs.ready hhs.ready) hfree

theorem takesAllLegible (hs : Valid s) (hg : g.IsWritable) (hh : h.IsWritable)
    (hgs : g.ClosedOver (contents s)) (hhs : h.ClosedOver (contents s)) : TakesAllLegible s g h := by
  intro ps hps
  constructor
  · exact fun hfree => (hs.run_interleaved hg hh hgs hhs hps hfree).1
  · exact hs.cutShort (hps.isWritable hg hh) (hps.ready hgs.ready hhs.ready)

/-- If nothing impedes them, clients converge exactly if the values come to the same in either
order. -/
theorem converges_iff (hs : Valid s) (hg : g.IsWritable) (hh : h.IsWritable)
    (hgs : g.ClosedOver (contents s)) (hhs : h.ClosedOver (contents s)) (hfree : ¬Impeded s g h) :
    Converges s g h ↔ g.CommutesUnder (settle σ) h := by
  have hrun : ∀ {ps}, Interleaves g.passes h.passes ps →
      Valid (run s (ps.map Pass.operation)).2 ∧
        contents (run s (ps.map Pass.operation)).2 = (contents s).laid (settle σ)
          (ps.flatMap Pass.storedNodes) (ps.flatMap Pass.storedEdges) := fun hps =>
    (hs.run_interleaved hg hh hgs hhs hps fun hblocked => hfree ⟨_, hps, hblocked⟩).2
  constructor
  · intro hconverges
    -- One client after the other, in either order.
    have hgh := Interleaves.append g.passes h.passes
    have hhg := (Interleaves.append h.passes g.passes).swap
    have halike := hconverges _ _ hgh hhg
    rw [(hrun hgh).2, (hrun hhg).2] at halike
    constructor
    · intro id key
      have hvalue := halike.value?_eq id key
      rw [Contents.value?_laid, Contents.value?_laid, Graph.storedNodes_passes_append,
        Graph.storedNodes_passes_append, valuesOf_append, valuesOf_append] at hvalue
      exact (laidOver_append_comm_iff _).1 hvalue
    · intro k key
      have hvalue := halike.relationValue?_eq k key
      rw [Contents.relationValue?_laid, Contents.relationValue?_laid,
        Graph.storedEdges_passes_append, Graph.storedEdges_passes_append, relationValuesOf_append,
        relationValuesOf_append] at hvalue
      exact (laidOver_append_comm_iff _).1 hvalue
  · intro hcommutes ps qs hps hqs
    obtain ⟨hvalid, hcontents⟩ := hrun hps
    obtain ⟨hvalid', hcontents'⟩ := hrun hqs
    rw [hcontents, hcontents']
    apply Contents.alike_laid (hcontents ▸ hvalid.wellFormed) (hcontents' ▸ hvalid'.wellFormed)
    · exact fun n => hps.mem_storedNodes_iff.trans hqs.mem_storedNodes_iff.symm
    · exact fun e => hps.mem_storedEdges_iff.trans hqs.mem_storedEdges_iff.symm
    · intro id key
      rw [Contents.value?_laid, Contents.value?_laid, hcommutes.laidOver_values hps,
        hcommutes.laidOver_values hqs]
    · intro k key
      rw [Contents.relationValue?_laid, Contents.relationValue?_laid,
        hcommutes.laidOver_relationValues hps, hcommutes.laidOver_relationValues hqs]

end Valid

end

end DatasetGraph
