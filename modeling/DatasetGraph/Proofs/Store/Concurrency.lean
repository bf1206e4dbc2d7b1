import DatasetGraph.Proofs.Store.Convergence
import DatasetGraph.Proofs.Store.Retry

/-!
# Ingests at the same time

Clients do not ask each other what they are about to write.  If two graphs set the same property of
the same node, the last one wins, so clients can converge only if their graphs agree on the values
that both bring (`Graph.Agrees`).

In memory this is enough, since a written value stays as it is.  In tables it is not: each write
reads back all values of its node or relationship, and there are doubles that do not survive it.
There, clients converge exactly if no value of one graph is changed by that while the other graph is
written, which is so of all values that are read back as they were written
(`CommutesUnder.reread`).  No relationship is passed over, in memory or in tables, as long as all that
is merged into can be read.  `ingests_converge` says all of this.
-/

namespace DatasetGraph

/-! ## Graphs that agree -/

/-- The value under a key, unless it is `null`. -/
def Properties.notNull? (p : Properties) (key : String) : Option Json :=
  (p.get? key).filter fun v => !v.isNull

namespace Graph

/-- The last value other than `null` that the nodes of an id bring under a key. -/
def lastValue? (g : Graph) (id key : String) : Option Json :=
  ((g.nodes.filter fun n => n.id = id).filterMap fun n => n.properties.notNull? key).getLast?

/-- The edges of the graph, once with each of their labels. -/
def relations (g : Graph) : List (Edge × String) :=
  g.edges.flatMap fun e => e.labels.map fun label => (e, label)

/-- The last value other than `null` that the edges between two nodes bring for a label and under a
key. -/
def lastRelationValue? (g : Graph) (source target label key : String) : Option Json :=
  ((g.relations.filter fun r =>
    r.1.source = source && r.1.target = target && r.2 = label).filterMap
      fun r => r.1.properties.notNull? key).getLast?

/-- Where both graphs bring values, the last one is the same. -/
structure Agrees (g h : Graph) : Prop where
  node {id key : String} {v w : Json} : id ≠ "" → g.lastValue? id key = some v →
    h.lastValue? id key = some w → v = w
  edge {source target label key : String} {v w : Json} :
    g.lastRelationValue? source target label key = some v →
      h.lastRelationValue? source target label key = some w → v = w

end Graph

theorem Json.isNull_markEmpty (v : Json) : v.markEmpty.isNull = v.isNull := by
  unfold markEmpty
  split <;> rfl

theorem Properties.get?_encode (p : Properties) (key : String) :
    p.encode.get? key = (p.notNull? key).map Json.markEmpty := by
  rw [encode, mark, KeyMap.get?_filter, KeyMap.get?_mapValues, notNull?]
  cases p.get? key with
  | none => rfl
  | some v =>
    rw [Option.map_some, Option.filter_some, Option.filter_some, v.isNull_markEmpty]
    split <;> rfl

/-- Without settling, the last value stays. -/
theorem laidOver_id (v : Option Json) (ws : List (Option Json)) :
    laidOver id v ws = ((ws.filterMap id).getLast?).or v := by
  induction ws generalizing v with
  | nil => rfl
  | cons w ws ih =>
    show laidOver id ((w.or v).map id) ws = _
    rw [ih, Option.map_id]
    cases w with
    | none => rfl
    | some x =>
      show _ = ((x :: ws.filterMap id).getLast?).or v
      rw [List.getLast?_cons]
      cases (ws.filterMap id).getLast? <;> rfl

theorem laidOver_encode {α : Type} (xs : List α) (p : α → Properties) (key : String) :
    laidOver id none (xs.map fun x => (p x).encode.get? key) =
      ((xs.filterMap fun x => (p x).notNull? key).getLast?).map Json.markEmpty := by
  rw [laidOver_id, Option.or_none, List.filterMap_map, ← List.getLast?_map, List.map_filterMap]
  apply congrArg fun f => (xs.filterMap f).getLast?
  funext x
  exact (p x).get?_encode key

/-- Without settling, lists of values commute if their last values are the same. -/
theorem commuteUnder_id_iff {ws us : List (Option Json)} : CommuteUnder id ws us ↔
    ∀ x y, laidOver id none ws = some x → laidOver id none us = some y → x = y := by
  rw [CommuteUnder]
  cases laidOver id none ws with
  | none =>
    refine iff_of_true ?_ fun x y hx => absurd hx.symm (Option.some_ne_none x)
    cases laidOver id none us with
    | none => trivial
    | some y => exact congrFun (Function.iterate_id _) y
  | some x =>
    cases laidOver id none us with
    | none =>
      exact iff_of_true (congrFun (Function.iterate_id _) x)
        fun _ y _ hy => absurd hy.symm (Option.some_ne_none y)
    | some y =>
      constructor
      · rintro hxy _ _ ⟨⟩ ⟨⟩
        exact hxy
      · exact fun hxy => hxy x y rfl rfl

namespace Graph

variable {g h : Graph}

theorem valuesOf_storedNodes {i : String} (hi : i ≠ "") (key : String) :
    valuesOf g.storedNodes i key =
      (g.nodes.filter fun n => n.id = i).map fun n => n.properties.encode.get? key := by
  rw [valuesOf, storedNodes, List.filter_map, List.map_map, List.filter_filter]
  apply congrArg (List.map _)
  apply List.filter_congr
  intro n _
  by_cases hn : n.id = i
  · simp [hn, hi]
  · simp [hn]

theorem valuesOf_storedNodes_empty (key : String) : valuesOf g.storedNodes "" key = [] := by
  rw [valuesOf, List.filter_eq_nil_iff.2, List.map_nil]
  intro m hm
  obtain ⟨n, _, hne, rfl⟩ := mem_storedNodes.1 hm
  rw [decide_eq_true_eq]
  exact hne

theorem storedEdges_eq_map (g : Graph) : g.storedEdges = g.relations.map fun r =>
    ⟨r.1.source, r.1.target, ⟨Identifier.escape r.2⟩, r.1.properties.encode⟩ := by
  rw [storedEdges, relations, List.map_flatMap]
  simp only [List.map_map]
  rfl

theorem relationValuesOf_storedEdges (source target label key : String) :
    relationValuesOf g.storedEdges ⟨source, target, ⟨Identifier.escape label⟩⟩ key =
      (g.relations.filter fun r =>
        r.1.source = source && r.1.target = target && r.2 = label).map
          fun r => r.1.properties.encode.get? key := by
  rw [relationValuesOf, storedEdges_eq_map, List.filter_map, List.map_map]
  apply congrArg (List.map _)
  apply List.filter_congr
  intro r _
  have hlabel : Identifier.escape r.2 = Identifier.escape label ↔ r.2 = label :=
    ⟨fun h => Identifier.escape_injective h, congrArg Identifier.escape⟩
  simp [StoredEdge.key, hlabel, Bool.and_assoc]

/-- What is stored of edges has the label of one of them. -/
theorem relationValuesOf_eq_nil {k : RelationKey}
    (hk : ∀ label, k.type ≠ ⟨Identifier.escape label⟩) (key : String) :
    relationValuesOf g.storedEdges k key = [] := by
  rw [relationValuesOf, List.filter_eq_nil_iff.2, List.map_nil]
  intro f hf
  rw [storedEdges_eq_map] at hf
  obtain ⟨r, _, rfl⟩ := List.mem_map.1 hf
  rw [decide_eq_true_eq]
  rintro rfl
  exact hk r.2 rfl

/-- Graphs that agree come to the same whichever is written first, if values stay as they are. -/
theorem Agrees.commutesUnder (hagrees : g.Agrees h) : g.CommutesUnder id h where
  node i key := by
    rw [commuteUnder_id_iff]
    intro x y hx hy
    by_cases hi : i = ""
    · rw [hi, valuesOf_storedNodes_empty] at hx
      cases hx
    · rw [valuesOf_storedNodes hi, laidOver_encode, Option.map_eq_some_iff] at hx hy
      obtain ⟨v, hv, rfl⟩ := hx
      obtain ⟨w, hw, rfl⟩ := hy
      rw [hagrees.node hi hv hw]
  edge k key := by
    rw [commuteUnder_id_iff]
    intro x y hx hy
    obtain ⟨source, target, type⟩ := k
    by_cases htype : ∃ label, type = ⟨Identifier.escape label⟩
    · obtain ⟨label, rfl⟩ := htype
      rw [relationValuesOf_storedEdges, laidOver_encode, Option.map_eq_some_iff] at hx hy
      obtain ⟨v, hv, rfl⟩ := hx
      obtain ⟨w, hw, rfl⟩ := hy
      rw [hagrees.edge hv hw]
    · rw [relationValuesOf_eq_nil fun label hlabel => htype ⟨label, hlabel⟩] at hx
      cases hx

end Graph

/-! ## Values that survive -/

theorem laidOver_reread {ws : List (Option Json)} (h : ∀ w ∈ ws, ∀ x, w = some x → x.Survives) :
    ∀ {v : Option Json}, (∀ x, v = some x → x.Survives) →
      laidOver Json.reread v ws = laidOver id v ws ∧
        ∀ x, laidOver id v ws = some x → x.Survives := by
  induction ws with
  | nil => exact fun hv => ⟨rfl, hv⟩
  | cons w ws ih =>
    obtain ⟨hw, hws⟩ := List.forall_mem_cons.1 h
    intro v hv
    have hor : ∀ x, w.or v = some x → x.Survives := by
      intro x hx
      rcases Option.or_eq_some_iff.1 hx with hx | ⟨_, hx⟩
      · exact hw x hx
      · exact hv x hx
    have hsettle : (w.or v).map Json.reread = (w.or v).map id := by
      cases hx : w.or v with
      | none => rfl
      | some x => exact congrArg some (hor x hx).reread
    show laidOver Json.reread ((w.or v).map Json.reread) ws =
        laidOver id ((w.or v).map id) ws ∧ ∀ x, laidOver id ((w.or v).map id) ws = some x → _
    rw [hsettle, Option.map_id]
    exact ih hws hor

/-- Lists of values that survive commute in tables if they do in memory. -/
theorem CommuteUnder.reread {ws us : List (Option Json)} (h : CommuteUnder id ws us)
    (hws : ∀ w ∈ ws, ∀ x, w = some x → x.Survives)
    (hus : ∀ u ∈ us, ∀ y, u = some y → y.Survives) : CommuteUnder Json.reread ws us := by
  obtain ⟨hw, hwsurvives⟩ := laidOver_reread hws (v := none) nofun
  obtain ⟨hu, husurvives⟩ := laidOver_reread hus (v := none) nofun
  rw [commuteUnder_id_iff] at h
  rw [CommuteUnder, hw, hu]
  cases hx : laidOver id none ws with
  | none =>
    cases hy : laidOver id none us with
    | none => trivial
    | some y => exact Function.iterate_fixed (husurvives y hy).reread _
  | some x =>
    cases hy : laidOver id none us with
    | none => exact Function.iterate_fixed (hwsurvives x hx).reread _
    | some y => exact h x y hx hy

namespace Graph

variable {g h : Graph}

theorem Survives.valuesOf (hg : g.Survives) (i key : String) :
    ∀ w ∈ valuesOf g.storedNodes i key, ∀ x, w = some x → x.Survives := by
  intro w hw x hx
  obtain ⟨m, hm, rfl⟩ := List.mem_map.1 hw
  obtain ⟨n, hn, _, rfl⟩ := mem_storedNodes.1 (List.mem_filter.1 hm).1
  exact Properties.survives_encode (hg.1 n hn) key x hx

theorem Survives.relationValuesOf (hg : g.Survives) (k : RelationKey) (key : String) :
    ∀ w ∈ relationValuesOf g.storedEdges k key, ∀ x, w = some x → x.Survives := by
  intro w hw x hx
  obtain ⟨f, hf, rfl⟩ := List.mem_map.1 hw
  obtain ⟨e, he, hf⟩ := mem_storedEdges.1 (List.mem_filter.1 hf).1
  obtain ⟨_, _, rfl⟩ := List.mem_map.1 hf
  exact Properties.survives_encode (hg.2 e he) key x hx

/-- Graphs of values that survive commute in tables if they do in memory. -/
theorem CommutesUnder.reread (h' : g.CommutesUnder id h) (hg : g.Survives) (hh : h.Survives) :
    g.CommutesUnder Json.reread h where
  node i key := (h'.node i key).reread (hg.valuesOf i key) (hh.valuesOf i key)
  edge k key := (h'.edge k key).reread (hg.relationValuesOf k key) (hh.relationValuesOf k key)

end Graph

/-- Nothing impedes clients that bring what can be read to a store that can be read. -/
theorem Legible.not_impeded {σ : Type} [LawfulBackend σ] {s : σ} (h : Legible s) (hs : Valid s)
    {g g' : Graph} (hg : g.IsWritable) (hg' : g'.IsWritable) (hlegible : g.IsLegible σ)
    (hlegible' : g'.IsLegible σ) : ¬Impeded s g g' := by
  rintro ⟨ps, hps, hblocked⟩
  have hnodes : ∀ n ∈ ps.flatMap Pass.storedNodes,
      n.WellFormed ∧ Backend.legible σ n.properties = true := by
    intro n hn
    rcases hps.mem_storedNodes_iff.1 hn with hn | hn
    · exact ⟨hg.nodes.wellFormed n hn, hlegible.storedNodes n hn⟩
    · exact ⟨hg'.nodes.wellFormed n hn, hlegible'.storedNodes n hn⟩
  have hedges : ∀ e ∈ ps.flatMap Pass.storedEdges, Backend.legible σ e.properties = true := by
    intro e he
    rcases hps.mem_storedEdges_iff.1 he with he | he
    · exact hlegible.storedEdges e he
    · exact hlegible'.storedEdges e he
  have hwellFormed := fun n hn => (hnodes n hn).1
  have hread := fun n hn => (hnodes n hn).2
  rcases hblocked with hblocked | hblocked
  · exact h.not_nodesBlocked hs hread hblocked
  · exact (h.putNodes hs hwellFormed hread).not_edgesBlocked (hs.putNodes hwellFormed) hedges hblocked

/-- Clients that take in graphs that agree, at the same time, have all their relationships written.
In memory they converge.  In tables they are cut short if something is merged into what cannot be
read; if that is so in no order of their passes, they converge exactly if each value of one graph
stays as it is while the other is written. -/
theorem ingests_converge {s : AdjacencyStore} {t : TableStore} (hs : Reachable s)
    (ht : Reachable t) {g h : Graph} (hg : g.IsWritable) (hh : h.IsWritable)
    (hagrees : g.Agrees h) :
    (g.ClosedOver (contents s) → h.ClosedOver (contents s) →
      TakesAll s g h ∧ Converges s g h) ∧
    (g.ClosedOver (contents t) → h.ClosedOver (contents t) → TakesAllLegible t g h ∧
      (¬Impeded t g h → (Converges t g h ↔ g.CommutesUnder Json.reread h))) := by
  constructor
  · intro hgs hhs
    constructor
    · intro ps hps
      exact (hs.valid.takesAllLegible hg hh hgs hhs ps hps).1 (not_passesBlocked s ps)
    · exact (hs.valid.converges_iff hg hh hgs hhs (not_impeded s g h)).2 hagrees.commutesUnder
  · intro hgt hht
    exact ⟨ht.valid.takesAllLegible hg hh hgt hht, ht.valid.converges_iff hg hh hgt hht⟩

/-! ## Two clients -/

namespace Graph

variable {g h : Graph}

theorem exists_of_lastValue? {i key : String} {v : Json} (hv : g.lastValue? i key = some v) :
    ∃ n ∈ g.nodes, n.properties.get? key = some v := by
  obtain ⟨n, hn, hv⟩ := List.mem_filterMap.1 (List.mem_of_getLast? hv)
  exact ⟨n, (List.mem_filter.1 hn).1, (Option.filter_eq_some_iff.1 hv).1⟩

theorem exists_of_lastRelationValue? {source target label key : String} {v : Json}
    (hv : g.lastRelationValue? source target label key = some v) :
    ∃ e ∈ g.edges, e.properties.get? key = some v := by
  obtain ⟨r, hr, hv⟩ := List.mem_filterMap.1 (List.mem_of_getLast? hv)
  obtain ⟨e, he, hr⟩ := List.mem_flatMap.1 (List.mem_filter.1 hr).1
  obtain ⟨_, _, rfl⟩ := List.mem_map.1 hr
  exact ⟨e, he, (Option.filter_eq_some_iff.1 hv).1⟩

/-- Datasets of one name that share a file. -/
def named (name : String) (ids : List String) : Graph where
  nodes := ids.map fun id => ⟨id, ["Dataset"], KeyMap.empty.insert "name" (.str name)⟩
  edges := ids.map fun id =>
    ⟨id, "f", ["distribution"], KeyMap.empty.insert "name" (.str name)⟩

theorem eq_of_get?_named {name key : String} {v : Json}
    (hv : (KeyMap.empty.insert "name" (.str name) : Properties).get? key = some v) :
    v = .str name := by
  rw [KeyMap.get?_insert] at hv
  split at hv
  · exact (Option.some.inj hv).symm
  · cases hv

theorem survives_named (name : String) (ids : List String) : (named name ids).Survives := by
  constructor
  · intro n hn key v hv
    obtain ⟨id, _, rfl⟩ := List.mem_map.1 hn
    rw [eq_of_get?_named hv]
    exact Json.survives_str name
  · intro e he key v hv
    obtain ⟨id, _, rfl⟩ := List.mem_map.1 he
    rw [eq_of_get?_named hv]
    exact Json.survives_str name

/-- Datasets agree on their one name. -/
theorem agrees_named (name : String) (ids ids' : List String) :
    (named name ids).Agrees (named name ids') where
  node := by
    intro i key v w _ hv hw
    obtain ⟨n, hn, hv⟩ := exists_of_lastValue? hv
    obtain ⟨m, hm, hw⟩ := exists_of_lastValue? hw
    obtain ⟨_, _, rfl⟩ := List.mem_map.1 hn
    obtain ⟨_, _, rfl⟩ := List.mem_map.1 hm
    rw [eq_of_get?_named hv, eq_of_get?_named hw]
  edge := by
    intro source target label key v w hv hw
    obtain ⟨e, he, hv⟩ := exists_of_lastRelationValue? hv
    obtain ⟨d, hd, hw⟩ := exists_of_lastRelationValue? hw
    obtain ⟨_, _, rfl⟩ := List.mem_map.1 he
    obtain ⟨_, _, rfl⟩ := List.mem_map.1 hd
    rw [eq_of_get?_named hv, eq_of_get?_named hw]

theorem closedOver_named (name : String) {ids : List String} (hids : "" ∉ ids) {c : Contents}
    (hfile : (c.node? "f").isSome = true) : (named name ids).ClosedOver c := by
  intro e he i hi
  obtain ⟨j, hj, rfl⟩ := List.mem_map.1 he
  rcases hi with rfl | rfl
  · exact .inr ⟨_, List.mem_map.2 ⟨_, hj, rfl⟩, ne_of_mem_of_not_mem hj hids, rfl⟩
  · exact .inl hfile

end Graph

/-- Two clients give a dataset the same name, and add one more each. -/
theorem ingests_converge_named :
    Reachable (sharing ["a", "b"] : AdjacencyStore) ∧ Reachable (sharing ["a", "b"] : TableStore) ∧
    (Graph.named "N" ["a", "c"]).IsWritable ∧ (Graph.named "N" ["d", "a"]).IsWritable ∧
    (Graph.named "N" ["a", "c"]).Agrees (.named "N" ["d", "a"]) ∧
    (TakesAll (sharing ["a", "b"] : AdjacencyStore) (.named "N" ["a", "c"]) (.named "N" ["d", "a"]) ∧
      Converges (sharing ["a", "b"] : AdjacencyStore) (.named "N" ["a", "c"])
        (.named "N" ["d", "a"])) ∧
    TakesAll (sharing ["a", "b"] : TableStore) (.named "N" ["a", "c"]) (.named "N" ["d", "a"]) ∧
      Converges (sharing ["a", "b"] : TableStore) (.named "N" ["a", "c"]) (.named "N" ["d", "a"]) := by
  have hmemory := reachable_sharing (σ := AdjacencyStore) ["a", "b"]
  have htables := reachable_sharing (σ := TableStore) ["a", "b"]
  have hg : (Graph.named "N" ["a", "c"]).IsWritable :=
    Graph.WritableNodes.isWritable (by decide) (by decide)
  have hh : (Graph.named "N" ["d", "a"]).IsWritable :=
    Graph.WritableNodes.isWritable (by decide) (by decide)
  have hagrees := Graph.agrees_named "N" ["a", "c"] ["d", "a"]
  obtain ⟨hconverge, hconverge'⟩ := ingests_converge hmemory htables hg hh hagrees
  have hfile : ((contents (sharing ["a", "b"] : AdjacencyStore)).node? "f").isSome = true := by
    decide +kernel
  have hfile' : ((contents (sharing ["a", "b"] : TableStore)).node? "f").isSome = true := by
    decide +kernel
  obtain ⟨htakes, hiff⟩ := hconverge' (Graph.closedOver_named "N" (by decide) hfile')
    (Graph.closedOver_named "N" (by decide) hfile')
  have hsurvive := Graph.survives_named "N" ["a", "c"]
  have hsurvive' := Graph.survives_named "N" ["d", "a"]
  have hfree := (legible_sharing ["a", "b"]).not_impeded htables.valid hg hh hsurvive.isLegible
    hsurvive'.isLegible
  exact ⟨hmemory, htables, hg, hh, hagrees,
    hconverge (Graph.closedOver_named "N" (by decide) hfile)
      (Graph.closedOver_named "N" (by decide) hfile),
    fun ps hps => (htakes ps hps).1 fun hblocked => hfree ⟨ps, hps, hblocked⟩,
    (hiff hfree).2 (hagrees.commutesUnder.reread hsurvive hsurvive')⟩

/-- In tables clients need not converge although their graphs agree: the double is read back once
more if its graph comes first. -/
theorem ingests_diverge :
    Reachable (Backend.empty : TableStore) ∧
    Graph.restless.IsWritable ∧ (Graph.respelled "n" "n").IsWritable ∧
    Graph.restless.Agrees (.respelled "n" "n") ∧
    Graph.restless.ClosedOver (contents (Backend.empty : TableStore)) ∧
    (Graph.respelled "n" "n").ClosedOver (contents (Backend.empty : TableStore)) ∧
    ¬Converges (Backend.empty : TableStore) .restless (.respelled "n" "n") := by
  refine ⟨.empty, Graph.WritableNodes.isWritable (by decide) (by decide),
    Graph.WritableNodes.isWritable (by decide) (by decide), ⟨?_, ?_⟩, nofun, ?_, ?_⟩
  · intro i key v w _ _ hw
    obtain ⟨n, hn, hw⟩ := Graph.exists_of_lastValue? hw
    cases List.mem_singleton.1 hn
    cases hw
  · intro source target label key v w hv _
    obtain ⟨e, he, _⟩ := Graph.exists_of_lastRelationValue? hv
    cases he
  · intro e he i hi
    cases List.mem_singleton.1 he
    refine .inr ⟨_, List.mem_singleton_self _, by decide, ?_⟩
    rcases hi with rfl | rfl <;> rfl
  · intro hconverges
    have halike := hconverges _ _ (Interleaves.append _ _) (Interleaves.append _ _).swap
    have hvalue := halike.value?_eq "n" "v"
    revert hvalue
    decide +kernel

end DatasetGraph
