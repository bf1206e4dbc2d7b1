import DatasetGraph.Proofs.Store.Concurrency

/-!
# What clients see of writes

Clients name a node by its id and a relationship by its ends and one label, and they see neither
escapes nor markers.  What a store shows them is a `View`, and it is all that they can read
(`Shows`).  Where a store cannot read what it keeps, readings fail, and views may differ there
(`View.AgreeIn`).

A graph acts on the view as it stands (`View.withNodes`, `View.withEdges`): new labels come behind
the old ones, properties other than `null` are laid over the old ones, and an edge becomes a
relationship for each of its labels, if its ends are stored.  That the stored form in between leaves
no trace is proved for one node (`Contents.view_mergeNode`) and one relationship
(`Contents.view_mergeEdge`), and from that for a graph.  The one value that could not be told from
its stored form is the marker itself, so graphs have to avoid it (`Graph.AvoidsMarker`).

In memory values stay as they are.  In tables all values of a node or relationship are read back
whenever something is laid over it, so there a client sees the same only of values that survive
this.  `writes_show` says both.
-/

namespace DatasetGraph

/-! ## Labels -/

section

variable {α β : Type} [DecidableEq α] [DecidableEq β]

theorem addNew_map {f : α → β} (hf : f.Injective) (xs ys : List α) :
    addNew (xs.map f) (ys.map f) = (addNew xs ys).map f := by
  induction ys generalizing xs with
  | nil => rfl
  | cons y ys ih =>
    have hinsert : insertNew (xs.map f) (f y) = (insertNew xs y).map f := by
      simp only [insertNew, List.mem_map_of_injective hf]
      split <;> simp
    rw [List.map_cons, addNew_cons, hinsert, ih, addNew_cons]

theorem distinct_append (xs ys : List α) : distinct (xs ++ ys) = addNew (distinct xs) ys :=
  addNew_append [] xs ys

theorem distinct_distinct_append (xs ys : List α) :
    distinct (distinct xs ++ ys) = distinct (xs ++ ys) := by
  rw [distinct_append, distinct_append, distinct_of_nodup (nodup_distinct xs)]

/-- What gathers in one list and then in another gathers there all the same. -/
theorem addNew_addNew (xs ys zs : List α) : addNew xs (addNew ys zs) = addNew (addNew xs ys) zs := by
  induction zs using List.reverseRecOn with
  | nil => rfl
  | append_singleton zs z ih =>
    rw [addNew_append, addNew_append, ← ih, addNew_cons, addNew_nil, addNew_cons, addNew_nil]
    by_cases hz : z ∈ addNew ys zs
    · rw [insertNew, if_pos hz, insertNew, if_pos (mem_addNew.2 (.inr hz))]
    · rw [insertNew, if_neg hz, addNew_append, addNew_cons, addNew_nil]

/-- Members that are already there do not get in the way of the others. -/
theorem addNew_distinct (xs ys : List α) : addNew xs (distinct ys) = addNew xs ys :=
  addNew_addNew xs [] ys

end

/-- The identifiers of texts, read again. -/
theorem mapM_token_escape (ts : List String) :
    (ts.map fun t => (⟨Identifier.escape t⟩ : Identifier)).mapM Identifier.token = .ok ts := by
  rw [Fallible.mapM_eq_ok_iff]
  induction ts with
  | nil => exact .nil
  | cons t ts ih => exact .cons (Identifier.token_escape t) ih

theorem Identifier.mk_escape_injective :
    (fun t => (⟨escape t⟩ : Identifier)).Injective := by
  intro t u h
  exact escape_injective (congrArg Identifier.text h)

theorem Node.labels_stored (n : Node) :
    n.stored.labels = (distinct n.labels).map fun t => ⟨Identifier.escape t⟩ :=
  addNew_map Identifier.mk_escape_injective [] n.labels

/-! ## Properties -/

/-- What is read of a settled value is settled. -/
def Json.Transparent (settle : Json → Json) : Prop :=
  ∀ v, (settle v).unmarkEmpty = settle v.unmarkEmpty

theorem Json.transparent_id : Transparent id := fun _ => rfl

theorem Json.transparent_reread : Transparent reread := by
  intro v
  cases v with
  | str s =>
    simp only [reread, unmarkEmpty]
    split <;> rfl
  | _ => rfl

theorem Json.unmarkEmpty_markEmpty {v : Json} (h : v ≠ .str emptyListMarker) :
    v.markEmpty.unmarkEmpty = v := by
  unfold markEmpty
  split
  · simp [unmarkEmpty]
  · unfold unmarkEmpty
    grind

namespace Properties

/-- The properties other than `null`. -/
def notNull (p : Properties) : Properties := p.filter fun _ v => !v.isNull

/-- Properties over which others are laid, one after the other, and whose values are settled each
time. -/
def laid (settle : Json → Json) (p : Properties) (qs : List Properties) : Properties :=
  qs.foldl (fun p q => (p.overlay q.notNull).mapValues settle) p

/-- No value is the marker of an empty list. -/
def AvoidsMarker (p : Properties) : Prop := p.All fun v => v ≠ .str emptyListMarker

@[simp] theorem laid_nil (settle : Json → Json) (p : Properties) : p.laid settle [] = p := rfl

theorem laid_laid (settle : Json → Json) (p q : Properties) (qs : List Properties) :
    (p.laid settle [q]).laid settle qs = p.laid settle (q :: qs) := rfl

theorem get?_notNull (p : Properties) (key : String) : p.notNull.get? key = p.notNull? key :=
  KeyMap.get?_filter p (fun _ v => !v.isNull) key

theorem AvoidsMarker.unmark_notNull? {q : Properties} (hq : q.AvoidsMarker) (key : String) :
    ((q.notNull? key).map Json.markEmpty).map Json.unmarkEmpty = q.notNull? key := by
  cases h : q.notNull? key with
  | none => rfl
  | some v =>
    exact congrArg some (Json.unmarkEmpty_markEmpty (hq key v (Option.filter_eq_some_iff.1 h).1))

/-- What is written over properties is read as if it had been laid over what was read of them. -/
theorem decode_overlay_encode {settle : Json → Json} (hsettle : Json.Transparent settle)
    (p : Properties) {q : Properties} (hq : q.AvoidsMarker) :
    decode ((p.overlay q.encode).mapValues settle) = p.decode.laid settle [q] := by
  apply KeyMap.ext_get?
  intro key
  have hcomm : Json.unmarkEmpty ∘ settle = settle ∘ Json.unmarkEmpty := funext hsettle
  rw [laid, List.foldl_cons, List.foldl_nil]
  simp only [decode, KeyMap.get?_mapValues, KeyMap.get?_overlay, get?_notNull, get?_encode,
    Option.map_map, hcomm]
  rw [← Option.map_map, Option.map_or, hq.unmark_notNull?]

/-- Values that survive are laid over others in tables as they are in memory. -/
theorem laid_reread {p : Properties} {qs : List Properties} (hp : p.All Json.Survives)
    (hqs : ∀ q ∈ qs, q.All Json.Survives) : p.laid Json.reread qs = p.laid id qs := by
  induction qs generalizing p with
  | nil => rfl
  | cons q qs ih =>
    obtain ⟨hq, hqs⟩ := List.forall_mem_cons.1 hqs
    have hall : (p.overlay q.notNull).All Json.Survives := hp.overlay (hq.filter _)
    have hone : p.laid Json.reread [q] = p.laid id [q] := by
      show (p.overlay q.notNull).mapValues Json.reread = (p.overlay q.notNull).mapValues id
      rw [mapValues_reread hall]
    rw [← laid_laid, ← laid_laid, hone]
    apply ih _ hqs
    exact KeyMap.all_mapValues.2 hall

end Properties

/-! ## Views -/

/-- What a client can see of a store. -/
@[ext] structure View where
  /-- The node with an id. -/
  node? : String → Option Node
  /-- The properties of the relationship with the given source, target and label. -/
  relation? : String → String → String → Option Properties

/-- No value of the graph is the marker of an empty list. -/
structure Graph.AvoidsMarker (g : Graph) : Prop where
  node : ∀ n ∈ g.nodes, n.properties.AvoidsMarker
  edge : ∀ e ∈ g.edges, e.properties.AvoidsMarker

/-- The nodes of a graph with an id; without one there are none. -/
def Graph.nodesAt (g : Graph) (id : String) : List Node :=
  g.nodes.filter fun n => n.id = id && n.id ≠ ""

/-- The edges of a graph with the given ends and label, among others. -/
def Graph.edgesAt (g : Graph) (source target label : String) : List Edge :=
  (g.relations.filter fun r =>
    r.1.source = source && r.1.target = target && r.2 = label).map Prod.fst

namespace View

variable (settle : Json → Json) (v : View)

def labels (id : String) : List String := (v.node? id).elim [] Node.labels

def properties (id : String) : Properties := (v.node? id).elim .empty Node.properties

/-- Whether both ends of a relationship are stored. -/
def joins (source target : String) : Bool := (v.node? source).isSome && (v.node? target).isSome

/-- The view with the nodes of a graph laid over it.  Of labels only the first occurrences are
kept. -/
def withNodes (g : Graph) : View where
  node? id :=
    if (g.nodesAt id).isEmpty then v.node? id
    else some ⟨id, distinct (v.labels id ++ (g.nodesAt id).flatMap Node.labels),
      (v.properties id).laid settle ((g.nodesAt id).map Node.properties)⟩
  relation? := v.relation?

/-- The view with the edges of a graph laid over it, so far as their ends are stored. -/
def withEdges (g : Graph) : View where
  node? := v.node?
  relation? source target label :=
    if v.joins source target && !(g.edgesAt source target label).isEmpty then
      some (((v.relation? source target label).getD .empty).laid settle
        ((g.edgesAt source target label).map Edge.properties))
    else v.relation? source target label

/-- The view with one node laid over it. -/
def addNode (n : Node) : View where
  node? id :=
    if id = n.id then some ⟨id, distinct (v.labels id ++ n.labels),
      (v.properties id).laid settle [n.properties]⟩
    else v.node? id
  relation? := v.relation?

/-- The view with one label of an edge laid over it. -/
def addRelation (r : Edge × String) : View where
  node? := v.node?
  relation? source target label :=
    if source = r.1.source ∧ target = r.1.target ∧ label = r.2 then
      some (((v.relation? source target label).getD .empty).laid settle [r.1.properties])
    else v.relation? source target label

variable {settle v}

/-- Nodes laid over a view one after the other are laid over it together. -/
theorem node?_foldl_addNode (ns : List Node) (id : String) :
    (ns.foldl (addNode settle) v).node? id =
      if (ns.filter fun n => n.id = id).isEmpty then v.node? id
      else some ⟨id, distinct (v.labels id ++ (ns.filter fun n => n.id = id).flatMap Node.labels),
        (v.properties id).laid settle ((ns.filter fun n => n.id = id).map Node.properties)⟩ := by
  induction ns generalizing v with
  | nil => rfl
  | cons n ns ih =>
    rw [List.foldl_cons, ih]
    by_cases hid : n.id = id
    · have hnode : (v.addNode settle n).node? id = some ⟨id, distinct (v.labels id ++ n.labels),
          (v.properties id).laid settle [n.properties]⟩ := if_pos hid.symm
      have hlabels : (v.addNode settle n).labels id = distinct (v.labels id ++ n.labels) := by
        rw [labels, hnode, Option.elim_some]
      have hproperties :
          (v.addNode settle n).properties id = (v.properties id).laid settle [n.properties] := by
        rw [properties, hnode, Option.elim_some]
      rw [List.filter_cons_of_pos (by simpa using hid), hnode, hlabels, hproperties]
      cases hns : ns.filter fun n => n.id = id with
      | nil => simp
      | cons m ms =>
        simp [distinct_distinct_append, Properties.laid_laid]
    · have hother : (v.addNode settle n).node? id = v.node? id := if_neg (Ne.symm hid)
      rw [List.filter_cons_of_neg (by simpa using hid), hother, labels, properties, hother]
      rfl

theorem relation?_foldl_addNode (ns : List Node) :
    (ns.foldl (addNode settle) v).relation? = v.relation? := by
  induction ns generalizing v with
  | nil => rfl
  | cons n ns ih => exact ih

theorem node?_foldl_addRelation (rs : List (Edge × String)) :
    (rs.foldl (addRelation settle) v).node? = v.node? := by
  induction rs generalizing v with
  | nil => rfl
  | cons r rs ih => exact ih

/-- Relationships laid over a view one after the other are laid over it together. -/
theorem relation?_foldl_addRelation (rs : List (Edge × String)) (source target label : String) :
    (rs.foldl (addRelation settle) v).relation? source target label =
      if (rs.filter fun r =>
        r.1.source = source && r.1.target = target && r.2 = label).isEmpty then
        v.relation? source target label
      else some (((v.relation? source target label).getD .empty).laid settle
        ((rs.filter fun r =>
          r.1.source = source && r.1.target = target && r.2 = label).map
            fun r => r.1.properties)) := by
  induction rs generalizing v with
  | nil => rfl
  | cons r rs ih =>
    rw [List.foldl_cons, ih]
    by_cases hr : source = r.1.source ∧ target = r.1.target ∧ label = r.2
    · have hrelation : (v.addRelation settle r).relation? source target label =
          some (((v.relation? source target label).getD .empty).laid settle [r.1.properties]) :=
        if_pos hr
      rw [List.filter_cons_of_pos (by simp [hr]), hrelation]
      cases hrs : rs.filter fun r => r.1.source = source && r.1.target = target && r.2 = label with
      | nil => simp
      | cons q qs => simp [Properties.laid_laid]
    · have hother : (v.addRelation settle r).relation? source target label =
          v.relation? source target label := if_neg hr
      rw [List.filter_cons_of_neg (by grind), hother]

end View

/-! ## The view of contents -/

/-- A node that may be kept is read with its labels, each once. -/
theorem StoredNode.WellFormed.exists_labels {m : StoredNode} (hm : m.WellFormed) :
    ∃ ts : List String, ts.Nodup ∧ m.labels = ts.map (fun t => ⟨Identifier.escape t⟩) ∧
      m.toNode = .ok ⟨m.id, ts, m.properties.decode⟩ := by
  have hrange : m.labels ∈ Set.range (List.map fun t => (⟨Identifier.escape t⟩ : Identifier)) := by
    rw [Set.range_list_map]
    intro l hl
    obtain ⟨t, _, ht⟩ := hm.proper l hl
    exact ⟨t, congrArg Identifier.mk ht.symm⟩
  obtain ⟨ts, hts⟩ := hrange
  refine ⟨ts, ?_, hts.symm, ?_⟩
  · exact List.Nodup.of_map _ (hts ▸ hm.nodup_labels)
  · rw [toNode, ← hts, mapM_token_escape]
    rfl

/-- The relationship that is written for an edge and one of its labels. -/
def Edge.relation (r : Edge × String) : StoredEdge :=
  ⟨r.1.source, r.1.target, ⟨Identifier.escape r.2⟩, r.1.properties.encode⟩

namespace Contents

/-- What a client can see of contents. -/
def view (c : Contents) : View where
  node? := c.read?
  relation? source target label :=
    (c.edge? ⟨source, target, ⟨Identifier.escape label⟩⟩).map Properties.decode

variable {settle : Json → Json} {c : Contents}

/-- A node laid over another is read with the labels that are new behind those of the other. -/
theorem toNode_mergedNode (hsettle : Json.Transparent settle) {old : Option StoredNode}
    {ts : List String} (hts : ts.Nodup)
    (hlabels : old.elim [] StoredNode.labels = ts.map fun t => ⟨Identifier.escape t⟩) {n : Node}
    (hn : n.properties.AvoidsMarker) :
    (mergedNode settle old n.stored).toNode = .ok ⟨n.id, distinct (ts ++ n.labels),
      (old.elim .empty StoredNode.properties).decode.laid settle [n.properties]⟩ := by
  have hmerged : mergedNode settle old n.stored =
      ⟨n.id, (distinct (ts ++ n.labels)).map fun t => ⟨Identifier.escape t⟩,
        ((old.elim .empty StoredNode.properties).overlay n.properties.encode).mapValues settle⟩ := by
    have hdistinct : distinct (ts ++ n.labels) = addNew ts (distinct n.labels) := by
      rw [distinct_append, distinct_of_nodup hts, addNew_distinct]
    rw [hdistinct, ← addNew_map Identifier.mk_escape_injective, ← hlabels, ← n.labels_stored]
    cases old <;> rfl
  rw [hmerged, StoredNode.toNode, mapM_token_escape,
    ← Properties.decode_overlay_encode hsettle _ hn]
  rfl

/-- A node laid over contents is seen laid over what was seen of them. -/
theorem view_mergeNode (hsettle : Json.Transparent settle) (hc : c.WellFormed) {n : Node}
    (hn : n.properties.AvoidsMarker) :
    (c.mergeNode settle n.stored).view = c.view.addNode settle n := by
  ext1
  · funext id
    show Option.bind (if id = n.id then _ else _) _ = if id = n.id then _ else _
    by_cases hid : id = n.id
    · subst hid
      rw [if_pos rfl, if_pos rfl, Option.bind_some, View.labels, View.properties]
      cases hm : c.node? n.id with
      | none =>
        have hread : c.view.node? n.id = none := by simp [view, read?, hm]
        rw [hread, toNode_mergedNode hsettle List.nodup_nil rfl hn]
        rfl
      | some m =>
        obtain ⟨ts, hts, hlabels, htoNode⟩ := (hc.node hm).exists_labels
        have hread : c.view.node? n.id = some ⟨m.id, ts, m.properties.decode⟩ :=
          read?_eq_some_iff.2 ⟨m, hm, htoNode⟩
        have hlabels : (some m).elim [] StoredNode.labels = _ := hlabels
        rw [hread, toNode_mergedNode hsettle hts hlabels hn]
        rfl
    · rw [if_neg hid, if_neg hid]
      rfl
  · rfl

/-- A relationship laid over contents is seen laid over what was seen of them. -/
theorem view_mergeEdge (hsettle : Json.Transparent settle) {r : Edge × String}
    (hr : r.1.properties.AvoidsMarker) :
    (c.mergeEdge settle (Edge.relation r)).view = c.view.addRelation settle r := by
  ext1
  · rfl
  · funext source target label
    have hkey : (⟨source, target, ⟨Identifier.escape label⟩⟩ : RelationKey) =
        (Edge.relation r).key ↔ source = r.1.source ∧ target = r.1.target ∧ label = r.2 := by
      have hlabel : Identifier.escape label = Identifier.escape r.2 ↔ label = r.2 :=
        ⟨fun h => Identifier.escape_injective h, congrArg _⟩
      simp [Edge.relation, StoredEdge.key, hlabel]
    show ((c.mergeEdge settle (Edge.relation r)).edge? _).map Properties.decode =
      if _ then some ((((c.edge? _).map Properties.decode).getD .empty).laid settle _) else _
    rw [edge?_mergeEdge]
    by_cases hsame : source = r.1.source ∧ target = r.1.target ∧ label = r.2
    · rw [if_pos (hkey.2 hsame), if_pos hsame, Option.map_some]
      apply congrArg some
      rw [mergedProperties, Edge.relation, Properties.decode_overlay_encode hsettle _ hr]
      cases c.edge? _ <;> rfl
    · rw [if_neg (mt hkey.1 hsame), if_neg hsame]
      rfl

/-- An edge is there exactly if the relationship is seen. -/
theorem WellFormed.holdsEdge_iff_relation? (hc : c.WellFormed) {e : Edge} : c.HoldsEdge e ↔
    ∃ label, e.labels = [label] ∧
      c.view.relation? e.source e.target label = some e.properties := by
  constructor
  · rintro ⟨k, p, hp, he⟩
    obtain ⟨t, ht, rfl⟩ := toEdge_eq_ok he
    refine ⟨t, rfl, Option.map_eq_some_iff.2 ⟨p, ?_, rfl⟩⟩
    obtain ⟨u, hu, _, htext⟩ := (hc.edge hp).proper.token_eq
    rw [ht] at hu
    cases hu
    rw [← hp]
    exact congrArg (fun text => c.edge? ⟨k.source, k.target, ⟨text⟩⟩) htext.symm
  · rintro ⟨label, hlabel, hp⟩
    obtain ⟨p, hp, hproperties⟩ := Option.map_eq_some_iff.1 hp
    have hread : (RelationKey.withProperties ⟨e.source, e.target, ⟨Identifier.escape label⟩⟩
        p).toEdge = .ok ⟨e.source, e.target, [label], p.decode⟩ := by
      rw [StoredEdge.toEdge, RelationKey.withProperties, Identifier.token_escape]
      rfl
    exact ⟨_, p, hp, by rw [hread, hproperties, ← hlabel]⟩

theorem view_mergeNodes (hsettle : Json.Transparent settle)
    (hkept : ∀ v, v.IsKept → (settle v).IsKept) (hc : c.WellFormed) {ns : List Node}
    (hns : ∀ n ∈ ns, n.properties.AvoidsMarker) (hwell : ∀ n ∈ ns, n.stored.WellFormed) :
    (c.mergeNodes settle (ns.map Node.stored)).view = ns.foldl (View.addNode settle) c.view := by
  induction ns generalizing c with
  | nil => rfl
  | cons n ns ih =>
    obtain ⟨hn, hns⟩ := List.forall_mem_cons.1 hns
    obtain ⟨hstored, hwell⟩ := List.forall_mem_cons.1 hwell
    show ((c.mergeNode settle n.stored).mergeNodes settle (ns.map Node.stored)).view = _
    rw [ih (hc.mergeNode hkept hstored) hns hwell, view_mergeNode hsettle hc hn, List.foldl_cons]

theorem view_layEdges (hsettle : Json.Transparent settle) {rs : List (Edge × String)}
    (hrs : ∀ r ∈ rs, r.1.properties.AvoidsMarker) :
    (c.layEdges settle (rs.map Edge.relation)).view =
      rs.foldl (View.addRelation settle) c.view := by
  induction rs generalizing c with
  | nil => rfl
  | cons r rs ih =>
    obtain ⟨hr, hrs⟩ := List.forall_mem_cons.1 hrs
    show ((c.mergeEdge settle (Edge.relation r)).layEdges settle (rs.map Edge.relation)).view = _
    rw [ih hrs, view_mergeEdge hsettle hr, List.foldl_cons]

end Contents

/-! ## The view of a graph that is written -/

namespace Graph

variable {settle : Json → Json} {c : Contents} {g : Graph}

theorem mem_edges_of_mem_relations {r : Edge × String} (hr : r ∈ g.relations) :
    r.1 ∈ g.edges := by
  obtain ⟨e, he, hr⟩ := List.mem_flatMap.1 hr
  obtain ⟨_, _, rfl⟩ := List.mem_map.1 hr
  exact he

/-- The nodes of a graph are seen laid over what was seen before. -/
theorem AvoidsMarker.view_mergeNodes (hg : g.AvoidsMarker) (hwritable : g.WritableNodes)
    (hsettle : Json.Transparent settle) (hkept : ∀ v, v.IsKept → (settle v).IsKept)
    (hc : c.WellFormed) :
    (c.mergeNodes settle g.storedNodes).view = c.view.withNodes settle g := by
  rw [storedNodes, Contents.view_mergeNodes hsettle hkept hc]
  · ext1
    · funext id
      rw [View.node?_foldl_addNode, List.filter_filter]
      rfl
    · rw [View.relation?_foldl_addNode]
      rfl
  · exact fun n hn => hg.node n (List.mem_filter.1 hn).1
  · exact fun n hn => hwritable.wellFormed n.stored (List.mem_map_of_mem hn)

/-- Of the edges between two nodes, all are written or none. -/
theorem filter_joins (v : View) (source target label : String) :
    ((g.relations.filter fun r => v.joins r.1.source r.1.target).filter fun r =>
      r.1.source = source && r.1.target = target && r.2 = label) =
      if v.joins source target then g.relations.filter fun r =>
        r.1.source = source && r.1.target = target && r.2 = label
      else [] := by
  rw [List.filter_filter]
  split
  · apply List.filter_congr
    grind
  · rw [List.filter_eq_nil_iff]
    grind

/-- The edges of a graph are seen laid over what was seen before. -/
theorem AvoidsMarker.view_mergeEdges (hg : g.AvoidsMarker) (hsettle : Json.Transparent settle)
    (hc : c.WellFormed) :
    (c.mergeEdges settle g.storedEdges).view = c.view.withEdges settle g := by
  have hrelations : g.storedEdges.filter c.joins =
      (g.relations.filter fun r => c.view.joins r.1.source r.1.target).map Edge.relation := by
    rw [storedEdges_eq_map, List.filter_map]
    congr 1
    apply List.filter_congr
    intro r _
    show (c.joins _) = ((c.read? _).isSome && (c.read? _).isSome)
    rw [hc.isSome_read?, hc.isSome_read?]
    rfl
  show (c.layEdges settle (g.storedEdges.filter c.joins)).view = _
  rw [hrelations, Contents.view_layEdges hsettle]
  · ext1
    · exact View.node?_foldl_addRelation _
    · funext source target label
      rw [View.relation?_foldl_addRelation, filter_joins]
      show _ = if c.view.joins source target && !(g.edgesAt source target label).isEmpty then _
        else _
      cases c.view.joins source target with
      | false => simp
      | true =>
        rw [if_pos rfl, edgesAt, List.isEmpty_map, List.map_map, Bool.true_and]
        cases List.isEmpty _ <;> rfl
  · exact fun r hr => hg.edge r.1 (mem_edges_of_mem_relations (List.mem_filter.1 hr).1)

end Graph

/-! ## What is read of a store -/

section

variable {σ : Type} [ListedBackend σ]

/-- A store shows a view: it holds the nodes of the view, and all readings give what is in the view,
but for those that meet what cannot be read. -/
structure Shows (s : σ) (v : View) : Prop where
  stored (id : String) : (v.node? id).isSome = Backend.hasNode s id
  readNode {id : String} : ¬NodeUnreadable s id →
    Store.readNode s id = .ok ⟨(v.node? id).toList, []⟩
  readNode_error {id : String} : NodeUnreadable s id → Store.readNode s id = .error .unreadable
  incidentEdges {ids : List String} : (∀ id ∈ ids, ¬EdgeUnreadable s id) →
    ∃ es, Store.incidentEdges s ids = .ok es ∧ es.Nodup ∧
      ∀ e, e ∈ es ↔ (∃ id ∈ ids, e.touches id = true) ∧
        ∃ label, e.labels = [label] ∧ v.relation? e.source e.target label = some e.properties
  incidentEdges_error {ids : List String} : (∃ id ∈ ids, EdgeUnreadable s id) →
    Store.incidentEdges s ids = .error .unreadable

/-- Two views differ at most in what a store cannot read. -/
structure View.AgreeIn (s : σ) (v w : View) : Prop where
  stored (id : String) : (v.node? id).isSome = (w.node? id).isSome
  node {id : String} : ¬NodeUnreadable s id → v.node? id = w.node? id
  relation {source target : String} : ¬EdgeUnreadable s source ∨ ¬EdgeUnreadable s target →
    ∀ label, v.relation? source target label = w.relation? source target label

variable {s t : σ} {v w : View}

/-- What a store shows is determined as far as it can be read. -/
theorem Shows.agreeIn (hv : Shows s v) (hw : Shows s w) : v.AgreeIn s w where
  stored id := (hv.stored id).trans (hw.stored id).symm
  node {id} hid := by
    have h := (hv.readNode hid).symm.trans (hw.readNode hid)
    have hlist : (v.node? id).toList = (w.node? id).toList := congrArg Graph.nodes (Except.ok.inj h)
    cases hvn : v.node? id <;> cases hwn : w.node? id <;> simp_all
  relation {source target} hends label := by
    obtain ⟨id, hid, htouches⟩ : ∃ id, ¬EdgeUnreadable s id ∧ (source = id ∨ target = id) := by
      rcases hends with hends | hends
      · exact ⟨source, hends, .inl rfl⟩
      · exact ⟨target, hends, .inr rfl⟩
    have hids : ∀ i ∈ [id], ¬EdgeUnreadable s i := by simpa using hid
    obtain ⟨es, hes, _, hv⟩ := hv.incidentEdges hids
    obtain ⟨fs, hfs, _, hw⟩ := hw.incidentEdges hids
    rw [hes] at hfs
    cases hfs
    apply Option.ext
    intro p
    have hp := (hv ⟨source, target, [label], p⟩).symm.trans (hw ⟨source, target, [label], p⟩)
    simpa [Edge.touches_iff, htouches] using hp

namespace View.AgreeIn

theorem eq (h : v.AgreeIn s w) (hs : Legible s) : v = w := by
  ext1
  · funext id
    exact h.node (hs.node id)
  · funext source target label
    exact h.relation (.inl (hs.edge source)) label

/-- Of views that agree, a store shows both. -/
theorem shows (h : v.AgreeIn s w) (hw : Shows s w) : Shows s v where
  stored id := (h.stored id).trans (hw.stored id)
  readNode hid := by rw [hw.readNode hid, h.node hid]
  readNode_error := hw.readNode_error
  incidentEdges {ids} hids := by
    obtain ⟨es, hes, hnodup, hmem⟩ := hw.incidentEdges hids
    refine ⟨es, hes, hnodup, fun e => (hmem e).trans (and_congr_right ?_)⟩
    rintro ⟨id, hid, htouches⟩
    have hends : ¬EdgeUnreadable s e.source ∨ ¬EdgeUnreadable s e.target := by
      rcases Edge.touches_iff.1 htouches with rfl | rfl
      · exact .inl (hids _ hid)
      · exact .inr (hids _ hid)
    simp only [h.relation hends]
  incidentEdges_error := hw.incidentEdges_error

variable {settle : Json → Json} {g : Graph}
  (hnode : ∀ id, NodeUnreadable s id → NodeUnreadable t id)
  (hedge : ∀ id, EdgeUnreadable s id → EdgeUnreadable t id)

include hnode hedge

/-- Views that agree still do with the same nodes laid over them. -/
theorem withNodes (h : v.AgreeIn s w) :
    (v.withNodes settle g).AgreeIn t (w.withNodes settle g) where
  stored id := by
    show (ite _ _ _ : Option Node).isSome = (ite _ _ _ : Option Node).isSome
    split
    · exact h.stored id
    · rfl
  node {id} hid := by
    have hsame := h.node (mt (hnode id) hid)
    simp only [View.withNodes, View.labels, View.properties, hsame]
  relation hends := h.relation (hends.imp (mt (hedge _)) (mt (hedge _)))

/-- Views that agree still do with the same edges laid over them. -/
theorem withEdges (h : v.AgreeIn s w) :
    (v.withEdges settle g).AgreeIn t (w.withEdges settle g) where
  stored := h.stored
  node hid := h.node (mt (hnode _) hid)
  relation {source target} hends label := by
    have hsame := h.relation (hends.imp (mt (hedge _)) (mt (hedge _))) label
    have hjoins : v.joins source target = w.joins source target := by
      rw [View.joins, View.joins, h.stored, h.stored]
    simp only [View.withEdges, hsame, hjoins]

end View.AgreeIn

end

section

variable {σ : Type} [LawfulBackend σ] {s : σ} {g : Graph}

/-- A store shows the view of its contents. -/
theorem Valid.shows (hs : Valid s) : Shows s (contents s).view := by
  classical
  constructor
  case stored => exact fun id => hs.wellFormed.isSome_read? id
  case readNode =>
    intro id hid
    rw [Store.readNode, hs.readNodes_eq_ite, if_neg (by simpa using hid)]
    show Except.ok (Graph.mk ([id].filterMap (contents s).read?) []) =
      Except.ok ⟨((contents s).read? id).toList, []⟩
    cases hread : (contents s).read? id with
    | none => rw [List.filterMap_cons_none hread]; rfl
    | some n => rw [List.filterMap_cons_some hread]; rfl
  case readNode_error =>
    intro id hid
    rw [Store.readNode, hs.readNodes_eq_ite, if_pos ⟨id, List.mem_singleton_self id, hid⟩]
    rfl
  case incidentEdges =>
    intro ids hids
    obtain ⟨es, hes, hnodup, hmem⟩ := hs.exists_incidentEdges_eq_ite ids
    rw [if_neg fun ⟨id, hid, hbad⟩ => hids id hid hbad] at hes
    refine ⟨es, hes, hnodup, fun e => ?_⟩
    rw [hmem, and_comm]
    exact and_congr_right fun _ => hs.wellFormed.holdsEdge_iff_relation?
  case incidentEdges_error =>
    intro ids hids
    obtain ⟨es, hes, _⟩ := hs.exists_incidentEdges_eq_ite ids
    rwa [if_pos hids] at hes

/-- The edge is written, and with something that cannot be read. -/
def Edge.WritesIllegible (s : σ) (e : Edge) : Prop :=
  e.labels ≠ [] ∧ Backend.hasNode s e.source = true ∧ Backend.hasNode s e.target = true ∧
    Backend.legible σ e.properties.encode = false

/-- The writes of a graph act on what a store shows, where each write settles values.  What could not
be read before still cannot, and neither can what is brought and cannot be read. -/
structure ShowsWrites (settle : Json → Json) (s : σ) (g : Graph) : Prop where
  exists_shows : ∃ v, Shows s v
  agreeIn {v w : View} : Shows s v → Shows s w → v.AgreeIn s w
  nodes {v : View} {r : WriteCount × σ} : Shows s v → Store.upsertNodes s g = .ok r →
    Shows r.2 (v.withNodes settle g)
  nodeUnreadable_iff {r : WriteCount × σ} (id : String) : Store.upsertNodes s g = .ok r →
    (NodeUnreadable r.2 id ↔ NodeUnreadable s id ∨
      ∃ n ∈ g.nodesAt id, Backend.legible σ n.properties.encode = false) ∧
    (EdgeUnreadable r.2 id ↔ EdgeUnreadable s id)
  edges {v : View} {r : WriteCount × σ} : Shows s v → Store.upsertEdges s g = .ok r →
    Shows r.2 (v.withEdges settle g)
  edgeUnreadable_iff {r : WriteCount × σ} (id : String) : Store.upsertEdges s g = .ok r →
    (NodeUnreadable r.2 id ↔ NodeUnreadable s id) ∧
    (EdgeUnreadable r.2 id ↔ EdgeUnreadable s id ∨
      ∃ e ∈ g.edges, e.touches id = true ∧ e.WritesIllegible s)

open LawfulBackend (settle)

/-- Of the nodes that are written under an id, one brings what cannot be read exactly if one of the
graph does. -/
theorem Graph.exists_storedNodes_iff (g : Graph) (id : String) :
    (∃ n ∈ g.storedNodes, n.id = id ∧ Backend.legible σ n.properties = false) ↔
      ∃ n ∈ g.nodesAt id, Backend.legible σ n.properties.encode = false := by
  constructor
  · rintro ⟨m, hm, rfl, hnot⟩
    obtain ⟨n, hn, hne, rfl⟩ := mem_storedNodes.1 hm
    exact ⟨n, List.mem_filter.2 ⟨hn, by simpa using hne⟩, hnot⟩
  · rintro ⟨n, hn, hnot⟩
    obtain ⟨hn, hid⟩ := List.mem_filter.1 hn
    have hid : n.id = id ∧ n.id ≠ "" := by simpa using hid
    exact ⟨n.stored, mem_storedNodes.2 ⟨n, hn, hid.2, rfl⟩, hid.1, hnot⟩

/-- So it is with the relationships that are written at a node. -/
theorem Graph.exists_storedEdges_iff (s : σ) (g : Graph) (id : String) :
    (∃ e ∈ g.storedEdges, (contents s).joins e = true ∧ (e.source = id ∨ e.target = id) ∧
        Backend.legible σ e.properties = false) ↔
      ∃ e ∈ g.edges, e.touches id = true ∧ e.WritesIllegible s := by
  constructor
  · rintro ⟨f, hf, hjoins, hends, hnot⟩
    obtain ⟨e, he, hf⟩ := mem_storedEdges.1 hf
    obtain ⟨label, hlabel, rfl⟩ := List.mem_map.1 hf
    obtain ⟨source, target⟩ := Bool.and_eq_true_iff.1 hjoins
    exact ⟨e, he, Edge.touches_iff.2 hends, List.ne_nil_of_mem hlabel, source, target, hnot⟩
  · rintro ⟨e, he, htouches, hlabels, source, target, hnot⟩
    obtain ⟨label, hlabel⟩ := List.exists_mem_of_ne_nil _ hlabels
    exact ⟨_, mem_storedEdges.2 ⟨e, he, List.mem_map_of_mem hlabel⟩,
      Bool.and_eq_true_iff.2 ⟨source, target⟩, Edge.touches_iff.1 htouches, hnot⟩

theorem Valid.showsWrites (hs : Valid s) (hsettle : Json.Transparent (settle σ))
    (hg : g.AvoidsMarker) : ShowsWrites (settle σ) s g := by
  have hnodes {r : WriteCount × σ} (hok : Store.upsertNodes s g = .ok r) (id : String) :
      (NodeUnreadable r.2 id ↔ NodeUnreadable s id ∨
        ∃ n ∈ g.nodesAt id, Backend.legible σ n.properties.encode = false) ∧
      (EdgeUnreadable r.2 id ↔ EdgeUnreadable s id) := by
    obtain ⟨hwritable, hfree, hr⟩ := hs.of_upsertNodes_eq_ok hok
    rw [hr, hs.nodeUnreadable_putNodes_iff hwritable.wellFormed hfree,
      hs.edgeUnreadable_putNodes_iff hwritable.wellFormed, g.exists_storedNodes_iff]
    exact ⟨Iff.rfl, Iff.rfl⟩
  have hedges {r : WriteCount × σ} (hok : Store.upsertEdges s g = .ok r) (id : String) :
      (NodeUnreadable r.2 id ↔ NodeUnreadable s id) ∧
      (EdgeUnreadable r.2 id ↔ EdgeUnreadable s id ∨
        ∃ e ∈ g.edges, e.touches id = true ∧ e.WritesIllegible s) := by
    obtain ⟨hwritable, hfree, hr⟩ := hs.of_upsertEdges_eq_ok hok
    rw [hr, hs.nodeUnreadable_putEdges_iff hwritable.wellFormed,
      hs.edgeUnreadable_putEdges_iff hwritable.wellFormed hfree, g.exists_storedEdges_iff]
    exact ⟨Iff.rfl, Iff.rfl⟩
  constructor
  case exists_shows => exact ⟨_, hs.shows⟩
  case agreeIn => exact Shows.agreeIn
  case nodeUnreadable_iff => exact fun id hok => hnodes hok id
  case edgeUnreadable_iff => exact fun id hok => hedges hok id
  case nodes =>
    intro v r hv hok
    obtain ⟨hwritable, _, hr⟩ := hs.of_upsertNodes_eq_ok hok
    have hview : contents r.2 = (contents s).mergeNodes (settle σ) g.storedNodes := by
      rw [hr, hs.contents_putNodes hwritable.wellFormed]
    have hshows := (hs.upsertNodes hok).shows
    rw [hview, hg.view_mergeNodes hwritable hsettle isKept_settle hs.wellFormed] at hshows
    refine ((hv.agreeIn hs.shows).withNodes (fun id h => ?_) fun id h => ?_).shows hshows
    · exact (hnodes hok id).1.2 (.inl h)
    · exact (hnodes hok id).2.2 h
  case edges =>
    intro v r hv hok
    obtain ⟨hwritable, _, hr⟩ := hs.of_upsertEdges_eq_ok hok
    have hview : contents r.2 = (contents s).mergeEdges (settle σ) g.storedEdges := by
      rw [hr, hs.contents_putEdges hwritable.wellFormed]
    have hshows := (hs.upsertEdges hok).shows
    rw [hview, hg.view_mergeEdges hsettle hs.wellFormed] at hshows
    refine ((hv.agreeIn hs.shows).withEdges (fun id h => ?_) fun id h => ?_).shows hshows
    · exact (hedges hok id).1.2 h
    · exact (hedges hok id).2.2 (.inl h)

end

/-! ## Values that survive -/

/-- All values that are seen are read back as they were written. -/
structure View.Survives (v : View) : Prop where
  node {id : String} {n : Node} : v.node? id = some n → n.properties.All Json.Survives
  relation {source target label : String} {p : Properties} :
    v.relation? source target label = some p → p.All Json.Survives

namespace View.Survives

variable {v : View} {g : Graph}

theorem withNodes_reread (hv : v.Survives) (hg : g.Survives) :
    v.withNodes Json.reread g = v.withNodes id g := by
  ext1
  · funext i
    have hold : (v.properties i).All Json.Survives := by
      rw [View.properties]
      cases hn : v.node? i with
      | none => exact KeyMap.all_empty
      | some n => exact hv.node hn
    have hnew : ∀ q ∈ (g.nodesAt i).map Node.properties, q.All Json.Survives := by
      rw [List.forall_mem_map]
      exact fun n hn => hg.1 n (List.mem_filter.1 hn).1
    simp only [View.withNodes, Properties.laid_reread hold hnew]
  · rfl

theorem withEdges_reread (hv : v.Survives) (hg : g.Survives) :
    v.withEdges Json.reread g = v.withEdges id g := by
  ext1
  · rfl
  · funext source target label
    have hold : ((v.relation? source target label).getD .empty).All Json.Survives := by
      cases hp : v.relation? source target label with
      | none => exact KeyMap.all_empty
      | some p => exact hv.relation hp
    have hnew : ∀ q ∈ (g.edgesAt source target label).map Edge.properties,
        q.All Json.Survives := by
      rw [List.forall_mem_map]
      intro e he
      obtain ⟨r, hr, rfl⟩ := List.mem_map.1 he
      exact hg.2 r.1 (Graph.mem_edges_of_mem_relations (List.mem_filter.1 hr).1)
    simp only [View.withEdges, Properties.laid_reread hold hnew]

end View.Survives

/-- The writes of a graph that avoids the marker act on what a reachable store shows.  In memory
everything can be read, and values are laid over others as they are.  In tables all values are read
back each time, which makes no difference to those that survive. -/
theorem writes_show {s : AdjacencyStore} {t : TableStore} (hs : Reachable s) (ht : Reachable t)
    {g : Graph} (hg : g.AvoidsMarker) :
    ((∀ u : AdjacencyStore, Legible u) ∧ (∃! v, Shows s v) ∧ ShowsWrites id s g) ∧
    ShowsWrites Json.reread t g ∧
    ∀ v, Shows t v → v.Survives → g.Survives →
      v.withNodes Json.reread g = v.withNodes id g ∧
        v.withEdges Json.reread g = v.withEdges id g := by
  refine ⟨⟨legible_of_readsAll, ?_, hs.valid.showsWrites Json.transparent_id hg⟩,
    ht.valid.showsWrites Json.transparent_reread hg,
    fun _ _ hv hg => ⟨hv.withNodes_reread hg, hv.withEdges_reread hg⟩⟩
  exact ⟨_, hs.valid.shows, fun _ hv => (hv.agreeIn hs.valid.shows).eq (legible_of_readsAll s)⟩

/-- A dataset whose name is `null`, with an empty list under an empty key, and an edge with two
labels. -/
def Graph.relisted : Graph where
  nodes := [⟨"a", ["old data", "Dataset"], (KeyMap.empty.insert "" (.arr [])).insert "name" .null⟩]
  edges := [⟨"a", "f", ["distribution", "made of"], KeyMap.empty.insert "order" (.arr [])⟩]

/-- Over two datasets that share a file it is seen as it should be. -/
theorem writes_show_sharing :
    Reachable (sharing ["a", "b"] : AdjacencyStore) ∧ Reachable (sharing ["a", "b"] : TableStore) ∧
    Graph.relisted.AvoidsMarker ∧
    (∃! v, Shows (sharing ["a", "b"] : AdjacencyStore) v) ∧
    ShowsWrites id (sharing ["a", "b"] : AdjacencyStore) .relisted ∧
    ShowsWrites Json.reread (sharing ["a", "b"] : TableStore) .relisted := by
  have hg : Graph.relisted.AvoidsMarker := by
    constructor
    all_goals
      intro n hn key v hv
      obtain rfl := List.mem_singleton.1 hn
      simp only [KeyMap.get?_insert] at hv
      grind [KeyMap.get?, KeyMap.empty]
  have hmemory := reachable_sharing (σ := AdjacencyStore) ["a", "b"]
  have htables := reachable_sharing (σ := TableStore) ["a", "b"]
  obtain ⟨⟨_, hunique, hshows⟩, hshows', _⟩ := writes_show hmemory htables hg
  exact ⟨hmemory, htables, hg, hunique, hshows, hshows'⟩

/-- In tables a node may be seen to change a value that the graph does not mention. -/
theorem write_moves_double :
    Reachable restless ∧ (Graph.respelled "n" "n").AvoidsMarker ∧
    ∃ v r, Shows restless v ∧ Store.upsertNodes restless (.respelled "n" "n") = .ok r ∧
      ¬Shows r.2 (v.withNodes id (.respelled "n" "n")) := by
  have hreachable : Reachable restless := .perform .empty (.ingest .restless)
  have hg : (Graph.respelled "n" "n").AvoidsMarker := by
    constructor
    all_goals
      intro n hn key v hv
      obtain rfl := List.mem_singleton.1 hn
      cases hv
  have hwritable : (Graph.respelled "n" "n").WritableNodes := by decide
  have hlegible : (Graph.respelled "n" "n").IsLegible TableStore :=
    ⟨by decide +kernel, by decide +kernel⟩
  have hfree := legible_restless.not_nodesBlocked hreachable.valid hlegible.storedNodes
  refine ⟨hreachable, hg, _, _, hreachable.valid.shows,
    hreachable.valid.upsertNodes_eq hwritable hfree, ?_⟩
  intro hshows
  have hview := (hshows.agreeIn (hreachable.valid.putNodes hwritable.wellFormed).shows).eq
    (legible_restless.putNodes hreachable.valid hwritable.wellFormed hlegible.storedNodes)
  have hvalue := congrArg (fun v : View => (v.properties "n").get? "v") hview
  revert hvalue
  decide +kernel

end DatasetGraph
