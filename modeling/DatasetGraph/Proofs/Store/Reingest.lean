import DatasetGraph.Proofs.Store.Retry

/-!
# Taking a graph in again

A graph that is taken in a second time brings nothing new: its nodes are there with their labels,
and so are those of its relationships that join stored nodes.  What the second ingest reports is
therefore what the first one did, and it leaves every row and every place as it was.  All that it
can change is values, since it settles anew what it does not lay over.

So the store is the same after the second ingest exactly if the values settle that the graph leaves
in place, on nodes (`Contents.Settles`) and on relationships (`Contents.SettlesEdges`).  That is
always so in memory, but in tables there are doubles that never settle.

The second ingest has to read what the first has written, so in tables it is refused if that cannot
be read (`Graph.LegibleIn`).  `reingest_repeats` says all of this of any reachable store and any graph
that is taken in, whatever repeats or dangles in it.
-/

namespace DatasetGraph

/-! ## Values that settle on relationships -/

namespace Contents

/-- How many of the relationships have a key. -/
def relationRounds (es : List StoredEdge) (k : RelationKey) : Nat :=
  (es.filter fun e => e.key = k).length

/-- Every value that the relationships leave in place is the same after they are written twice as
after they are written once. -/
def SettlesEdges (settle : Json → Json) (c : Contents) (es : List StoredEdge) : Prop :=
  ∀ k key v, c.relationValue? k key = some v →
    (∀ e ∈ es, e.key = k → e.properties.get? key = none) →
    settle^[relationRounds es k] (settle^[relationRounds es k] v) = settle^[relationRounds es k] v

variable {settle : Json → Json} {c d : Contents} {es : List StoredEdge} {g : Graph}

theorem settlesEdges_iff : c.SettlesEdges settle es ↔
    ∀ k key, ((c.layEdges settle es).layEdges settle es).relationValue? k key =
      (c.layEdges settle es).relationValue? k key := by
  refine forall₂_congr fun k key => ?_
  rw [relationValue?_layEdges, relationValue?_layEdges, relationValuesOf,
    laidOver_filter_twice_iff]
  simp only [decide_eq_true_eq]
  rfl

theorem settlesEdges_id (c : Contents) (es : List StoredEdge) : c.SettlesEdges id es := by
  intro _ _ v _ _
  rw [Function.iterate_id]
  rfl

/-- Values of relationships that are read back from their text as they were written settle. -/
theorem Survives.settlesEdges (hc : c.Survives) (es : List StoredEdge) :
    c.SettlesEdges Json.reread es := by
  intro k key v hv _
  obtain ⟨p, hp, hv⟩ := Option.bind_eq_some_iff.1 hv
  have hsurvives : v.reread = v := (hc.edge hp key v hv).reread
  rw [Function.iterate_fixed hsurvives, Function.iterate_fixed hsurvives]

/-- It does not matter for settling that relationships are passed over, since the ends of those that
are there are stored. -/
theorem WellFormed.settlesEdges_filter_iff (hc : c.WellFormed)
    (hstored : ∀ id, (c.node? id).isSome = true → (d.node? id).isSome = true) :
    c.SettlesEdges settle (es.filter d.joins) ↔ c.SettlesEdges settle es := by
  refine forall₄_congr fun k key v hv => ?_
  obtain ⟨p, hp, _⟩ := Option.bind_eq_some_iff.1 hv
  have hends : d.joins (k.withProperties .empty) = true :=
    Bool.and_eq_true_iff.2 ⟨hstored _ (hc.source_stored hp), hstored _ (hc.target_stored hp)⟩
  have hjoins : ∀ e : StoredEdge, e.key = k → d.joins e = true :=
    fun e he => (d.joins_congr_key e (k.withProperties .empty) he).trans hends
  have hrounds : relationRounds (es.filter d.joins) k = relationRounds es k := by
    rw [relationRounds, relationRounds, filter_key_joins, if_pos hends]
  rw [hrounds, List.forall_mem_filter]
  exact imp_congr_left (forall₂_congr fun e _ =>
    ⟨fun h hk => h (hjoins e hk) hk, fun h _ hk => h hk⟩)

/-! ## Graphs that are covered -/

/-- An ingest of a graph that is covered changes nothing but values. -/
theorem Covers.upToValues_ingest (h : c.Covers g) : (c.ingest settle g).UpToValues c := by
  have hnode : ∀ id, ((c.ingest settle g).node? id).isSome = (c.node? id).isSome := by
    intro id
    rw [ingest, node?_mergeEdges, h.isSome_node?_mergeNodes]
  constructor
  case node => exact hnode
  case labels =>
    intro id
    rw [labels, ingest, node?_mergeEdges, ← labels, labels_mergeNodes]
    apply addNew_of_subset
    intro l hl
    obtain ⟨n, hn, hl⟩ := List.mem_flatMap.1 hl
    obtain ⟨hn, hid⟩ := List.mem_filter.1 hn
    exact of_decide_eq_true hid ▸ (h.node hn).2 l hl
  case edge =>
    intro k
    rw [Bool.eq_iff_iff, isSome_edge?_ingest, hnode, hnode]
    apply or_iff_left_of_imp
    rintro ⟨⟨e, he, rfl⟩, source, target⟩
    exact h.edge he (Bool.and_eq_true_iff.2 ⟨source, target⟩)

theorem value?_ingest (c : Contents) (g : Graph) (id key : String) :
    (c.ingest settle g).value? id key = (c.mergeNodes settle g.storedNodes).value? id key := by
  rw [value?, ingest, node?_mergeEdges, value?]

theorem relationValue?_ingest (c : Contents) (g : Graph) (k : RelationKey) (key : String) :
    (c.ingest settle g).relationValue? k key = (c.layEdges settle
      (g.storedEdges.filter (c.mergeNodes settle g.storedNodes).joins)).relationValue? k key := by
  show ((c.mergeNodes settle g.storedNodes).layEdges settle _).relationValue? k key = _
  rw [relationValue?_layEdges, relationValue?_layEdges, relationValue?, edge?_mergeNodes,
    ← relationValue?]

/-- The second ingest finds the values that settle as it would leave them. -/
theorem WellFormed.ingest_twice_iff (hc : c.WellFormed) (hd : (c.ingest settle g).WellFormed)
    (he : ((c.ingest settle g).ingest settle g).WellFormed) :
    (c.ingest settle g).ingest settle g = c.ingest settle g ↔
      c.Settles settle g.storedNodes ∧ c.SettlesEdges settle g.storedEdges := by
  have hcovers : (c.ingest settle g).Covers g := c.covers_ingest g
  have hjoins : ((c.ingest settle g).mergeNodes settle g.storedNodes).joins =
      (c.mergeNodes settle g.storedNodes).joins := by
    apply joins_congr
    intro id
    rw [hcovers.isSome_node?_mergeNodes, ingest, node?_mergeEdges]
  rw [hcovers.upToValues_ingest.eq_iff he hd]
  apply and_congr
  · rw [settles_iff]
    refine forall₂_congr fun id key => ?_
    rw [value?_ingest, value?_mergeNodes, value?_ingest, ← value?_mergeNodes]
  · rw [← hc.settlesEdges_filter_iff (d := c.mergeNodes settle g.storedNodes), settlesEdges_iff]
    · refine forall₂_congr fun k key => ?_
      rw [relationValue?_ingest, hjoins, relationValue?_layEdges, relationValue?_ingest,
        ← relationValue?_layEdges]
    · intro id hid
      rw [isSome_node?_mergeNodes]
      exact .inl hid

end Contents

/-! ## What an ingest reports -/

/-- Each node of the graph and each label of its edges is counted once, and an edge without labels
as if it had one. -/
structure IngestStatus.Accounts (status : IngestStatus) (g : Graph) : Prop where
  nodes : status.nodes.written + status.nodes.skipped = g.nodes.length
  edges : status.edges.written + status.edges.skipped =
    (g.edges.map fun e => max 1 e.labels.length).sum

namespace Graph

/-- What is reported of a graph of whose relationships some join stored nodes. -/
def ingestStatus (g : Graph) (joins : StoredEdge → Bool) : IngestStatus where
  nodes := ⟨g.storedNodes.length, (g.nodes.filter fun n => n.id = "").length⟩
  edges := ⟨(g.storedEdges.filter joins).length, (g.storedEdges.filter fun e => !joins e).length +
    (g.edges.filter fun e => e.labels.isEmpty).length⟩

/-- An edge has as many relationships as labels, and one without labels is counted all the same. -/
theorem sum_max_one_labels (g : Graph) : (g.edges.map fun e => max 1 e.labels.length).sum =
    g.storedEdges.length + (g.edges.filter fun e => e.labels.isEmpty).length := by
  rw [length_storedEdges]
  induction g.edges with
  | nil => rfl
  | cons e es ih =>
    rw [List.map_cons, List.map_cons, List.sum_cons, List.sum_cons, ih, List.filter_cons]
    cases hlabels : e.labels with
    | nil =>
      rw [if_pos List.isEmpty_nil, List.length_cons, List.length_nil]
      omega
    | cons l ls =>
      rw [if_neg (by simp), List.length_cons]
      omega

theorem accounts_ingestStatus (g : Graph) (joins : StoredEdge → Bool) :
    (g.ingestStatus joins).Accounts g where
  nodes := by
    rw [ingestStatus, storedNodes, List.length_map,
      List.length_eq_length_filter_add (l := g.nodes) fun n => n.id ≠ ""]
    simp
  edges := by
    rw [sum_max_one_labels, List.length_eq_length_filter_add (l := g.storedEdges) joins,
      ingestStatus, Nat.add_assoc]

end Graph

section

variable {σ : Type} {s : σ} {g : Graph}

open LawfulBackend (settle)
open LaidOutBackend (layout eq_of_layout_eq)

theorem Valid.ingest_fst_eq [LawfulBackend σ] (hs : Valid s) (hg : g.IsWritable)
    (hfree : ¬IngestBlocked s g) : (Store.ingest s g).1 =
      .ok (g.ingestStatus ((contents s).mergeNodes (settle σ) g.storedNodes).joins) := by
  obtain ⟨hnodes, hedges⟩ := not_or.1 hfree
  have ht := hs.putNodes hg.nodes.wellFormed
  rw [Store.ingest, hs.upsertNodes_eq hg.nodes hnodes]
  dsimp only
  rw [ht.upsertEdges_eq hg.edges hedges, ht.putEdges_eq hg.edges.wellFormed,
    hs.contents_putNodes hg.nodes.wellFormed]
  rfl

/-! ## The second time -/

/-- What an ingest writes of a graph can be read again. -/
structure Graph.LegibleIn [ListedBackend σ] (g : Graph) (s : σ) : Prop where
  node {n : StoredNode} : n ∈ g.storedNodes → Backend.legible σ n.properties = true
  edge {e : StoredEdge} : e ∈ g.storedEdges → (contents s).joins e = true →
    Backend.legible σ e.properties = true

theorem Graph.legibleIn_of_readsAll [ListedBackend σ] [Backend.ReadsAll σ] (g : Graph) (s : σ) :
    g.LegibleIn s :=
  ⟨fun _ => Backend.ReadsAll.legible_eq _, fun _ _ => Backend.ReadsAll.legible_eq _⟩

theorem Graph.IsLegible.legibleIn [LawfulBackend σ] (hg : g.IsLegible σ) (s : σ) :
    g.LegibleIn s :=
  ⟨fun hn => hg.storedNodes _ hn, fun he _ => hg.storedEdges _ he⟩

/-- After a graph was taken in, it is taken in again exactly if what was written of it can be read. -/
theorem Valid.ingestBlocked_putGraph_iff [LawfulBackend σ] (hs : Valid s) (hg : g.IsWritable)
    (hfree : ¬IngestBlocked s g) :
    IngestBlocked (Backend.putGraph s g) g ↔ ¬g.LegibleIn (Backend.putGraph s g) := by
  have hfirst := hs.putNodes hg.nodes.wellFormed
  have ht := hs.putGraph hg
  have hct : contents (Backend.putGraph s g) =
      (contents (Backend.putNodes s g.storedNodes).2).mergeEdges (settle σ) g.storedEdges :=
    hfirst.contents_putEdges hg.edges.wellFormed
  have hjoins : (contents (Backend.putGraph s g)).joins =
      (contents (Backend.putNodes s g.storedNodes).2).joins := by
    apply Contents.joins_congr
    intro id
    rw [hct, Contents.node?_mergeEdges]
  have hnodes : NodesBlocked (Backend.putGraph s g) g.storedNodes ↔
      ∃ n ∈ g.storedNodes, Backend.legible σ n.properties = false := by
    rw [← hs.nodesBlocked_again_iff hg.nodes.wellFormed (not_or.1 hfree).1]
    apply Valid.nodesBlocked_congr
    rw [hct, Contents.node?_mergeEdges]
  have hedges :
      EdgesBlocked (Backend.putNodes (Backend.putGraph s g) g.storedNodes).2 g.storedEdges ↔
        ∃ e ∈ g.storedEdges.filter (contents (Backend.putGraph s g)).joins,
          Backend.legible σ e.properties = false := by
    rw [hjoins, ← hfirst.edgesBlocked_again_iff hg.edges.wellFormed (not_or.1 hfree).2]
    have hcovers : (contents (Backend.putGraph s g)).Covers g := by
      rw [hs.contents_putGraph hg]
      exact Contents.covers_ingest _ g
    have hagain := ht.contents_putNodes hg.nodes.wellFormed
    apply (ht.putNodes hg.nodes.wellFormed).edgesBlocked_congr ht
    · rw [hagain]
      exact fun e _ => congrFun (Contents.joins_congr hcovers.isSome_node?_mergeNodes) e
    · rw [hagain, Contents.edge?_mergeNodes]
  rw [IngestBlocked, hnodes, hedges]
  constructor
  · rintro (⟨n, hn, hnot⟩ | ⟨e, he, hnot⟩) hlegible
    · rw [hlegible.node hn] at hnot
      cases hnot
    · obtain ⟨he, hends⟩ := List.mem_filter.1 he
      rw [hlegible.edge he hends] at hnot
      cases hnot
  · intro hnot
    by_contra hall
    obtain ⟨hnodes, hedges⟩ := not_or.1 hall
    refine hnot ⟨fun hn => ?_, fun he hends => ?_⟩
    · exact Bool.of_not_eq_false fun hbad => hnodes ⟨_, hn, hbad⟩
    · exact Bool.of_not_eq_false fun hbad => hedges ⟨_, List.mem_filter.2 ⟨he, hends⟩, hbad⟩

variable [LaidOutBackend σ]

/-- What another ingest of a graph does after one that led from `s` to `t`. -/
structure Repeats (s : σ) (g : Graph) (status : IngestStatus) (t : σ) : Prop where
  accounts : status.Accounts g
  error_eq : ¬g.LegibleIn t → (Store.ingest t g).1 = .error .unreadable
  status_eq : g.LegibleIn t → (Store.ingest t g).1 = .ok status
  layout_eq : g.LegibleIn t → layout (Store.ingest t g).2 = layout t
  eq_iff : g.LegibleIn t → ((Store.ingest t g).2 = t ↔
    (contents s).Settles (settle σ) g.storedNodes ∧
      (contents s).SettlesEdges (settle σ) g.storedEdges)

theorem Valid.repeats (hs : Valid s) {status : IngestStatus} {t : σ}
    (h : Store.ingest s g = (.ok status, t)) : Repeats s g status t := by
  obtain ⟨hg, hfree, rfl⟩ := hs.of_ingest_eq_ok h
  have ht := hs.putGraph hg
  have hct := hs.contents_putGraph hg
  have hblocked := hs.ingestBlocked_putGraph_iff hg hfree
  have hcovers : (contents (Backend.putGraph s g)).Covers g := by
    rw [hct]
    exact Contents.covers_ingest _ g
  have hstatus :
      status = g.ingestStatus ((contents s).mergeNodes (settle σ) g.storedNodes).joins := by
    have hfirst := hs.ingest_fst_eq hg hfree
    rw [h] at hfirst
    exact Except.ok.inj hfirst
  have hagain : g.LegibleIn (Backend.putGraph s g) → (Store.ingest (Backend.putGraph s g) g).2 =
      Backend.putGraph (Backend.putGraph s g) g := by
    intro hlegible
    obtain ⟨_, hok⟩ := ht.ingest_eq_ok hg fun hb => hblocked.1 hb hlegible
    rw [hok]
  constructor
  case accounts =>
    rw [hstatus]
    exact g.accounts_ingestStatus _
  case error_eq =>
    intro hnot
    rcases ht.ingest_of_blocked hg (hblocked.2 hnot) with herror | herror
    · rw [herror]
    · rw [herror]
  case status_eq =>
    intro hlegible
    rw [ht.ingest_fst_eq hg fun hb => hblocked.1 hb hlegible, hstatus]
    apply congrArg fun joins => Except.ok (g.ingestStatus joins)
    apply Contents.joins_congr
    intro id
    rw [hcovers.isSome_node?_mergeNodes, hct, Contents.ingest, Contents.node?_mergeEdges]
  case layout_eq =>
    intro hlegible
    rw [hagain hlegible, ht.layout_putGraph hg hcovers]
  case eq_iff =>
    intro hlegible
    have hu := ht.putGraph hg
    have hcu := ht.contents_putGraph hg
    rw [hct] at hcu
    -- With one layout, the stores are the same if the contents are.
    have hcontents : Backend.putGraph (Backend.putGraph s g) g = Backend.putGraph s g ↔
        contents (Backend.putGraph (Backend.putGraph s g) g) = contents (Backend.putGraph s g) :=
      ⟨congrArg contents, eq_of_layout_eq hu.sound ht.sound (ht.layout_putGraph hg hcovers)⟩
    rw [hagain hlegible, hcontents, hcu, hct]
    exact hs.wellFormed.ingest_twice_iff (hct ▸ ht.wellFormed) (hcu ▸ hu.wellFormed)

end

/-- A graph that was taken in is taken in again with the same report, which accounts for all of it.
In memory this leaves the store as it is.  In tables it is refused if what was written of the graph
cannot be read; else it leaves the ids, labels and keys in their order, and the store as it is exactly
if the values settle. -/
theorem reingest_repeats {s : AdjacencyStore} {t : TableStore} (hs : Reachable s)
    (ht : Reachable t) (g : Graph) :
    (∀ status u, Store.ingest s g = (.ok status, u) →
      status.Accounts g ∧ Store.ingest u g = (.ok status, u)) ∧
    ∀ status u, Store.ingest t g = (.ok status, u) →
      status.Accounts g ∧
      (¬g.LegibleIn u → (Store.ingest u g).1 = .error .unreadable) ∧
      (g.LegibleIn u → (Store.ingest u g).1 = .ok status ∧
        (Store.ingest u g).2.layout = u.layout ∧
        ((Store.ingest u g).2 = u ↔ (contents t).Settles Json.reread g.storedNodes ∧
          (contents t).SettlesEdges Json.reread g.storedEdges)) := by
  constructor
  · intro status u h
    have hrepeats := hs.valid.repeats h
    have hlegible := g.legibleIn_of_readsAll u
    have hsame := (hrepeats.eq_iff hlegible).2
      ⟨Contents.settles_id _ _, Contents.settlesEdges_id _ _⟩
    exact ⟨hrepeats.accounts, Prod.ext (hrepeats.status_eq hlegible) hsame⟩
  · intro status u h
    obtain ⟨haccounts, herror, hstatus, hlayout, hiff⟩ := ht.valid.repeats h
    exact ⟨haccounts, herror, fun hlegible =>
      ⟨hstatus hlegible, hlayout hlegible, hiff hlegible⟩⟩

/-- A graph with a node given twice, one without an id, a dangling edge and one without labels. -/
def Graph.tangled : Graph where
  nodes := [⟨"a", ["Dataset"], KeyMap.empty.insert "v" (.str "old")⟩, ⟨"", ["Dataset"], .empty⟩,
    ⟨"a", ["Dataset", "Data"], (KeyMap.empty.insert "v" (.str "new")).insert "w" .null⟩]
  edges := [⟨"a", "f", ["distribution", "about"], .empty⟩, ⟨"a", "f", ["about"], .empty⟩,
    .plain "a" "nowhere" "about", ⟨"a", "a", [], .empty⟩]

/-- It is taken in twice besides datasets that share a file, and the second time changes nothing. -/
theorem reingest_repeats_tangled :
    Reachable (sharing ["a", "b"] : AdjacencyStore) ∧ Reachable (sharing ["a", "b"] : TableStore) ∧
    (∃ status u, Store.ingest (sharing ["a", "b"] : AdjacencyStore) .tangled = (.ok status, u) ∧
      status.Accounts .tangled ∧ Store.ingest u .tangled = (.ok status, u)) ∧
    ∃ status u, Store.ingest (sharing ["a", "b"] : TableStore) .tangled = (.ok status, u) ∧
      status.Accounts .tangled ∧ Store.ingest u .tangled = (.ok status, u) := by
  have hmemory := reachable_sharing (σ := AdjacencyStore) ["a", "b"]
  have htables := reachable_sharing (σ := TableStore) ["a", "b"]
  have hg : Graph.tangled.IsWritable := Graph.WritableNodes.isWritable (by decide) (by decide)
  have hlegible : Graph.tangled.IsLegible TableStore := ⟨by decide +kernel, by decide +kernel⟩
  obtain ⟨status, hstatus⟩ := hmemory.valid.ingest_eq_ok hg (not_ingestBlocked _ _)
  obtain ⟨status', hstatus'⟩ := htables.valid.ingest_eq_ok hg
    ((legible_sharing ["a", "b"]).not_ingestBlocked htables.valid hg.nodes hlegible)
  obtain ⟨hrepeats, hrepeats'⟩ := reingest_repeats hmemory htables .tangled
  have hsurvives := survives_contents_sharing ["a", "b"]
  obtain ⟨haccounts, _, hagain⟩ := hrepeats' status' _ hstatus'
  obtain ⟨hsame, _, hiff⟩ := hagain (hlegible.legibleIn _)
  exact ⟨hmemory, htables, ⟨status, _, hstatus, hrepeats status _ hstatus⟩,
    ⟨status', _, hstatus', haccounts,
      Prod.ext hsame (hiff.2 ⟨hsurvives.settles _, hsurvives.settlesEdges _⟩)⟩⟩

/-- In tables a second ingest may change a value: the double is read back once more. -/
theorem reingest_moves_double :
    Reachable restless ∧
    (∃ status, (Store.ingest restless (.respelled "n" "n")).1 = .ok status) ∧
    (Store.ingest (Store.ingest restless (.respelled "n" "n")).2 (.respelled "n" "n")).2 ≠
      (Store.ingest restless (.respelled "n" "n")).2 := by
  refine ⟨.perform .empty (.ingest .restless), ?_, ?_⟩
  · have hok : (Store.ingest restless (.respelled "n" "n")).1.isOk = true := by decide +kernel
    cases h : (Store.ingest restless (.respelled "n" "n")).1 with
    | ok status => exact ⟨status, rfl⟩
    | error e =>
      rw [h] at hok
      cases hok
  · decide +kernel

end DatasetGraph
