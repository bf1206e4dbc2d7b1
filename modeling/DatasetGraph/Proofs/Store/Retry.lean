import DatasetGraph.Proofs.Store.Agreement
import DatasetGraph.Proofs.Store.Failure
import DatasetGraph.Proofs.Store.Layout
import DatasetGraph.Proofs.Store.Values

/-!
# Trying a failed ingest again

An ingest of which only the edges fail leaves the nodes written, and whoever tries again writes them
a second time.  That does no harm if the second time changes nothing, which is a matter of the values
that stay: each write of a node settles all values of it anew, and it need not find a settled value
settled.

So the store is the same with the failed ingest as without it exactly if every value that the nodes
leave in place *settles* (`Contents.Settles`).  In memory a value is kept as it is, and every value
settles.  In tables a value is read back from its text, and there are doubles that are never done
settling: the text of one is read as its neighbour, and the text of the neighbour as the first.

The second writing of the nodes has to read what the first has written.  In tables it is refused if
the nodes bring what cannot be read, although the graph itself could be taken in
(`Valid.ingestBlocked_retry_iff`).
-/

namespace DatasetGraph

/-! ## Values that settle -/

namespace Contents

/-- How many of the nodes have an id. -/
def rounds (ns : List StoredNode) (id : String) : Nat := (ns.filter fun n => n.id = id).length

/-- Every value that the nodes leave in place is the same after they are written twice as after they
are written once. -/
def Settles (settle : Json → Json) (c : Contents) (ns : List StoredNode) : Prop :=
  ∀ id key v, c.value? id key = some v →
    (∀ n ∈ ns, n.id = id → n.properties.get? key = none) →
    settle^[rounds ns id] (settle^[rounds ns id] v) = settle^[rounds ns id] v

variable {settle : Json → Json} {c : Contents}

theorem settles_iff {ns : List StoredNode} : c.Settles settle ns ↔
    ∀ id key, ((c.mergeNodes settle ns).mergeNodes settle ns).value? id key =
      (c.mergeNodes settle ns).value? id key := by
  refine forall₂_congr fun id key => ?_
  rw [value?_mergeNodes, value?_mergeNodes, valuesOf, laidOver_filter_twice_iff]
  simp only [decide_eq_true_eq]
  rfl

theorem settles_id (c : Contents) (ns : List StoredNode) : c.Settles id ns := by
  intro _ _ v _ _
  rw [Function.iterate_id]
  rfl

/-- Values that are read back from their text as they were written settle. -/
theorem Survives.settles (hc : c.Survives) (ns : List StoredNode) : c.Settles Json.reread ns := by
  intro id key v hv _
  obtain ⟨n, hn, hv⟩ := Option.bind_eq_some_iff.1 hv
  have hsurvives : v.reread = v := (hc.node hn key v hv).reread
  rw [Function.iterate_fixed hsurvives, Function.iterate_fixed hsurvives]

end Contents

theorem Graph.WritableNodes.congr {g g' : Graph} (hg : g.WritableNodes) (h : g'.nodes = g.nodes) :
    g'.WritableNodes := by
  rwa [WritableNodes, h]

/-! ## Nodes written twice -/

section

variable {σ : Type} [LaidOutBackend σ] {s : σ}

open ListedBackend (allEdges)
open LawfulBackend (settle)

/-- If the values settle, nodes that are written a second time leave the store as it is. -/
theorem Valid.mergeNodes_twice (hs : Valid s) {ns : List StoredNode} (hns : ∀ n ∈ ns, n.WellFormed)
    (h : (contents s).Settles (settle σ) ns) :
    (Backend.putNodes (Backend.putNodes s ns).2 ns).2 = (Backend.putNodes s ns).2 := by
  have ht := hs.putNodes hns
  have hu := ht.putNodes hns
  have hct := hs.contents_putNodes hns
  have hcu := ht.contents_putNodes hns
  apply ht.putNodes_eq_self hns
  apply Contents.ext
  · funext id
    apply hu.wellFormed.node?_eq ht.wellFormed
    · rw [Bool.eq_iff_iff, hcu, Contents.isSome_node?_mergeNodes]
      apply or_iff_left_of_imp
      intro hid
      rw [hct, Contents.isSome_node?_mergeNodes]
      exact .inr hid
    · rw [hcu, Contents.labels_mergeNodes]
      apply addNew_of_subset
      intro l hl
      rw [hct, Contents.labels_mergeNodes, mem_addNew]
      exact .inr hl
    · intro key
      rw [hcu, hct, Contents.settles_iff.1 h]
  · rw [hcu, Contents.edge?_mergeNodes]

/-! ## Trying again -/

/-- What a graph leaves of the nodes. -/
theorem Valid.value?_putGraph (hs : Valid s) {g : Graph} (hg : g.IsWritable) (id key : String) :
    (contents (Backend.putGraph s g)).value? id key =
      ((contents s).mergeNodes (settle σ) g.storedNodes).value? id key := by
  rw [hs.contents_putGraph hg, Contents.value?, Contents.value?, Contents.ingest,
    Contents.node?_mergeEdges]

section

variable {g g' : Graph} (hs : Valid s) (hg : g.WritableNodes) (hnodes : g'.nodes = g.nodes)
  (hg' : g'.WritableEdges)

include hs hg hnodes

/-- Over its own nodes, a graph is blocked exactly if its nodes bring what cannot be read or it was
blocked without them. -/
theorem Valid.ingestBlocked_retry_iff (hfree : ¬NodesBlocked s g.storedNodes) :
    IngestBlocked (Backend.putNodes s g.storedNodes).2 g' ↔
      (∃ n ∈ g.storedNodes, Backend.legible σ n.properties = false) ∨ IngestBlocked s g' := by
  have hsame : g'.storedNodes = g.storedNodes := by
    rw [Graph.storedNodes, hnodes, Graph.storedNodes]
  have ht := hs.putNodes hg.wellFormed
  have hedges : EdgesBlocked (Backend.putNodes (Backend.putNodes s g.storedNodes).2 g.storedNodes).2
      g'.storedEdges ↔ EdgesBlocked (Backend.putNodes s g.storedNodes).2 g'.storedEdges := by
    apply (ht.putNodes hg.wellFormed).edgesBlocked_congr ht
    · -- The nodes are stored already.
      intro e _
      have hstored : ∀ id, ((contents (Backend.putNodes (Backend.putNodes s g.storedNodes).2
          g.storedNodes).2).node? id).isSome =
            ((contents (Backend.putNodes s g.storedNodes).2).node? id).isSome := by
        intro id
        rw [Bool.eq_iff_iff, ht.contents_putNodes hg.wellFormed, Contents.isSome_node?_mergeNodes]
        apply or_iff_left_of_imp
        intro hid
        rw [hs.contents_putNodes hg.wellFormed, Contents.isSome_node?_mergeNodes]
        exact .inr hid
      exact congrFun (Contents.joins_congr hstored) e
    · rw [ht.contents_putNodes hg.wellFormed, Contents.edge?_mergeNodes]
  rw [IngestBlocked, IngestBlocked, hsame, hs.nodesBlocked_again_iff hg.wellFormed hfree, hedges,
    or_iff_right hfree]

include hg'

/-- Over its own nodes, a graph that is not blocked leaves the same as without them exactly if the
values settle. -/
theorem Valid.putGraph_retry_iff : Backend.putGraph (Backend.putNodes s g.storedNodes).2 g' =
    Backend.putGraph s g' ↔ (contents s).Settles (settle σ) g.storedNodes := by
  have hsame : g'.storedNodes = g.storedNodes := by
    rw [Graph.storedNodes, hnodes, Graph.storedNodes]
  have hw := (hg.congr hnodes).isWritable hg'
  constructor
  · intro h
    rw [Contents.settles_iff]
    intro id key
    have hsecond := (hs.putNodes hg.wellFormed).value?_putGraph hw id key
    rw [h, hs.value?_putGraph hw, hsame, hs.contents_putNodes hg.wellFormed] at hsecond
    exact hsecond.symm
  · intro h
    rw [Backend.putGraph, Backend.putGraph, hsame, hs.mergeNodes_twice hg.wellFormed h]

/-- After an ingest that failed after its nodes, another ingest of the nodes is accepted exactly if
they bring nothing that cannot be read and it would have been accepted without the first. -/
theorem Valid.accepts_retry_iff (hfree : ¬NodesBlocked s g.storedNodes)
    (hfails : ∃ e, (Store.ingest s g).1 = .error e) :
    (∃ status, (Store.ingest (Store.ingest s g).2 g').1 = .ok status) ↔
      (∀ n ∈ g.storedNodes, Backend.legible σ n.properties = true) ∧ ¬IngestBlocked s g' := by
  have hw := (hg.congr hnodes).isWritable hg'
  have ht := hs.putNodes hg.wellFormed
  have hblocked := hs.ingestBlocked_retry_iff hg hnodes hfree
  have hlegible : (∀ n ∈ g.storedNodes, Backend.legible σ n.properties = true) ↔
      ¬∃ n ∈ g.storedNodes, Backend.legible σ n.properties = false := by
    simp
  rw [hs.snd_ingest_of_fails hg hfree hfails, hlegible, ← not_or, ← hblocked]
  constructor
  · rintro ⟨status, hok⟩ hbad
    obtain ⟨e, he⟩ := ht.ingest_fails_iff.2 (.inr (.inr hbad))
    rw [he] at hok
    cases hok
  · intro hok
    obtain ⟨status, h⟩ := ht.ingest_eq_ok hw hok
    exact ⟨status, by rw [h]⟩

/-- If it is accepted, it leaves the same as without the first exactly if the values settle. -/
theorem Valid.retry_iff (hfree : ¬NodesBlocked s g.storedNodes)
    (hfails : ∃ e, (Store.ingest s g).1 = .error e)
    (haccepts : ∃ status, (Store.ingest (Store.ingest s g).2 g').1 = .ok status) :
    (Store.ingest (Store.ingest s g).2 g').2 = (Store.ingest s g').2 ↔
      (contents s).Settles (settle σ) g.storedNodes := by
  have hw := (hg.congr hnodes).isWritable hg'
  have ht := hs.putNodes hg.wellFormed
  obtain ⟨hlegible, hdirect⟩ := (hs.accepts_retry_iff hg hnodes hg' hfree hfails).1 haccepts
  have hagain : ¬IngestBlocked (Backend.putNodes s g.storedNodes).2 g' := by
    rw [hs.ingestBlocked_retry_iff hg hnodes hfree, not_or]
    exact ⟨by simpa using hlegible, hdirect⟩
  obtain ⟨_, hfirst⟩ := hs.ingest_eq_ok hw hdirect
  obtain ⟨_, hsecond⟩ := ht.ingest_eq_ok hw hagain
  rw [hs.snd_ingest_of_fails hg hfree hfails, hfirst, hsecond]
  exact hs.putGraph_retry_iff hg hnodes hg'

end

/-- Nodes leave the relationships as they are. -/
theorem Valid.perm_allEdges_putNodes (hs : Valid s) {ns : List StoredNode}
    (hns : ∀ n ∈ ns, n.WellFormed) :
    (allEdges (Backend.putNodes s ns).2).Perm (allEdges s) := by
  have ht := hs.putNodes hns
  apply (List.perm_ext_iff_of_nodup (LawfulBackend.nodup_keys ht.sound).of_map
    (LawfulBackend.nodup_keys hs.sound).of_map).2
  intro e
  rw [mem_allEdges_iff ht.sound, mem_allEdges_iff hs.sound, hs.contents_putNodes hns,
    Contents.edge?_mergeNodes]

end

/-! ## Failing -/

/-- When an ingest fails, and what is left of the graph then, for a store in which nodes are blocked
if `nodesBlocked`, and relationships, in a state of it, if `edgesBlocked`. -/
structure FailsCleanly {σ : Type} [ListedBackend σ] (s : σ) (g : Graph) (nodesBlocked : Prop)
    (edgesBlocked : σ → Prop) : Prop where
  ingest_iff : (∃ e, (Store.ingest s g).1 = .error e) ↔
    (∃ n ∈ g.nodes, n.id ≠ "" ∧ "" ∈ n.labels) ∨ (∃ e ∈ g.edges, "" ∈ e.labels) ∨
      nodesBlocked ∨ edgesBlocked (Backend.putNodes s g.storedNodes).2
  error_iff {e : StoreError} : (Store.ingest s g).1 = .error e ↔
    FailsAs g.WritableNodes nodesBlocked e ∨ g.WritableNodes ∧ ¬nodesBlocked ∧
      FailsAs g.WritableEdges (edgesBlocked (Backend.putNodes s g.storedNodes).2) e
  of_nodes : ¬g.WritableNodes ∨ nodesBlocked → (Store.ingest s g).2 = s
  of_edges : g.WritableNodes → ¬nodesBlocked → (∃ e, (Store.ingest s g).1 = .error e) →
    (∃ count, (Operation.upsertNodes g).perform s = (.written (.ok count), (Store.ingest s g).2)) ∧
      (ListedBackend.allEdges (Store.ingest s g).2).Perm (ListedBackend.allEdges s)
  upsertNodes_iff {e : StoreError} {t : σ} :
    (Operation.upsertNodes g).perform s = (.written (.error e), t) ↔
      FailsAs g.WritableNodes nodesBlocked e ∧ t = s
  upsertEdges_iff {e : StoreError} {t : σ} :
    (Operation.upsertEdges g).perform s = (.written (.error e), t) ↔
      FailsAs g.WritableEdges (edgesBlocked s) e ∧ t = s

section

variable {σ : Type} {g : Graph}

/-- A write that fails is answered with its error and leaves the store as it is. -/
theorem writing_eq_error_iff {s t : σ} {r : Except StoreError (WriteCount × σ)}
    {e : StoreError} : (writing s r).map Reply.written id = (.written (.error e), t) ↔
      r = .error e ∧ t = s := by
  cases r with
  | error e' =>
    show ((Reply.written (.error e'), s) : Reply × σ) = (.written (.error e), t) ↔ _
    rw [Prod.mk.injEq, Reply.written.injEq]
    exact and_congr (by rw [Except.error.injEq, Except.error.injEq]) eq_comm
  | ok a =>
    constructor
    · intro h
      have hreply : Reply.written (.ok a.1) = .written (.error e) := congrArg Prod.fst h
      cases hreply
    · rintro ⟨h, _⟩
      cases h

theorem Valid.failsCleanly [LaidOutBackend σ] {s : σ} (hs : Valid s) (g : Graph) :
    FailsCleanly s g (NodesBlocked s g.storedNodes) (EdgesBlocked · g.storedEdges) := by
  constructor
  case ingest_iff =>
    rw [hs.ingest_fails_iff, Graph.not_writableNodes_iff, Graph.not_writableEdges_iff]
    rfl
  case error_iff => exact hs.ingest_eq_error_iff
  case of_nodes =>
    intro h
    by_cases hnodes : g.WritableNodes
    · rw [hs.ingest_of_nodes_blocked hnodes (h.resolve_left (not_not.2 hnodes))]
    · rw [Store.ingest_of_empty_node s hnodes]
  case of_edges =>
    intro hnodes hfree hfails
    rw [hs.snd_ingest_of_fails hnodes hfree hfails, Operation.perform,
      hs.upsertNodes_eq hnodes hfree]
    exact ⟨⟨_, rfl⟩, hs.perm_allEdges_putNodes hnodes.wellFormed⟩
  case upsertNodes_iff =>
    intro e t
    rw [Operation.perform, writing_eq_error_iff, hs.upsertNodes_eq_error_iff]
  case upsertEdges_iff =>
    intro e t
    rw [Operation.perform, writing_eq_error_iff, hs.upsertEdges_eq_error_iff]

end

/-- A graph that cannot be written fails cleanly, on either backend.  If only its edges cannot, its
nodes are accepted again with edges that can.  In memory the store is then the same as without the
failed ingest.  In tables an ingest fails as well if it would merge into what cannot be read: so the
nodes are accepted again exactly if they bring nothing of that kind and the new graph would have been
accepted at once, and the store is then the same exactly if the values settle. -/
theorem failed_ingest_retry {s : AdjacencyStore} {t : TableStore} (hs : Reachable s)
    (ht : Reachable t) (g : Graph) :
    (FailsCleanly s g False (fun _ => False) ∧ (g.WritableNodes → ¬g.WritableEdges →
      ∀ g' : Graph, g'.nodes = g.nodes → g'.WritableEdges →
        (∃ status, (Store.ingest (Store.ingest s g).2 g').1 = .ok status) ∧
        (Store.ingest (Store.ingest s g).2 g').2 = (Store.ingest s g').2)) ∧
    FailsCleanly t g (NodesBlocked t g.storedNodes) (EdgesBlocked · g.storedEdges) ∧
    (g.WritableNodes → ¬NodesBlocked t g.storedNodes → (∃ e, (Store.ingest t g).1 = .error e) →
      ∀ g' : Graph, g'.nodes = g.nodes → g'.WritableEdges →
        ((∃ status, (Store.ingest (Store.ingest t g).2 g').1 = .ok status) ↔
          (∀ n ∈ g.storedNodes, n.properties.isLegible = true) ∧ ¬IngestBlocked t g') ∧
        ((∃ status, (Store.ingest (Store.ingest t g).2 g').1 = .ok status) →
          ((Store.ingest (Store.ingest t g).2 g').2 = (Store.ingest t g').2 ↔
            (contents t).Settles Json.reread g.storedNodes))) := by
  refine ⟨⟨?_, ?_⟩, ht.valid.failsCleanly g, ?_⟩
  · have hclean := hs.valid.failsCleanly g
    simpa using hclean
  · intro hg hedges g' hnodes hg'
    have hfails := hs.valid.ingest_fails_iff.2 (.inr (.inl hedges))
    have haccepts := (hs.valid.accepts_retry_iff hg hnodes hg' not_blocked hfails).2
      ⟨fun _ _ => rfl, not_ingestBlocked s g'⟩
    exact ⟨haccepts, (hs.valid.retry_iff hg hnodes hg' not_blocked hfails haccepts).2
      (Contents.settles_id _ _)⟩
  · intro hg hfree hfails g' hnodes hg'
    exact ⟨ht.valid.accepts_retry_iff hg hnodes hg' hfree hfails,
      ht.valid.retry_iff hg hnodes hg' hfree hfails⟩

/-! ## Retries -/

/-- A dataset with an edge that has an empty label. -/
def Graph.misspelled (id target : String) : Graph :=
  ⟨[⟨id, ["Dataset"], .empty⟩], [.plain id target ""]⟩

/-- The same dataset with an edge that can be written. -/
def Graph.respelled (id target : String) : Graph :=
  ⟨[⟨id, ["Dataset"], .empty⟩], [.plain id target "distribution"]⟩

/-- Of the values of datasets that share a file, each is read back as it was written, so a retry
leaves no trace there. -/
theorem failed_ingest_retry_sharing :
    Reachable (sharing ["a", "b"] : AdjacencyStore) ∧ Reachable (sharing ["a", "b"] : TableStore) ∧
    (Graph.misspelled "a" "f").WritableNodes ∧ ¬(Graph.misspelled "a" "f").WritableEdges ∧
    (Graph.respelled "a" "f").nodes = (Graph.misspelled "a" "f").nodes ∧
    (Graph.respelled "a" "f").WritableEdges ∧
    (FailsCleanly (sharing ["a", "b"] : AdjacencyStore) (.misspelled "a" "f") False
        (fun _ => False) ∧
      (Store.ingest (Store.ingest (sharing ["a", "b"] : AdjacencyStore) (.misspelled "a" "f")).2
        (.respelled "a" "f")).2 = (Store.ingest (sharing ["a", "b"]) (.respelled "a" "f")).2) ∧
    ¬NodesBlocked (sharing ["a", "b"] : TableStore) (Graph.misspelled "a" "f").storedNodes ∧
    FailsCleanly (sharing ["a", "b"] : TableStore) (.misspelled "a" "f")
        (NodesBlocked (sharing ["a", "b"] : TableStore) (Graph.misspelled "a" "f").storedNodes)
        (EdgesBlocked · (Graph.misspelled "a" "f").storedEdges) ∧
      (∃ status, (Store.ingest (Store.ingest (sharing ["a", "b"] : TableStore)
        (.misspelled "a" "f")).2 (.respelled "a" "f")).1 = .ok status) ∧
      (Store.ingest (Store.ingest (sharing ["a", "b"] : TableStore) (.misspelled "a" "f")).2
        (.respelled "a" "f")).2 = (Store.ingest (sharing ["a", "b"]) (.respelled "a" "f")).2 := by
  have hmemory := reachable_sharing (σ := AdjacencyStore) ["a", "b"]
  have htables := reachable_sharing (σ := TableStore) ["a", "b"]
  have hnodes : (Graph.misspelled "a" "f").WritableNodes := by decide
  have hedges : ¬(Graph.misspelled "a" "f").WritableEdges := by decide
  have hrespelled : (Graph.respelled "a" "f").WritableEdges := by decide
  obtain ⟨⟨hclean, hretry⟩, hclean', hretry'⟩ :=
    failed_ingest_retry hmemory htables (.misspelled "a" "f")
  have hsettles := (survives_contents_sharing ["a", "b"]).settles
    (Graph.misspelled "a" "f").storedNodes
  have hlegible : ∀ n ∈ (Graph.misspelled "a" "f").storedNodes, n.properties.isLegible = true := by
    decide +kernel
  have hfree := (legible_sharing ["a", "b"]).not_nodesBlocked htables.valid hlegible
  have hfails := hclean'.ingest_iff.2 (.inr (.inl ⟨.plain "a" "f" "", by decide, by decide⟩))
  have hdirect : ¬IngestBlocked (sharing ["a", "b"] : TableStore) (.respelled "a" "f") := by
    refine (legible_sharing ["a", "b"]).not_ingestBlocked htables.valid hnodes ⟨?_, ?_⟩
    · exact fun n hn => by decide +revert +kernel
    · exact fun e he => by decide +revert +kernel
  obtain ⟨haccepts, hsame⟩ := hretry' hnodes hfree hfails (.respelled "a" "f") rfl hrespelled
  have haccepted := haccepts.2 ⟨hlegible, hdirect⟩
  exact ⟨hmemory, htables, hnodes, hedges, rfl, hrespelled,
    ⟨hclean, (hretry hnodes hedges (.respelled "a" "f") rfl hrespelled).2⟩,
    hfree, hclean', haccepted, (hsame haccepted).2 hsettles⟩

/-- A double whose text is read as its neighbour, and that of the neighbour as the double. -/
def Double.restless : Double := ⟨false, 4247835366853742248, by decide⟩

/-- A dataset with that double. -/
def Graph.restless : Graph where
  nodes := [⟨"n", ["Dataset"], KeyMap.empty.insert "v" (.num (.double .restless))⟩]
  edges := []

/-- The tables after it is taken in. -/
def restless : TableStore := ((Operation.ingest .restless).perform Backend.empty).2

theorem legible_restless : Legible restless :=
  legible_empty_store.perform valid_empty (o := .ingest .restless)
    ⟨by decide +kernel, by decide +kernel⟩

/-- In tables a failed ingest may leave a trace: the double is read back once more. -/
theorem retry_leaves_trace :
    Reachable restless ∧
    (Graph.misspelled "n" "n").WritableNodes ∧ ¬(Graph.misspelled "n" "n").WritableEdges ∧
    (Graph.respelled "n" "n").nodes = (Graph.misspelled "n" "n").nodes ∧
    (Graph.respelled "n" "n").WritableEdges ∧
    (Store.ingest (Store.ingest restless (.misspelled "n" "n")).2 (.respelled "n" "n")).2 ≠
      (Store.ingest restless (.respelled "n" "n")).2 := by
  refine ⟨.perform .empty (.ingest .restless), by decide, by decide, rfl, by decide, ?_⟩
  decide +kernel

end DatasetGraph
