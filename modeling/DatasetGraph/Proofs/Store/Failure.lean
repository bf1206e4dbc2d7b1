import DatasetGraph.Proofs.Store.Ingest

/-!
# How an ingest fails

An empty label is the one thing that cannot be stored, and each pass of an ingest looks at all its
labels before it writes anything.  What it writes it lays over what is there, so it fails as well if
that cannot be read.  Nothing else makes it fail (`Valid.upsertNodes_eq_error_iff`,
`Valid.upsertEdges_eq_error_iff`).

So an ingest that fails has written nothing, if the first pass failed, or just the nodes, if only
the second did (`ingest_of_empty_node`, `Valid.ingest_of_empty_edge`, `Valid.ingest_of_blocked`).
-/

namespace DatasetGraph

open InvalidIdentifier (ofEmpty)

/-! ## The stored form -/

theorem Node.toStored_eq_error_iff {n : Node} {e : InvalidIdentifier} :
    n.toStored = .error e ↔ "" ∈ n.labels ∧ e = ofEmpty := by
  apply Fallible.eq_error_iff
  · intro h
    have hlabels : n.labels.mapM Identifier.ofToken = .error ofEmpty := by
      rw [Fallible.mapM_eq_error_iff fun _ _ _ he => (Identifier.ofToken_eq_error_iff.1 he).2]
      exact ⟨"", h, rfl⟩
    rw [toStored, hlabels]
    rfl
  · exact fun h => ⟨_, toStored_eq h⟩

theorem Edge.toStored_eq_error_iff {d : Edge} {e : InvalidIdentifier} :
    d.toStored = .error e ↔ "" ∈ d.labels ∧ e = ofEmpty := by
  -- Of a label, what matters is whether it becomes an identifier.
  have hlabel : ∀ (t : String) (e : InvalidIdentifier),
      (do return ⟨d.source, d.target, ← Identifier.ofToken t, d.properties.encode⟩ :
        Except InvalidIdentifier StoredEdge) = .error e ↔ t = "" ∧ e = ofEmpty := by
    intro t e
    rw [← Identifier.ofToken_eq_error_iff]
    cases Identifier.ofToken t with
    | error e' =>
      show Except.error e' = Except.error e ↔ Except.error e' = Except.error e
      rw [Except.error.injEq, Except.error.injEq]
    | ok i => exact ⟨nofun, nofun⟩
  apply Fallible.eq_error_iff
  · intro h
    rw [toStored, Fallible.mapM_eq_error_iff fun t _ e he => ((hlabel t e).1 he).2]
    exact ⟨"", h, (hlabel "" ofEmpty).2 ⟨rfl, rfl⟩⟩
  · exact fun h => ⟨_, toStored_eq h⟩

/-! ## The passes -/

namespace Store

variable {σ : Type} [Backend σ] {g : Graph}

/-- Nodes are refused if one that is to be written has an empty label. -/
theorem upsertNodes_of_empty (s : σ) (h : ¬g.WritableNodes) :
    upsertNodes s g = .error (.identifier ofEmpty) := by
  obtain ⟨n, hn, hid, hempty⟩ := Graph.not_writableNodes_iff.1 h
  have hnodes : (g.nodes.filter fun n => n.id ≠ "").mapM Node.toStored = .error ofEmpty := by
    rw [Fallible.mapM_eq_error_iff fun _ _ _ he => (Node.toStored_eq_error_iff.1 he).2]
    exact ⟨n, List.mem_filter.2 ⟨hn, by simpa using hid⟩,
      Node.toStored_eq_error_iff.2 ⟨hempty, rfl⟩⟩
  rw [upsertNodes, hnodes]
  rfl

/-- Edges are refused if one of them has an empty label. -/
theorem upsertEdges_of_empty (s : σ) (h : ¬g.WritableEdges) :
    upsertEdges s g = .error (.identifier ofEmpty) := by
  obtain ⟨d, hd, hempty⟩ := Graph.not_writableEdges_iff.1 h
  have hedges : g.edges.mapM Edge.toStored = .error ofEmpty := by
    rw [Fallible.mapM_eq_error_iff fun _ _ _ he => (Edge.toStored_eq_error_iff.1 he).2]
    exact ⟨d, hd, Edge.toStored_eq_error_iff.2 ⟨hempty, rfl⟩⟩
  rw [upsertEdges, hedges]
  rfl

theorem ingest_of_empty_node (s : σ) (h : ¬g.WritableNodes) :
    ingest s g = (.error (.identifier ofEmpty), s) := by
  rw [ingest, upsertNodes_of_empty s h]

end Store

/-- A pass fails if it is to write an empty label, or else if it is blocked. -/
def FailsAs (writable blocked : Prop) (e : StoreError) : Prop :=
  ¬writable ∧ e = .identifier ofEmpty ∨ writable ∧ blocked ∧ e = .unreadable

theorem failsAs_iff {α : Type} {x : Except StoreError α} {writable blocked : Prop} {e : StoreError}
    (hempty : ¬writable → x = .error (.identifier ofEmpty))
    (hblocked : writable → blocked → x = .error .unreadable)
    (hfree : writable → ¬blocked → ∃ a, x = .ok a) :
    x = .error e ↔ FailsAs writable blocked e := by
  by_cases hw : writable
  · rw [Fallible.eq_error_iff (hblocked hw) (hfree hw), FailsAs]
    simp [hw]
  · rw [hempty hw, FailsAs, Except.error.injEq]
    simp [hw, eq_comm]

namespace Valid

variable {σ : Type} [LawfulBackend σ] {s : σ} {g : Graph} {e : StoreError}

theorem upsertNodes_eq_error_iff (hs : Valid s) :
    Store.upsertNodes s g = .error e ↔ FailsAs g.WritableNodes (NodesBlocked s g.storedNodes) e :=
  failsAs_iff (Store.upsertNodes_of_empty s) hs.upsertNodes_of_blocked
    fun hg hfree => ⟨_, hs.upsertNodes_eq hg hfree⟩

theorem upsertEdges_eq_error_iff (hs : Valid s) :
    Store.upsertEdges s g = .error e ↔ FailsAs g.WritableEdges (EdgesBlocked s g.storedEdges) e :=
  failsAs_iff (Store.upsertEdges_of_empty s) hs.upsertEdges_of_blocked
    fun hg hfree => ⟨_, hs.upsertEdges_eq hg hfree⟩

/-- Nodes that are merged are laid over the store. -/
theorem of_upsertNodes_eq_ok (hs : Valid s) {r : WriteCount × σ}
    (h : Store.upsertNodes s g = .ok r) : g.WritableNodes ∧ ¬NodesBlocked s g.storedNodes ∧
      r.2 = (Backend.putNodes s g.storedNodes).2 := by
  by_cases hg : g.WritableNodes
  · by_cases hblocked : NodesBlocked s g.storedNodes
    · rw [hs.upsertNodes_of_blocked hg hblocked] at h
      cases h
    · rw [hs.upsertNodes_eq hg hblocked] at h
      cases h
      exact ⟨hg, hblocked, rfl⟩
  · rw [Store.upsertNodes_of_empty s hg] at h
    cases h

/-- Relationships that are merged are laid over the store. -/
theorem of_upsertEdges_eq_ok (hs : Valid s) {r : WriteCount × σ}
    (h : Store.upsertEdges s g = .ok r) : g.WritableEdges ∧ ¬EdgesBlocked s g.storedEdges ∧
      r.2 = (Backend.putEdges s g.storedEdges).2 := by
  by_cases hg : g.WritableEdges
  · by_cases hblocked : EdgesBlocked s g.storedEdges
    · rw [hs.upsertEdges_of_blocked hg hblocked] at h
      cases h
    · rw [hs.upsertEdges_eq hg hblocked] at h
      cases h
      exact ⟨hg, hblocked, rfl⟩
  · rw [Store.upsertEdges_of_empty s hg] at h
    cases h

/-! ## Ingests -/

theorem ingest_of_empty_edge (hs : Valid s) (hnodes : g.WritableNodes)
    (hfree : ¬NodesBlocked s g.storedNodes) (h : ¬g.WritableEdges) :
    Store.ingest s g =
      (.error (.identifier ofEmpty), (Backend.putNodes s g.storedNodes).2) := by
  rw [Store.ingest, hs.upsertNodes_eq hnodes hfree]
  dsimp only
  rw [Store.upsertEdges_of_empty _ h]

/-- If the nodes are not written, nothing is. -/
theorem ingest_of_nodes_blocked (hs : Valid s) (hnodes : g.WritableNodes)
    (hblocked : NodesBlocked s g.storedNodes) : Store.ingest s g = (.error .unreadable, s) := by
  rw [Store.ingest, hs.upsertNodes_of_blocked hnodes hblocked]

/-- An ingest fails as the first of its passes that does. -/
theorem ingest_eq_error_iff (hs : Valid s) : (Store.ingest s g).1 = .error e ↔
    FailsAs g.WritableNodes (NodesBlocked s g.storedNodes) e ∨
      g.WritableNodes ∧ ¬NodesBlocked s g.storedNodes ∧ FailsAs g.WritableEdges
        (EdgesBlocked (Backend.putNodes s g.storedNodes).2 g.storedEdges) e := by
  rw [← hs.upsertNodes_eq_error_iff, Store.ingest]
  by_cases hnodes : g.WritableNodes
  · by_cases hfree : NodesBlocked s g.storedNodes
    · rw [hs.upsertNodes_of_blocked hnodes hfree]
      simp [hfree]
    · rw [hs.upsertNodes_eq hnodes hfree, ← (hs.putNodes hnodes.wellFormed).upsertEdges_eq_error_iff]
      dsimp only
      split
      · next hedges => simp [hnodes, hfree, hedges]
      · next hedges => simp [hedges]
  · rw [Store.upsertNodes_of_empty s hnodes]
    simp [hnodes]

/-- There is nothing that makes an ingest fail but empty labels and what cannot be read. -/
theorem ingest_fails_iff (hs : Valid s) : (∃ e, (Store.ingest s g).1 = .error e) ↔
    ¬g.WritableNodes ∨ ¬g.WritableEdges ∨ IngestBlocked s g := by
  simp only [hs.ingest_eq_error_iff, FailsAs, IngestBlocked]
  by_cases hnodes : g.WritableNodes
  · by_cases hfree : NodesBlocked s g.storedNodes
    · simp [hnodes, hfree]
    · by_cases hedges : g.WritableEdges
      · simp [hnodes, hfree, hedges]
      · simp [hnodes, hfree, hedges]
  · simp [hnodes]

/-- An ingest that fails after its nodes leaves them written. -/
theorem snd_ingest_of_fails (hs : Valid s) (hg : g.WritableNodes)
    (hfree : ¬NodesBlocked s g.storedNodes) (hfails : ∃ e, (Store.ingest s g).1 = .error e) :
    (Store.ingest s g).2 = (Backend.putNodes s g.storedNodes).2 := by
  by_cases hedges : g.WritableEdges
  · have hblocked : IngestBlocked s g :=
      ((hs.ingest_fails_iff.1 hfails).resolve_left (not_not.2 hg)).resolve_left (not_not.2 hedges)
    rw [Store.ingest, hs.upsertNodes_eq hg hfree]
    dsimp only
    rw [(hs.putNodes hg.wellFormed).upsertEdges_of_blocked hedges (hblocked.resolve_left hfree)]
  · rw [hs.ingest_of_empty_edge hg hfree hedges]

/-- What is taken in is what was laid over the store. -/
theorem of_ingest_eq_ok (hs : Valid s) {status : IngestStatus} {t : σ}
    (h : Store.ingest s g = (.ok status, t)) :
    g.IsWritable ∧ ¬IngestBlocked s g ∧ t = Backend.putGraph s g := by
  have hfails := mt hs.ingest_fails_iff.2 (by rintro ⟨e, he⟩; rw [h] at he; cases he)
  rw [not_or, not_or, not_not, not_not] at hfails
  obtain ⟨hnodes, hedges, hfree⟩ := hfails
  have hg := hnodes.isWritable hedges
  obtain ⟨_, hok⟩ := hs.ingest_eq_ok hg hfree
  rw [h] at hok
  exact ⟨hg, hfree, congrArg Prod.snd hok⟩

end Valid

end DatasetGraph
