import DatasetGraph.Proofs.Store.Legible
import DatasetGraph.Proofs.Store.WellFormed
import DatasetGraph.Query.Page
import DatasetGraph.Store.Lifecycle

/-!
# Runs

A run is a sequence of operations on a store, each of which may fail and is followed by the next one
all the same.  A store is *reachable* if some run leads to it from the empty store.

A store is *valid* if it is sound and its contents are well-formed.  The empty store is, every
operation keeps it so whether it succeeds or fails (`Valid.perform`), and hence every reachable
store is (`Reachable.valid`).
-/

namespace DatasetGraph

/-- What can be asked of a store. -/
inductive Operation where
  | upsertNodes (g : Graph)
  | upsertEdges (g : Graph)
  | ingest (g : Graph)
  | updateProperties (g : Graph)
  | cascadeDelete (ids : List String)
  | readNodes (ids : List String)
  | incidentEdges (ids : List String)
  | datasetRoots
  | query (q : Query)

/-- What an operation answers. -/
inductive Reply where
  | written (r : Except StoreError WriteCount)
  | ingested (r : Except StoreError IngestStatus)
  | updated (r : Except StoreError Nat)
  | deleted (r : Except StoreError DeleteStatus)
  | nodes (r : Except StoreError (List Node))
  | edges (r : Except StoreError (List Edge))
  | page (r : Except QueryError Page)

section

variable {σ : Type}

/-- The result of a write, and the store as it is then.  A write that fails changes nothing. -/
def writing {α ε : Type} (s : σ) : Except ε (α × σ) → Except ε α × σ
  | .ok (a, t) => (.ok a, t)
  | .error e => (.error e, s)

variable [Backend σ]

/-- Perform an operation. -/
def Operation.perform (s : σ) : Operation → Reply × σ
  | upsertNodes g => (writing s (Store.upsertNodes s g)).map .written id
  | upsertEdges g => (writing s (Store.upsertEdges s g)).map .written id
  | ingest g => (Store.ingest s g).map .ingested id
  | updateProperties g => (writing s (Store.updateProperties s g)).map .updated id
  | cascadeDelete ids => (writing s (Store.cascadeDelete s ids)).map .deleted id
  | readNodes ids => (.nodes (Store.readNodes s ids), s)
  | incidentEdges ids => (.edges (Store.incidentEdges s ids), s)
  | datasetRoots => (.nodes (Store.datasetRoots s), s)
  | query q => (.page (Store.query s q), s)

/-- Perform operations one after the other. -/
def run (s : σ) : List Operation → List Reply × σ
  | [] => ([], s)
  | o :: os =>
    let (reply, t) := o.perform s
    (run t os).map (reply :: ·) id

/-- A store to which some run leads from the empty store. -/
inductive Reachable : σ → Prop where
  | empty : Reachable Backend.empty
  | perform {s : σ} (h : Reachable s) (o : Operation) : Reachable (o.perform s).2

theorem Reachable.run {s : σ} (h : Reachable s) (os : List Operation) :
    Reachable (run s os).2 := by
  induction os generalizing s with
  | nil => exact h
  | cons o os ih => exact ih (h.perform o)

/-! ## Datasets that share a file -/

/-- Datasets with some ids, and one file of all of them. -/
def Graph.sharing (ids : List String) : Graph where
  nodes := ⟨"f", ["FileObject"], KeyMap.empty.insert "contentSize" (.str "120 B")⟩ ::
    ids.map fun id => ⟨id, ["Dataset"], .empty⟩
  edges := ids.map fun id => ⟨id, "f", ["distribution"], .empty⟩

/-- The store after datasets that share a file are taken in. -/
def sharing (ids : List String) : σ := ((Operation.ingest (.sharing ids)).perform Backend.empty).2

theorem reachable_sharing (ids : List String) : Reachable (sharing ids : σ) :=
  .perform .empty (.ingest (.sharing ids))

end

/-- No update sets an empty list. -/
theorem Store.updatesOf_ne_nil (g : Graph) :
    ∀ u ∈ updatesOf g, u.properties.All fun v => v ≠ .arr [] := by
  intro u hu
  obtain ⟨n, _, rfl⟩ := List.mem_map.1 hu
  exact n.properties.all_mark

/-! ## Valid stores -/

section

variable {σ : Type} [LawfulBackend σ]

open LawfulBackend

/-- A store that is sound and whose contents are well-formed. -/
structure Valid (s : σ) : Prop where
  sound : Sound s
  wellFormed : (contents s).WellFormed

variable {s : σ}

theorem isKept_settle (v : Json) (hv : v.IsKept) : (settle σ v).IsKept :=
  ⟨(isNull_settle v).trans hv.1, fun h => hv.2 (eq_nil_of_settle_eq_nil h)⟩

theorem valid_empty : Valid (Backend.empty : σ) where
  sound := sound_empty
  wellFormed := by
    rw [contents_empty]
    exact Contents.wellFormed_empty

namespace Valid

theorem mergeNode (hs : Valid s) {n : StoredNode} (hn : n.WellFormed) :
    Valid (Backend.mergeNode s n) where
  sound := sound_mergeNode hs.sound hn.nodup_labels
  wellFormed := by
    rw [contents_mergeNode hs.sound hn.nodup_labels]
    exact hs.wellFormed.mergeNode isKept_settle hn

theorem mergeEdge (hs : Valid s) {e : StoredEdge} (he : e.WellFormed)
    (source : Backend.hasNode s e.source = true) (target : Backend.hasNode s e.target = true) :
    Valid (Backend.mergeEdge s e) where
  sound := sound_mergeEdge hs.sound source target
  wellFormed := by
    rw [contents_mergeEdge hs.sound source target]
    exact hs.wellFormed.mergeEdge isKept_settle he source target

theorem updateNode (hs : Valid s) {u : PropertyUpdate}
    (hu : u.properties.All fun v => v ≠ .arr []) : Valid (Backend.updateNode s u) where
  sound := sound_updateNode hs.sound u
  wellFormed := by
    rw [contents_updateNode hs.sound]
    exact hs.wellFormed.updateNode isKept_settle hu

theorem deleteNode (hs : Valid s) (id : String) : Valid (Backend.deleteNode s id) where
  sound := sound_deleteNode hs.sound id
  wellFormed := by
    rw [contents_deleteNode hs.sound]
    exact hs.wellFormed.deleteNode id

/-! ## Lists of writes -/

theorem putNodes (hs : Valid s) {ns : List StoredNode} (hns : ∀ n ∈ ns, n.WellFormed) :
    Valid (Backend.putNodes s ns).2 :=
  List.foldlRecOn ns Backend.mergeNode hs fun _ ht n hn => ht.mergeNode (hns n hn)

theorem putEdge {acc : WriteCount × σ} {e : StoredEdge} (hs : Valid acc.2) (he : e.WellFormed) :
    Valid (Backend.putEdge acc e).2 := by
  simp only [Backend.putEdge]
  split
  · next hends =>
    obtain ⟨source, target⟩ := Bool.and_eq_true_iff.1 hends
    exact hs.mergeEdge he source target
  · exact hs

theorem putEdges (hs : Valid s) {es : List StoredEdge} (hes : ∀ e ∈ es, e.WellFormed) :
    Valid (Backend.putEdges s es).2 :=
  List.foldlRecOn es Backend.putEdge (motive := fun acc => Valid acc.2) hs
    fun _ ht e he => ht.putEdge (hes e he)

theorem putUpdate {acc : Nat × σ} {u : PropertyUpdate} (hs : Valid acc.2)
    (hu : u.properties.All fun v => v ≠ .arr []) : Valid (Backend.putUpdate acc u).2 := by
  simp only [Backend.putUpdate]
  split
  · exact hs.updateNode hu
  · exact hs

theorem putUpdates (hs : Valid s) {us : List PropertyUpdate}
    (hus : ∀ u ∈ us, u.properties.All fun v => v ≠ .arr []) :
    Valid (Backend.putUpdates s us).2 :=
  List.foldlRecOn us Backend.putUpdate (motive := fun acc => Valid acc.2) hs
    fun _ ht u hu => ht.putUpdate (hus u hu)

theorem deleteNodes (hs : Valid s) (ids : List String) : Valid (Backend.deleteNodes s ids).2 := by
  apply List.foldlRecOn ids Backend.deleteNodeCounted (motive := fun acc => Valid acc.2) hs
  rintro ⟨count, t⟩ ht id _
  simp only [Backend.deleteNodeCounted]
  split
  · exact ht.deleteNode id
  · exact ht

/-! ## Operations -/

theorem upsertNodes (hs : Valid s) {g : Graph} {r : WriteCount × σ}
    (h : Store.upsertNodes s g = .ok r) : Valid r.2 := by
  rw [Store.upsertNodes] at h
  obtain ⟨ns, hns, h⟩ := Fallible.bind_eq_ok_iff.1 h
  obtain ⟨⟨count, t⟩, hmerge, h⟩ := Fallible.bind_eq_ok_iff.1 h
  cases h
  have hput := (Backend.mergeNodes_follows s ns).eq_of_ok hmerge
  have ht := hs.putNodes (wellFormed_of_mapM_nodes (Fallible.mapError_eq_ok_iff.1 hns))
  rwa [Except.ok.inj hput] at ht

theorem upsertEdges (hs : Valid s) {g : Graph} {r : WriteCount × σ}
    (h : Store.upsertEdges s g = .ok r) : Valid r.2 := by
  rw [Store.upsertEdges] at h
  obtain ⟨es, hes, h⟩ := Fallible.bind_eq_ok_iff.1 h
  obtain ⟨⟨count, t⟩, hmerge, h⟩ := Fallible.bind_eq_ok_iff.1 h
  cases h
  have hput := (Backend.mergeEdges_follows s es.flatten).eq_of_ok hmerge
  have ht := hs.putEdges (wellFormed_of_mapM_edges (Fallible.mapError_eq_ok_iff.1 hes))
  rwa [Except.ok.inj hput] at ht

theorem ingest (hs : Valid s) (g : Graph) : Valid (Store.ingest s g).2 := by
  rw [Store.ingest]
  split
  · exact hs
  · next hnodes =>
    have ht := hs.upsertNodes hnodes
    split
    · exact ht
    · next hedges => exact ht.upsertEdges hedges

theorem updateProperties (hs : Valid s) {g : Graph} {r : Nat × σ}
    (h : Store.updateProperties s g = .ok r) : Valid r.2 := by
  have hput := (Backend.updateNodes_follows s (Store.updatesOf g)).eq_of_ok h
  rw [← Except.ok.inj hput]
  exact hs.putUpdates (Store.updatesOf_ne_nil g)

theorem cascadeDelete (hs : Valid s) {ids : List String} {r : DeleteStatus × σ}
    (h : Store.cascadeDelete s ids = .ok r) : Valid r.2 := by
  rw [Store.cascadeDelete] at h
  obtain ⟨roots, _, h⟩ := Fallible.bind_eq_ok_iff.1 h
  obtain ⟨doomed, _, h⟩ := Fallible.bind_eq_ok_iff.1 h
  cases h
  exact hs.deleteNodes _

theorem writing {α ε : Type} (hs : Valid s) {r : Except ε (α × σ)}
    (h : ∀ a, r = .ok a → Valid a.2) : Valid (writing s r).2 := by
  cases r with
  | error e => exact hs
  | ok a => exact h a rfl

/-- An operation keeps a store valid, whether it succeeds or fails. -/
theorem perform (hs : Valid s) (o : Operation) : Valid (o.perform s).2 := by
  cases o with
  | upsertNodes g => exact hs.writing fun _ => hs.upsertNodes
  | upsertEdges g => exact hs.writing fun _ => hs.upsertEdges
  | ingest g => exact hs.ingest g
  | updateProperties g => exact hs.writing fun _ => hs.updateProperties
  | cascadeDelete ids => exact hs.writing fun _ => hs.cascadeDelete
  | readNodes ids => exact hs
  | incidentEdges ids => exact hs
  | datasetRoots => exact hs
  | query q => exact hs

end Valid

theorem Reachable.valid (h : Reachable s) : Valid s := by
  induction h with
  | empty => exact valid_empty
  | perform _ o ih => exact ih.perform o

end

end DatasetGraph
