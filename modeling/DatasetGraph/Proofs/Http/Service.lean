import DatasetGraph.Proofs.Http.Bodies
import DatasetGraph.Proofs.Store.Schema

/-!
# What a service holds

A service changes its store in three ways: it takes in a graph that its mode allows, it changes
properties, and it deletes datasets.  What these keep (`Service.Keeps`) holds after any list of
requests, whether they are answered or refused (`Service.Keeps.handleAll`).

So the store of a service can always be read: no request brings what cannot be read again.  And a
strict service takes in only graphs whose nodes meet the schema, so its store holds only such nodes
(`Http.strict_holds_valid_graph`).
-/

namespace DatasetGraph

open ListedBackend (allNodes)

/-- All nodes that are stored can be read, and with whatever edges they make a graph that is valid
under strict checks. -/
def Service.HoldsValidGraph {σ : Type} [ListedBackend σ] (s : Service σ) : Prop :=
  ∃ ns, Store.readNodes s.store ((allNodes s.store).map StoredNode.id) = .ok ns ∧
    ns.map Node.id = (allNodes s.store).map StoredNode.id ∧
    ∀ es, ((⟨ns, es⟩ : Graph).validate true).isValid = true

section

variable {σ : Type} [LawfulBackend σ]

namespace Service

/-- What each change that a service of the given mode may make to its store leaves true. -/
structure Keeps (strict : Bool) (P : σ → Prop) : Prop where
  ingest {s : σ} {g : Graph} : P s → g.IsLegible σ → (g.validate strict).isValid = true →
    P (Store.ingest s g).2
  update {s : σ} {g : Graph} {r : Nat × σ} : P s → g.IsLegible σ →
    Store.updateProperties s g = .ok r → P r.2
  delete {s : σ} {ids : List String} {r : DeleteStatus × σ} : P s →
    Store.cascadeDelete s ids = .ok r → P r.2

/-- A service of the given mode with a store of which something holds. -/
structure Stands (strict : Bool) (P : σ → Prop) (s : Service σ) : Prop where
  strict_eq : s.strict = strict
  store : P s.store

namespace Keeps

variable {strict : Bool} {P : σ → Prop} {s : Service σ} (h : Keeps strict P)

include h

/-! ## Calls -/

theorem submit (hs : s.Stands strict P) {sub : Submission} (hsub : sub.graph.IsLegible σ) :
    (s.submit sub).2.Stands strict P := by
  rw [Service.submit]
  cases hcheck : sub.check s.strict with
  | error report => exact hs
  | ok report =>
    obtain ⟨rfl, hvalid⟩ := Submission.check_eq_ok_iff.1 hcheck
    have hstore : P (sub.store s.store).2 := h.ingest hs.store hsub (hs.strict_eq ▸ hvalid)
    -- The store is the one that the ingest leaves, whether it failed or not.
    dsimp only
    split
    · next heq =>
      rw [heq] at hstore
      exact ⟨hs.strict_eq, hstore⟩
    · next heq =>
      rw [heq] at hstore
      exact ⟨hs.strict_eq, hstore⟩

theorem perform [ReadsTexts σ] (hs : s.Stands strict P) {c : Call} (hc : c.BringsLegible σ) :
    (s.perform c).2.Stands strict P := by
  cases c with
  | health => exact hs
  | ingestDocument v =>
    rw [Service.perform, Service.ingestDocument]
    cases hd : Document.ofJson v with
    | error fault => exact hs
    | ok d =>
      dsimp only
      split
      · exact hs
      · exact h.submit hs (Document.isLegible_graph_ofJson hd hc)
  | ingestGraph g => exact h.submit hs hc
  | validate g => exact hs
  | retrieve id =>
    rw [Service.perform]
    cases Store.readNode s.store id with
    | error e => exact hs
    | ok a => exact hs
  | query q =>
    rw [Service.perform, Service.query]
    cases Store.query s.store q with
    | error e => exact hs
    | ok p => exact hs
  | update g =>
    rw [Service.perform, Service.update]
    cases hupdate : Store.updateProperties s.store g with
    | error e => exact hs
    | ok r => exact ⟨hs.strict_eq, h.update hs.store hc hupdate⟩
  | delete ids =>
    rw [Service.perform, Service.delete]
    cases hdelete : Store.cascadeDelete s.store ids with
    | error e => exact hs
    | ok r => exact ⟨hs.strict_eq, h.delete hs.store hdelete⟩

/-! ## Requests -/

variable [ReadsTexts σ]

theorem handle (hs : s.Stands strict P) (r : Http.Request) : (Http.handle s r).2.Stands strict P := by
  rw [Http.handle]
  cases hcall : r.call with
  | error response => exact hs
  | ok c => exact h.perform hs (Http.Request.bringsLegible_call hcall)

/-- What every change keeps holds after any requests. -/
theorem handleAll (hs : s.Stands strict P) (requests : List Http.Request) :
    (Http.handleAll s requests).2.Stands strict P := by
  induction requests generalizing s with
  | nil => exact hs
  | cons r requests ih => exact ih (h.handle hs r)

end Keeps

/-! ## What is read -/

/-- A store that can be read. -/
structure IsReadable (s : σ) : Prop where
  valid : Valid s
  legible : Legible s

theorem keeps_isReadable (strict : Bool) : Keeps strict (IsReadable : σ → Prop) where
  ingest hs hg _ := ⟨hs.valid.ingest _, hs.legible.ingest hs.valid hg⟩
  update hs hg h := ⟨hs.valid.updateProperties h, hs.legible.updateProperties hs.valid hg h⟩
  delete hs h := ⟨hs.valid.cascadeDelete h, hs.legible.cascadeDelete hs.valid h⟩

theorem stands_empty (strict : Bool) : (empty strict : Service σ).Stands strict IsReadable :=
  ⟨rfl, valid_empty, legible_empty_store⟩

/-! ## Strict services -/

/-- A store that can be read, and holds only nodes that meet the schema. -/
structure Conforms (s : σ) : Prop extends IsReadable s where
  meetsSchema : (contents s).MeetsSchema

theorem keeps_conforms : Keeps true (Conforms : σ → Prop) where
  ingest hs hg hvalid := ⟨(keeps_isReadable true).ingest hs.toIsReadable hg hvalid,
    hs.valid.meetsSchema_ingest hs.meetsSchema (Graph.isValid_strict_iff.1 hvalid)⟩
  update hs hg h := ⟨(keeps_isReadable true).update hs.toIsReadable hg h,
    hs.valid.meetsSchema_updateProperties hs.meetsSchema h⟩
  delete hs h := ⟨(keeps_isReadable true).delete hs.toIsReadable h,
    hs.valid.meetsSchema_cascadeDelete hs.meetsSchema h⟩

theorem stands_empty_strict : (empty true : Service σ).Stands true Conforms where
  strict_eq := rfl
  store := by
    refine ⟨⟨valid_empty, legible_empty_store⟩, ?_⟩
    show (contents (Backend.empty : σ)).MeetsSchema
    rw [LawfulBackend.contents_empty]
    exact Contents.meetsSchema_empty

theorem Conforms.holdsValidGraph {s : Service σ} (hs : Conforms s.store) : s.HoldsValidGraph := by
  have hread : ∀ m ∈ allNodes s.store, ∃ n, (contents s.store).read? m.id = some n := by
    intro m hm
    have hnode := (mem_allNodes_iff hs.valid.sound).1 hm
    obtain ⟨n, hn⟩ := (hs.valid.wellFormed.node hnode).exists_toNode
    exact ⟨n, Contents.read?_eq_some_iff.2 ⟨m, hnode, hn⟩⟩
  refine ⟨((allNodes s.store).map StoredNode.id).filterMap (contents s.store).read?, ?_, ?_, ?_⟩
  · rw [hs.valid.readNodes_eq_ite, if_neg]
    rintro ⟨id, _, hunreadable⟩
    exact hs.legible.node id hunreadable
  · -- Each id is read as a node of that id.
    rw [List.filterMap_map, List.map_filterMap, ← List.filterMap_eq_map]
    apply List.filterMap_congr
    intro m hm
    obtain ⟨n, hn⟩ := hread m hm
    show ((contents s.store).read? m.id).map Node.id = some m.id
    rw [hn, Option.map_some, hs.valid.wellFormed.read?_id hn]
  · intro es
    rw [Graph.isValid_strict_iff]
    intro n hn
    obtain ⟨id, _, hid⟩ := List.mem_filterMap.1 hn
    exact hs.meetsSchema id n hid

end Service

end

/-- Whatever a strict service is asked, on either backend, it holds a valid graph. -/
theorem Http.strict_holds_valid_graph (requests : List Request) :
    (handleAll (Service.empty true : Service TableStore) requests).2.HoldsValidGraph ∧
      (handleAll (Service.empty true : Service AdjacencyStore) requests).2.HoldsValidGraph :=
  ⟨(Service.keeps_conforms.handleAll Service.stands_empty_strict requests).store.holdsValidGraph,
    (Service.keeps_conforms.handleAll Service.stands_empty_strict requests).store.holdsValidGraph⟩

end DatasetGraph
