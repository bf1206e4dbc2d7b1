import DatasetGraph.Proofs.Conversion.Removal
import DatasetGraph.Proofs.Http.Service

/-!
# Documents over HTTP

A document that is sent to the service is stored whole or not at all, and the response says which
(`Http.document_all_or_nothing`): success if the graph of the document was stored, a refusal if the
store is as it was.

A store takes a graph in two passes, nodes and then edges, and when the second pass fails, what the
first one wrote stays.  That documents are stored whole is therefore not the store's merit.  A pass
fails on an empty label, and the graph of a document has none; or it would have to read what cannot
be read, and a store that is only written to by requests holds nothing of the kind
(`Service.IsServed.not_obstructs`).
-/

namespace DatasetGraph

/-! ## Graphs of documents -/

namespace Document

variable {d : Document}

/-- The graph has something in it exactly if the dataset has an id. -/
theorem isEmpty_graph_iff : d.graph.isEmpty = true ↔ identifier? d.id = none := by
  cases hid : identifier? d.id with
  | none =>
    have helements : d.elements = [] := by rw [elements, hid]
    rw [graph, helements]
    exact iff_of_true rfl rfl
  | some root =>
    obtain ⟨n, hn, _⟩ := List.mem_map.1 (Shows.dataset hid).id_mem
    refine iff_of_false ?_ (Option.some_ne_none root)
    rw [Graph.isEmpty, Bool.and_eq_true, List.isEmpty_iff]
    exact fun hempty => List.ne_nil_of_mem hn hempty.1

end Document

/-! ## Submissions -/

namespace Service

variable {σ : Type} [Backend σ] {s : Service σ} (sub : Submission)

theorem submit_of_invalid (h : (sub.graph.validate s.strict).isValid = false) :
    s.submit sub = (.error (.schemaViolation (sub.graph.validate s.strict)), s) := by
  have hcheck : sub.check s.strict = .error (sub.graph.validate s.strict) := by
    rw [Submission.check]
    simp only [h, Bool.false_eq_true, if_false]
  rw [submit, hcheck]

theorem submit_of_valid (h : (sub.graph.validate s.strict).isValid = true)
    {written : IngestStatus} (hwritten : (Store.ingest s.store sub.graph).1 = .ok written) :
    s.submit sub = (.ok (.stored ⟨written, sub.issues, sub.graph.validate s.strict⟩),
      { s with store := (Store.ingest s.store sub.graph).2 }) := by
  have hstore : sub.store s.store = (.ok written, (Store.ingest s.store sub.graph).2) :=
    Prod.ext hwritten rfl
  rw [submit, Submission.check_eq_ok_iff.2 ⟨rfl, h⟩]
  dsimp only
  rw [hstore]

end Service

/-! ## Documents -/

/-- Whether a value is a document that a service stores: it can be read, the dataset has an id, and
its graph is valid. -/
def Json.IsStorable (v : Json) (strict : Bool) : Prop :=
  ∃ d root, Document.ofJson v = .ok d ∧ identifier? d.id = some root ∧
    (d.graph.validate strict).isValid = true

/-- An ingest of the document would have to read what the store cannot read. -/
def Service.Obstructs {σ : Type} [Backend σ] (s : Service σ) (v : Json) : Prop :=
  ∃ d, Document.ofJson v = .ok d ∧ IngestBlocked s.store d.graph

/-- A service that has been asked some list of requests, from the empty store on. -/
def Service.IsServed {σ : Type} [Backend σ] (s : Service σ) : Prop :=
  ∃ strict requests, (Http.handleAll (.empty strict) requests).2 = s

namespace Service.IsServed

variable {σ : Type} [LawfulBackend σ] [ReadsTexts σ] {s : Service σ}

theorem isReadable (h : s.IsServed) : IsReadable s.store := by
  obtain ⟨strict, requests, rfl⟩ := h
  exact ((keeps_isReadable strict).handleAll (stands_empty strict) requests).store

/-- Nothing stands in the way of a document that is nested no deeper than a text. -/
theorem not_obstructs (h : s.IsServed) {v : Json} (hv : v.depth ≤ Json.maxDepth) :
    ¬s.Obstructs v := by
  rintro ⟨d, hd, hblocked⟩
  exact h.isReadable.legible.not_ingestBlocked h.isReadable.valid d.isWritable_graph.nodes
    (Document.isLegible_graph_ofJson hd hv) hblocked

end Service.IsServed

namespace Http

section

variable {σ : Type} [LawfulBackend σ]

/-- What may become of a document: the response to it, and the service after it. -/
inductive DocumentOutcome (s : Service σ) (v : Json) : Response → Service σ → Prop
  | stored {d : Document} {root : String} {written : IngestStatus}
    (document : Document.ofJson v = .ok d) (id : identifier? d.id = some root)
    (valid : (d.graph.validate s.strict).isValid = true)
    (ingest : (Store.ingest s.store d.graph).1 = .ok written) :
    DocumentOutcome s v
      ⟨200, some (Answer.stored ⟨written, d.issues, d.graph.validate s.strict⟩).toJson⟩
      { s with store := (Store.ingest s.store d.graph).2 }
  | malformed {fault : Json.Fault} (document : Document.ofJson v = .error fault) :
    DocumentOutcome s v ⟨400, some (ServiceError.malformedDocument fault).toJson⟩ s
  | unidentified {d : Document} (document : Document.ofJson v = .ok d)
    (id : identifier? d.id = none) :
    DocumentOutcome s v ⟨400, some ServiceError.nothingToStore.toJson⟩ s
  | invalid {d : Document} {root : String} (document : Document.ofJson v = .ok d)
    (id : identifier? d.id = some root)
    (valid : (d.graph.validate s.strict).isValid = false) :
    DocumentOutcome s v
      ⟨422, some (ServiceError.schemaViolation (d.graph.validate s.strict)).toJson⟩ s

variable {s t : Service σ} {v : Json} {response : Response}

/-- The outcome is success exactly for what can be stored. -/
theorem DocumentOutcome.status_eq_iff (h : DocumentOutcome s v response t) :
    response.status = 200 ↔ v.IsStorable s.strict := by
  have bad : (400 : Nat) ≠ 200 := by decide
  have unprocessable : (422 : Nat) ≠ 200 := by decide
  cases h with
  | stored document id valid ingest =>
    exact iff_of_true rfl ⟨_, _, document, id, valid⟩
  | malformed document =>
    refine iff_of_false bad ?_
    rintro ⟨_, _, hd, _⟩
    cases document.symm.trans hd
  | unidentified document id =>
    refine iff_of_false bad ?_
    rintro ⟨_, _, hd, hid, _⟩
    cases document.symm.trans hd
    cases id.symm.trans hid
  | invalid document id valid =>
    refine iff_of_false unprocessable ?_
    rintro ⟨_, _, hd, _, hvalid⟩
    cases document.symm.trans hd
    cases valid.symm.trans hvalid

/-- A document is stored or refused, unless the store would have to read what cannot be read. -/
theorem documentOutcome_perform (hs : Valid s.store) (hfree : ¬s.Obstructs v) :
    DocumentOutcome s v (Response.ofAnswer (s.perform (.ingestDocument v)).1)
      (s.perform (.ingestDocument v)).2 := by
  show DocumentOutcome s v (Response.ofAnswer (s.ingestDocument v).1) (s.ingestDocument v).2
  rw [Service.ingestDocument]
  cases hd : Document.ofJson v with
  | error fault => exact .malformed hd
  | ok d =>
    dsimp only
    cases hid : identifier? d.id with
    | none =>
      rw [if_pos (Document.isEmpty_graph_iff.2 hid)]
      exact .unidentified hd hid
    | some root =>
      have hne : ¬d.graph.isEmpty = true := by
        rw [Document.isEmpty_graph_iff, hid]
        exact Option.some_ne_none root
      rw [if_neg hne]
      cases hvalid : (d.graph.validate s.strict).isValid with
      | false =>
        rw [Service.submit_of_invalid (.ofDocument d) hvalid]
        exact .invalid hd hid hvalid
      | true =>
        obtain ⟨written, hok⟩ :=
          hs.ingest_eq_ok d.isWritable_graph fun hblocked => hfree ⟨d, hd, hblocked⟩
        have hwritten : (Store.ingest s.store d.graph).1 = .ok written := by rw [hok]
        rw [Service.submit_of_valid (.ofDocument d) hvalid hwritten]
        exact .stored hd hid hvalid hwritten

theorem handle_of_ingestDocument (s : Service σ) {r : Request} (hmethod : r.method = .post)
    (hpath : r.path = Route.ingestDocument.path) (hbody : r.read Json.Decoder.value = .ok v) :
    handle s r = (Response.ofAnswer (s.perform (.ingestDocument v)).1,
      (s.perform (.ingestDocument v)).2) := by
  have hroute : Route.ofPath? r.path = some .ingestDocument := by
    rw [hpath]
    decide
  have hcall : r.call = .ok (.ingestDocument v) := by
    rw [Request.call, if_neg (by rw [hmethod]; decide), hroute]
    dsimp only
    rw [hmethod]
    show (r.read Json.Decoder.value).map Call.ingestDocument = _
    rw [hbody]
    rfl
  rw [handle, hcall]
  dsimp only
  rw [Response.answering, if_neg (by rw [hmethod]; decide)]

/-- A document that is sent to a service is stored whole or refused without a trace, unless the store
would have to read what it cannot read.  It is stored exactly if it can be read, has an id and its
graph is valid.  Nothing stands in the way of a document in a text, if the store has been written to
by requests alone. -/
theorem document_all_or_nothing [ReadsTexts σ] {s : Service σ} (hs : Valid s.store) (v : Json) :
    (¬s.Obstructs v →
      DocumentOutcome s v (Response.ofAnswer (s.perform (.ingestDocument v)).1)
        (s.perform (.ingestDocument v)).2 ∧
      ((Response.ofAnswer (s.perform (.ingestDocument v)).1).status = 200 ↔
        v.IsStorable s.strict)) ∧
    (s.IsServed → v.depth ≤ Json.maxDepth → ¬s.Obstructs v) ∧
    ∀ r : Request, r.method = .post → r.path = "/ingestProfile2MoMa" →
      r.read Json.Decoder.value = .ok v →
      v.depth ≤ Json.maxDepth ∧ handle s r = (Response.ofAnswer (s.perform (.ingestDocument v)).1,
        (s.perform (.ingestDocument v)).2) := by
  refine ⟨fun hfree => ?_, fun hserved => hserved.not_obstructs, fun r hmethod hpath hbody => ?_⟩
  · have houtcome := documentOutcome_perform hs hfree
    exact ⟨houtcome, houtcome.status_eq_iff⟩
  · obtain ⟨b, hb, hv⟩ := Request.exists_body hbody
    exact ⟨Nat.le_trans (Json.Decoder.value_encloses hv rfl) hb,
      handle_of_ingestDocument s hmethod hpath hbody⟩

/-- A request with a document. -/
def Request.ofDocument (body : String) : Request :=
  ⟨.post, "/ingestProfile2MoMa", some "application/json", body⟩

/-- A dataset with a file, and a column of it that is described. -/
def tabular : Json :=
  .obj [("@id", .str "d"),
    ("distribution", .arr [.obj [("@id", .str "f"), ("encodingFormat", .str "text/csv")]]),
    ("recordSet", .arr [.obj [("@id", .str "r"), ("field", .arr [.obj [("@id", .str "c"),
      ("source", .obj [("fileObject", .obj [("@id", .str "f")])])]])]])]

/-- A service that holds the file already, in another dataset. -/
def occupied : Service TableStore :=
  (handleAll (Service.empty true) [.ofDocument
    "\x7b\"@id\":\"e\",\"distribution\":[\x7b\"@id\":\"f\",\"name\":\"F\"\x7d]\x7d"]).2

/-- The dataset is stored beside the other one. -/
theorem document_all_or_nothing_beside :
    occupied.store.nodes.map NodeRow.id = ["e", "f"] ∧
    (Request.ofDocument tabular.compact).read Json.Decoder.value = .ok tabular ∧
    DocumentOutcome occupied tabular (handle occupied (.ofDocument tabular.compact)).1
      (handle occupied (.ofDocument tabular.compact)).2 ∧
    (handle occupied (.ofDocument tabular.compact)).1.status = 200 := by
  have hread : (Request.ofDocument tabular.compact).read Json.Decoder.value = .ok tabular := by cbv
  have hpath : (Request.ofDocument tabular.compact).path = "/ingestProfile2MoMa" := by cbv
  have hserved : occupied.IsServed := ⟨true, _, rfl⟩
  have hstrict : occupied.strict = true :=
    ((Service.keeps_isReadable true).handleAll (Service.stands_empty true) _).strict_eq
  have hstorable : tabular.IsStorable occupied.strict := by
    rw [hstrict]
    refine ⟨⟨some "d", none, [⟨some "f", none, some "text/csv", none, .empty⟩],
      [⟨some "r", none, [⟨some "c", none, some ⟨some ⟨some "f"⟩, none, none⟩, none, .empty⟩], .empty⟩],
      .empty⟩, "d", by cbv, by decide, by decide +kernel⟩
  obtain ⟨hstored, hfree, hrequest⟩ :=
    document_all_or_nothing hserved.isReadable.valid tabular
  obtain ⟨hdepth, hhandle⟩ := hrequest _ rfl hpath hread
  obtain ⟨houtcome, hstatus⟩ := hstored (hfree hserved hdepth)
  rw [hhandle]
  exact ⟨by cbv, hread, houtcome, hstatus.2 hstorable⟩

end

end Http

end DatasetGraph
