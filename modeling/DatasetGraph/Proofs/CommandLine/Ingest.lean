import DatasetGraph.CommandLine.Run
import DatasetGraph.Proofs.CommandLine.Opening
import DatasetGraph.Proofs.Graph.Decode
import DatasetGraph.Proofs.Http.Ingest
import DatasetGraph.Proofs.Store.Run

/-!
# Ingests on the command line and over HTTP

A submission can be stored by a command or by a request.  The command reads its value and then what
the value says; a request with a graph is read in one go.  Where the value is the same and no key is
repeated, both come to the same submission, and `ingest_as_over_http` says that they do the same to
the same store, also if a pass of the ingest fails.  The command ends with 0 exactly if the response
is a success, but for an empty graph, which only the command refuses.

A text is of no value if it is nested deeper than `Json.maxDepth`.  Such texts are left out here, and
there the two differ: the command refuses them, while a request with a graph passes over what is in
a member that it does not know, however deep.
-/

namespace DatasetGraph

open Json (Decoder Reading)

/-! ## Texts and their values -/

namespace Json

variable {text : String} {v : Json}

theorem parse?_eq_some_iff : parse? text = some v ↔
    (Reading.ofText text).trailing = false ∧ (Reading.ofText text).source.read? = some v := by
  rw [parse?]
  cases (Reading.ofText text).trailing <;> simp

/-- The text of a value is decoded as its source is. -/
theorem Decoder.ofText_of_parse? {α : Type} (h : parse? text = some v) (d : Decoder α) :
    Decoder.ofText d text = d (Reading.ofText text).source := by
  rw [Decoder.ofText, (parse?_eq_some_iff.1 h).1]
  cases d (Reading.ofText text).source <;> rfl

end Json

/-- Without repeated keys, the same graph is read of a text as of its value. -/
theorem Graph.ofText_eq_ok_iff {text : String} {v : Json} {g : Graph}
    (hv : Json.parse? text = some v) (hdistinct : (Reading.ofText text).source.Distinct) :
    Decoder.ofText Graph.decode text = .ok g ↔ Graph.ofJson v = .ok g := by
  have halike := Json.Source.Alike.ofJson hdistinct (Json.parse?_eq_some_iff.1 hv).2
  rw [Json.Decoder.ofText_of_parse? hv]
  exact ⟨fun h => Graph.decode_respects (.alike halike) h,
    fun h => Graph.decode_respects (.alike halike.symm) h⟩

theorem Graph.isEmpty_iff {g : Graph} : g.isEmpty = true ↔ g = .empty := by
  obtain ⟨nodes, edges⟩ := g
  simp [Graph.isEmpty, Graph.empty]

namespace Submission

variable {v : Json} {sub : Submission}

theorem ofJson_document_eq_ok_iff :
    ofJson .document v = .ok sub ↔ ∃ d, Document.ofJson v = .ok d ∧ sub = .ofDocument d := by
  cases h : Document.ofJson v <;> simp [ofJson, h, Except.map, eq_comm]

theorem ofJson_graph_eq_ok_iff :
    ofJson .graph v = .ok sub ↔ ∃ g, Graph.ofJson v = .ok g ∧ sub = .ofGraph g := by
  cases h : Graph.ofJson v <;> simp [ofJson, h, Except.map, eq_comm]

end Submission

/-! ## Over HTTP -/

namespace Http

/-- Where a submission of a form is sent. -/
def Route.ofForm : Form → Route
  | .document => .ingestDocument
  | .graph => .ingestGraph

/-- A request that sends a submission. -/
structure Request.Submits (r : Request) (form : Form) (body : String) : Prop where
  method : r.method = .post
  path : r.path = (Route.ofForm form).path
  contentType : r.contentType.any MediaType.declaresJson = true
  body : r.body = body

variable {σ : Type} [Backend σ] {s : Service σ} {r : Request} {form : Form} {body : String}
  {v : Json} {sub : Submission}

namespace Request.Submits

theorem read_ok {α : Type} {d : Decoder α} {a : α} (h : r.Submits form body)
    (ha : Decoder.ofText d body = .ok a) : r.read d = .ok a := by
  rw [Request.read, if_pos h.contentType, h.body, ha]

theorem read_error {α : Type} {d : Decoder α} {fault : Json.Fault} (h : r.Submits form body)
    (hfault : Decoder.ofText d body = .error fault) :
    ∃ status, status ≠ 200 ∧ r.read d = .error (.bare status) := by
  rw [Request.read, if_pos h.contentType, h.body, hfault]
  exact ⟨if fault.isText then 400 else 422, by split <;> decide, rfl⟩

theorem call_eq (h : r.Submits form body) : r.call = r.callAt (Route.ofForm form) .post := by
  have hroute : Route.ofPath? r.path = some (Route.ofForm form) := by
    rw [h.path]
    cases form <;> decide
  rw [Request.call, if_neg (by rw [h.method]; decide), hroute, h.method]

theorem handle_of_call (h : r.Submits form body) {c : Call}
    (hcall : r.callAt (Route.ofForm form) .post = .ok c) :
    handle s r = (Response.ofAnswer (s.perform c).1, (s.perform c).2) := by
  rw [handle, h.call_eq, hcall]
  dsimp only
  rw [Response.answering, if_neg (by rw [h.method]; decide)]

theorem handle_of_response (h : r.Submits form body) {response : Response}
    (hcall : r.callAt (Route.ofForm form) .post = .error response) :
    handle s r = (response, s) := by
  rw [handle, h.call_eq, hcall]
  dsimp only
  rw [Response.answering, if_neg (by rw [h.method]; decide)]

theorem handle_document (h : r.Submits .document body) (hv : Json.parse? body = some v) :
    handle s r = (Response.ofAnswer (s.ingestDocument v).1, (s.ingestDocument v).2) := by
  have hvalue : Decoder.ofText Decoder.value body = .ok v := by
    rw [Json.Decoder.ofText_of_parse? hv, Json.Decoder.value_eq_ok_iff]
    exact (Json.parse?_eq_some_iff.1 hv).2
  refine h.handle_of_call (c := .ingestDocument v) ?_
  show (r.read Decoder.value).map Call.ingestDocument = _
  rw [h.read_ok hvalue]
  rfl

/-- What cannot be read is refused. -/
theorem handle_malformed (h : r.Submits form body) (hv : Json.parse? body = some v)
    (hdistinct : (Reading.ofText body).source.Distinct) {fault : Json.Fault}
    (hsub : Submission.ofJson form v = .error fault) :
    (handle s r).1.status ≠ 200 ∧ (handle s r).2 = s := by
  cases form with
  | document =>
    have hd : Document.ofJson v = .error fault := by
      cases hd : Document.ofJson v <;> simp_all [Submission.ofJson, Except.map]
    rw [h.handle_document hv, Service.ingestDocument, hd]
    exact ⟨(by decide : 400 ≠ 200), rfl⟩
  | graph =>
    cases hg : Decoder.ofText Graph.decode body with
    | error fault' =>
      obtain ⟨status, hstatus, hread⟩ := h.read_error hg
      have hcall : r.callAt .ingestGraph .post = .error (.bare status) := by
        show (r.read Graph.decode).map Call.ingestGraph = _
        rw [hread]
        rfl
      rw [h.handle_of_response hcall]
      exact ⟨hstatus, rfl⟩
    | ok g =>
      rw [Graph.ofText_eq_ok_iff hv hdistinct] at hg
      rw [Submission.ofJson, hg] at hsub
      cases hsub

/-- The graph of a document is refused if there is nothing in it. -/
theorem handle_nothing (h : r.Submits .document body) (hv : Json.parse? body = some v)
    (hsub : Submission.ofJson .document v = .ok sub) (hempty : sub.graph.isEmpty = true) :
    (handle s r).1.status ≠ 200 ∧ (handle s r).2 = s := by
  obtain ⟨d, hd, rfl⟩ := Submission.ofJson_document_eq_ok_iff.1 hsub
  rw [h.handle_document hv, Service.ingestDocument, hd]
  dsimp only
  rw [if_pos (show d.graph.isEmpty = true from hempty)]
  exact ⟨(by decide : 400 ≠ 200), rfl⟩

/-- Any other submission is submitted. -/
theorem handle_submission (h : r.Submits form body) (hv : Json.parse? body = some v)
    (hdistinct : (Reading.ofText body).source.Distinct)
    (hsub : Submission.ofJson form v = .ok sub)
    (hform : form = .document → sub.graph.isEmpty = false) :
    handle s r = (Response.ofAnswer (s.submit sub).1, (s.submit sub).2) := by
  cases form with
  | document =>
    obtain ⟨d, hd, rfl⟩ := Submission.ofJson_document_eq_ok_iff.1 hsub
    rw [h.handle_document hv, Service.ingestDocument, hd]
    dsimp only
    rw [show d.graph.isEmpty = false from hform rfl]
    rfl
  | graph =>
    obtain ⟨g, hg, rfl⟩ := Submission.ofJson_graph_eq_ok_iff.1 hsub
    refine h.handle_of_call (c := .ingestGraph g) ?_
    show (r.read Graph.decode).map Call.ingestGraph = _
    rw [h.read_ok ((Graph.ofText_eq_ok_iff hv hdistinct).2 hg)]
    rfl

end Request.Submits

theorem statusOf_ne_ok (e : ServiceError) : statusOf e ≠ 200 := by
  unfold statusOf
  split <;> decide

/-- A submission is answered with success exactly if it is valid and stored, and what the store
keeps of one that is valid is kept. -/
theorem status_submit_of_valid {report : Report} (hcheck : sub.check s.strict = .ok report) :
    ((Response.ofAnswer (s.submit sub).1).status = 200 ↔
      ∃ written, (sub.store s.store).1 = .ok written) ∧
    (s.submit sub).2.store = (sub.store s.store).2 := by
  rw [Service.submit, hcheck]
  dsimp only
  cases hstore : sub.store s.store with
  | mk result t =>
    cases result with
    | ok written => exact ⟨iff_of_true rfl ⟨written, rfl⟩, rfl⟩
    | error e => exact ⟨iff_of_false (statusOf_ne_ok _) (by simp), rfl⟩

theorem status_submit_of_invalid {report : Report} (hcheck : sub.check s.strict = .error report) :
    (Response.ofAnswer (s.submit sub).1).status ≠ 200 ∧ (s.submit sub).2 = s := by
  rw [Service.submit, hcheck]
  exact ⟨(by decide : 422 ≠ 200), rfl⟩

/-- An empty graph is stored, which changes nothing. -/
theorem submit_of_isEmpty (hempty : sub.graph.isEmpty = true) :
    (Response.ofAnswer (s.submit sub).1).status = 200 ∧ (s.submit sub).2.store = s.store := by
  obtain ⟨g, issues⟩ := sub
  obtain rfl : g = .empty := Graph.isEmpty_iff.1 hempty
  have hcheck : Submission.check ⟨.empty, issues⟩ s.strict = .ok (Graph.empty.validate s.strict) :=
    Submission.check_eq_ok_iff.2 ⟨rfl, by cases s.strict <;> decide⟩
  obtain ⟨hstatus, hstore⟩ := status_submit_of_valid hcheck
  exact ⟨hstatus.2 ⟨_, rfl⟩, hstore⟩

end Http

/-! ## On the command line -/

namespace CommandLine

/-- The store of a session that can change it. -/
def Session.store? : Session → Option TableStore
  | .fleeting s | .kept _ _ _ s => some s
  | .readOnly _ | .bare => none

/-- After a session, its store is in its file, if it is kept. -/
def Session.Leaves (t : TableStore) (w : Workspace) : Session → Prop
  | .kept l logged _ _ => w.file? l = some (.database t logged)
  | .fleeting _ | .readOnly _ | .bare => True

variable {w w₁ : Workspace} {stdin database input text : String} {form : Form} {strict : Bool}
  {v : Json} {sub : Submission} {session : Session} {s : TableStore}

/-- The session of an ingest ends with the store that the ingest leaves. -/
theorem Session.run_ingest (hs : session.store? = some s)
    (hplace : ∀ l logged journaled, session = .kept l logged journaled s → l ≠ .nullDevice)
    (sub : Submission) (w : Workspace) :
    (((Job.ingest sub).outcome (session.run (.ingest sub)).1).code = 0 ↔
      ∃ written, (sub.store s).1 = .ok written) ∧
    session.Leaves (sub.store s).2 (w.close (session.run (.ingest sub)).2) := by
  have hrun : ((Job.ingest sub).run s).2 = (sub.store s).2 ∧
      (((Job.ingest sub).outcome ((Job.ingest sub).run s).1).code = 0 ↔
        ∃ written, (sub.store s).1 = .ok written) := by
    rw [Job.run]
    cases sub.store s with
    | mk result t =>
      cases result with
      | ok written => exact ⟨rfl, iff_of_true rfl ⟨written, rfl⟩⟩
      | error e => exact ⟨rfl, iff_of_false (by decide : 3 ≠ 0) (by simp)⟩
  cases session with
  | fleeting t =>
    cases hs
    exact ⟨hrun.2, trivial⟩
  | kept l logged journaled t =>
    cases hs
    refine ⟨hrun.2, ?_⟩
    rw [← hrun.1]
    exact w.file?_close (hplace l logged journaled rfl) logged _ _
  | readOnly => cases hs
  | bare => cases hs

section

variable (hinput : w.readInput stdin input = .ok text) (hv : Json.parse? text = some v)

include hinput hv

theorem run_malformed {fault : Json.Fault} (hsub : Submission.ofJson form v = .error fault) :
    w.run stdin (.ingest database input form strict) = (.failed (.malformed form fault), w) := by
  simp [Workspace.run, Command.plan, hinput, valueOfInput, hv, submissionOf, hsub, bind,
    Except.bind]

variable (hsub : Submission.ofJson form v = .ok sub)

include hsub

theorem plan_ingest : (Command.ingest database input form strict).plan (w.readInput stdin) =
    planIngest database sub strict := by
  simp [Command.plan, hinput, valueOfInput, hv, submissionOf, hsub, bind, Except.bind]

theorem run_nothing (hempty : sub.graph.isEmpty = true) :
    w.run stdin (.ingest database input form strict) = (.failed .nothingToStore, w) := by
  rw [Workspace.run, plan_ingest hinput hv hsub, planIngest, if_pos hempty]

variable (hsome : sub.graph.isEmpty = false)

include hsome

theorem run_invalid {report : Report} (hcheck : sub.check strict = .error report) :
    w.run stdin (.ingest database input form strict) =
      ({ warnings := sub.issues, failure := some (.schemaViolation report) }, w) := by
  rw [Workspace.run, plan_ingest hinput hv hsub, planIngest, hsome, hcheck]
  rfl

theorem run_valid {report : Report} (hcheck : sub.check strict = .ok report)
    (hopen : w.openNamed database = (.ok session, w₁)) :
    w.run stdin (.ingest database input form strict) =
      ((Job.ingest sub).outcome (session.run (.ingest sub)).1,
        w₁.close (session.run (.ingest sub)).2) := by
  rw [Workspace.run, plan_ingest hinput hv hsub, planIngest, hsome, hcheck]
  simp [hopen]

end

/-! ## Both -/

/-- An ingest on the command line, which starts with the files `w` and the store `s` of a session,
and one over HTTP, which starts with the same store, come to the same. -/
structure IngestsAlike (form : Form) (v : Json) (w : Workspace) (session : Session) (s : TableStore)
    (ran : Outcome × Workspace) (handled : Http.Response × Service TableStore) : Prop where
  /-- They succeed together, but for an empty graph. -/
  success : (form = .graph → Graph.ofJson v ≠ .ok .empty) →
    (ran.1.code = 0 ↔ handled.1.status = 200)
  /-- An empty graph is refused on the command line and stored over HTTP, which changes nothing. -/
  empty : form = .graph → Graph.ofJson v = .ok .empty →
    ran.1.code = 1 ∧ handled.1.status = 200 ∧ ran.2 = w ∧ handled.2.store = s
  /-- Either nothing is changed or the same is stored. -/
  store : ran.2 = w ∧ handled.2.store = s ∨ session.Leaves handled.2.store ran.2

/-- A value that is ingested on the command line and over HTTP, in the same form and under the same
checks, into the same store, is stored or refused alike.  Its text is nested no deeper than
`Json.maxDepth`, or it would be the text of no value. -/
theorem ingest_as_over_http {w w₁ : Workspace} {stdin database input text body : String}
    {form : Form} {strict : Bool} {v : Json} {session : Session} {s : TableStore}
    {r : Http.Request} (hinput : w.readInput stdin input = .ok text)
    (htext : Json.parse? text = some v) (hopen : w.openNamed database = (.ok session, w₁))
    (hstore : session.store? = some s) (hr : r.Submits form body)
    (hbody : Json.parse? body = some v) (hdistinct : (Reading.ofText body).source.Distinct) :
    IngestsAlike form v w session s (w.run stdin (.ingest database input form strict))
      (Http.handle ⟨s, strict⟩ r) := by
  cases hsub : Submission.ofJson form v with
  | error fault =>
    obtain ⟨hstatus, hservice⟩ := hr.handle_malformed (s := ⟨s, strict⟩) hbody hdistinct hsub
    rw [run_malformed hinput htext hsub]
    refine ⟨fun _ => iff_of_false (by decide : 1 ≠ 0) hstatus, ?_, .inl ⟨rfl, by rw [hservice]⟩⟩
    rintro rfl hempty
    rw [Submission.ofJson, hempty] at hsub
    cases hsub
  | ok sub =>
    cases hsome : sub.graph.isEmpty with
    | true =>
      rw [run_nothing hinput htext hsub hsome]
      cases form with
      | document =>
        obtain ⟨hstatus, hservice⟩ := hr.handle_nothing (s := ⟨s, strict⟩) hbody hsub hsome
        exact ⟨fun _ => iff_of_false (by decide : 1 ≠ 0) hstatus, nofun,
          .inl ⟨rfl, by rw [hservice]⟩⟩
      | graph =>
        rw [hr.handle_submission hbody hdistinct hsub nofun]
        obtain ⟨hstatus, hservice⟩ := Http.submit_of_isEmpty (s := ⟨s, strict⟩) hsome
        refine ⟨fun hne => ?_, fun _ _ => ⟨rfl, hstatus, rfl, hservice⟩, .inl ⟨rfl, hservice⟩⟩
        obtain ⟨g, hg, rfl⟩ := Submission.ofJson_graph_eq_ok_iff.1 hsub
        exact absurd (Graph.isEmpty_iff.1 hsome ▸ hg) (hne rfl)
    | false =>
      rw [hr.handle_submission hbody hdistinct hsub fun _ => hsome]
      have hnot : form = .graph → Graph.ofJson v ≠ .ok .empty := by
        rintro rfl hempty
        obtain ⟨g, hg, rfl⟩ := Submission.ofJson_graph_eq_ok_iff.1 hsub
        cases hempty.symm.trans hg
        cases hsome
      cases hcheck : sub.check strict with
      | error report =>
        obtain ⟨hstatus, hservice⟩ := Http.status_submit_of_invalid (s := ⟨s, strict⟩) hcheck
        rw [run_invalid hinput htext hsub hsome hcheck]
        exact ⟨fun _ => iff_of_false (by decide : 2 ≠ 0) hstatus,
          fun hform hempty => absurd hempty (hnot hform), .inl ⟨rfl, by rw [hservice]⟩⟩
      | ok report =>
        obtain ⟨hstatus, hservice⟩ := Http.status_submit_of_valid (s := ⟨s, strict⟩) hcheck
        rw [run_valid hinput htext hsub hsome hcheck hopen]
        have hplace : ∀ l logged journaled, session = .kept l logged journaled s →
            l ≠ .nullDevice := by
          rintro l logged journaled rfl
          exact Workspace.kept_ne_nullDevice hopen
        obtain ⟨hcode, hleaves⟩ := Session.run_ingest hstore hplace sub w₁
        exact ⟨fun _ => hcode.trans hstatus.symm, fun hform hempty => absurd hempty (hnot hform),
          .inr (hservice ▸ hleaves)⟩

/-- A graph whose edge has an empty label. -/
def misspelledRequest : Http.Request where
  method := .post
  target := "/ingestPgJson"
  contentType := some "application/json"
  body := "\x7b\"nodes\":[\x7b\"id\":\"n\",\"labels\":[\"Dataset\"]\x7d]," ++
    "\"edges\":[\x7b\"from\":\"n\",\"to\":\"n\",\"labels\":[\"\"]\x7d]\x7d"

/-- It fails in the second pass, either way, and what the first pass wrote is kept. -/
theorem ingest_as_over_http_misspelled :
    ∃ v, Json.parse? misspelledRequest.body = some v ∧
      IngestsAlike .graph v (.ofStore (sharing ["a", "b"]))
        (.kept ⟨.above 0, ["d"]⟩ true false (sharing ["a", "b"])) (sharing ["a", "b"])
        ((Workspace.ofStore (sharing ["a", "b"])).run misspelledRequest.body
          (.ingest "d" "-" .graph true))
        (Http.handle ⟨sharing ["a", "b"], true⟩ misspelledRequest) ∧
      ((Workspace.ofStore (sharing ["a", "b"])).run misspelledRequest.body
        (.ingest "d" "-" .graph true)).1.code = 3 ∧
      (Http.handle (⟨sharing ["a", "b"], true⟩ : Service TableStore) misspelledRequest).1.status =
        400 ∧
      (Http.handle (⟨sharing ["a", "b"], true⟩ : Service TableStore) misspelledRequest).2.store ≠
        sharing ["a", "b"] := by
  obtain ⟨v, hv⟩ : ∃ v, Json.parse? misspelledRequest.body = some v :=
    Option.isSome_iff_exists.1 (by decide +kernel)
  have hsubmits : misspelledRequest.Submits .graph misspelledRequest.body :=
    ⟨rfl, by decide +kernel, by decide +kernel, rfl⟩
  have hdistinct : (Reading.ofText misspelledRequest.body).source.Distinct := by
    cbv
    decide
  refine ⟨v, hv, ?_, by decide +kernel, by decide +kernel, by decide +kernel⟩
  exact ingest_as_over_http rfl hv (Workspace.openNamed_ofStore _) rfl hsubmits hv hdistinct

end CommandLine

end DatasetGraph
