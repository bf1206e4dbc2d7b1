import DatasetGraph.Document.Decode
import DatasetGraph.Query.Page
import DatasetGraph.Store.Lifecycle
import DatasetGraph.Submission

/-!
# The service

The service holds one store and answers calls on it, one after the other.  A call carries what its
request said, already read; only the document of an ingest is read here, because what is wrong with
it is reported like everything else.

Every call answers with a value or with an error.  A call that is refused before the store is asked
leaves the store as it was.
-/

namespace DatasetGraph

/-- What a client can ask for. -/
inductive Call where
  /-- Whether the service is up. -/
  | health
  /-- Convert a document and store its graph. -/
  | ingestDocument (document : Json)
  /-- Store a graph. -/
  | ingestGraph (graph : Graph)
  /-- Check a graph and store nothing. -/
  | validate (graph : Graph)
  /-- Return one node. -/
  | retrieve (id : String)
  /-- Answer a query. -/
  | query (query : Query)
  /-- Change properties of stored nodes. -/
  | update (graph : Graph)
  /-- Delete the datasets with some ids, or all of them. -/
  | delete (ids : List String)
deriving DecidableEq

/-! ## Answers -/

/-- Why a call has no answer. -/
inductive ServiceError where
  /-- The value is no document. -/
  | malformedDocument (fault : Json.Fault)
  /-- The document says nothing that can be stored. -/
  | nothingToStore
  /-- The graph does not meet the schema. -/
  | schemaViolation (report : Report)
  /-- The store does not do what it was asked. -/
  | store (error : StoreError)
  /-- The query names something unknown. -/
  | invalidQuery (fault : QueryFault)
deriving DecidableEq

namespace ServiceError

/-- The class of the error, for programs. -/
def code : ServiceError → String
  | .schemaViolation _ => "SCHEMA_VIOLATION"
  | .store .unreadable => "INTERNAL_ERROR"
  | _ => "BAD_REQUEST"

/-- The wording of the error. -/
def message : ServiceError → String
  | .malformedDocument fault => Document.faultMessage fault
  | .nothingToStore => "document has no dataset identifier"
  | .schemaViolation r =>
    toString r.invalidNodes.length ++ " invalid node(s), " ++ toString r.unknownLabels.length ++
      " with unknown labels, " ++ toString r.nodesWithoutLabels.length ++ " without labels"
  | .store e => e.message
  | .invalidQuery fault => "invalid filter: " ++ fault.message

/-- What else is known of the error. -/
def details : ServiceError → List (String × Json)
  | .schemaViolation r => [("details", r.toJson)]
  | _ => []

/-- The error as it is written. -/
def toJson (e : ServiceError) : Json :=
  .obj [("success", .bool false),
    ("error", .obj ([("code", .str e.code), ("message", .str e.message)] ++ e.details))]

/-- The error of a query. -/
def ofQuery : QueryError → ServiceError
  | .refused fault => .invalidQuery fault
  | .store e => .store e

end ServiceError

/-- What was done with a submission. -/
structure Receipt where
  written : IngestStatus
  issues : List Issue
  validation : Report
deriving DecidableEq

/-- The answers to calls. -/
inductive Answer where
  | healthy
  | stored (receipt : Receipt)
  | validated (report : Report)
  | retrieved (graph : Graph)
  | page (page : Page)
  | updated (count : Nat)
  | deleted (status : DeleteStatus)
deriving DecidableEq

/-- Mark the answer to a change of the store. -/
def success (fields : List (String × Json)) : Json := .obj (("status", .str "success") :: fields)

/-- The answer as it is written. -/
def Answer.toJson : Answer → Json
  | .healthy => .obj [("message", .str "MoMa API is up and running")]
  | .stored r =>
    success [("written", r.written.toJson), ("issues", .arr (r.issues.map Issue.toJson)),
      ("validation", r.validation.toJson)]
  | .validated r => .obj [("validation", r.toJson)]
  | .retrieved g => .obj [("metadata", g.toJson)]
  | .page p => p.toJson
  | .updated n => success [("updated", .ofNat n)]
  | .deleted s => success [("deletedCount", .ofNat s.deleted), ("roots", .ofTexts s.roots)]

/-! ## Performing calls -/

/-- A store that is served. -/
structure Service (σ : Type) where
  store : σ
  /-- Whether a graph with unknown labels is refused. -/
  strict : Bool
deriving DecidableEq

namespace Service

variable {σ : Type} [Backend σ]

/-- A service whose store is empty. -/
def empty (strict : Bool) : Service σ := ⟨Backend.empty, strict⟩

/-- Store a submission that meets the schema. -/
def submit (s : Service σ) (sub : Submission) : Except ServiceError Answer × Service σ :=
  match sub.check s.strict with
  | .error report => (.error (.schemaViolation report), s)
  | .ok report =>
    match sub.store s.store with
    | (.ok written, store) => (.ok (.stored ⟨written, sub.issues, report⟩), { s with store })
    | (.error e, store) => (.error (.store e), { s with store })

/-- Store the graph of a document. -/
def ingestDocument (s : Service σ) (v : Json) : Except ServiceError Answer × Service σ :=
  match Document.ofJson v with
  | .error fault => (.error (.malformedDocument fault), s)
  | .ok d =>
    if d.graph.isEmpty then (.error .nothingToStore, s) else s.submit (.ofDocument d)

/-- An answer of the store that leaves the store as it was. -/
def reading {α : Type} (s : Service σ) (answer : α → Answer) :
    Except StoreError α → Except ServiceError Answer × Service σ
  | .ok a => (.ok (answer a), s)
  | .error e => (.error (.store e), s)

/-- Answer a query. -/
def query (s : Service σ) (q : Query) : Except ServiceError Answer × Service σ :=
  match Store.query s.store q with
  | .ok p => (.ok (.page p), s)
  | .error e => (.error (.ofQuery e), s)

/-- Change properties of stored nodes. -/
def update (s : Service σ) (g : Graph) : Except ServiceError Answer × Service σ :=
  match Store.updateProperties s.store g with
  | .ok (n, store) => (.ok (.updated n), { s with store })
  | .error e => (.error (.store e), s)

/-- Delete datasets. -/
def delete (s : Service σ) (ids : List String) : Except ServiceError Answer × Service σ :=
  match Store.cascadeDelete s.store ids with
  | .ok (status, store) => (.ok (.deleted status), { s with store })
  | .error e => (.error (.store e), s)

/-- Answer a call. -/
def perform (s : Service σ) : Call → Except ServiceError Answer × Service σ
  | .health => (.ok .healthy, s)
  | .ingestDocument v => s.ingestDocument v
  | .ingestGraph g => s.submit (.ofGraph g)
  | .validate g => (.ok (.validated (g.validate s.strict)), s)
  | .retrieve id => s.reading .retrieved (Store.readNode s.store id)
  | .query q => s.query q
  | .update g => s.update g
  | .delete ids => s.delete ids

end Service

end DatasetGraph
