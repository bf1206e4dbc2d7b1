import DatasetGraph.Graph.Decode
import DatasetGraph.Http.Message
import DatasetGraph.Service

/-!
# The service over HTTP

Each kind of call has a path and a method.  A request is either answered at once, because it asks
for nothing that is offered or cannot be read, or it is a call, and the answer to the call is the
response.  Any page may ask the service, so a request for options is granted everywhere.
-/

namespace DatasetGraph.Http

/-! ## From requests to calls -/

/-- What is offered at a path. -/
inductive Route where
  | root
  | ingestDocument
  | ingestGraph
  | validate
  | metadata
  | update
  | delete
deriving DecidableEq

namespace Route

/-- Every route. -/
def all : List Route :=
  [.root, .ingestDocument, .ingestGraph, .validate, .metadata, .update, .delete]

/-- The path of the route. -/
def path : Route → String
  | .root => "/"
  | .ingestDocument => "/ingestProfile2MoMa"
  | .ingestGraph => "/ingestPgJson"
  | .validate => "/validatePgJson"
  | .metadata => "/retrieveMoMaMetadata"
  | .update => "/updateMoMaProperties"
  | .delete => "/deleteMoMaDatasets"

/-- The route of a path. -/
def ofPath? (path : String) : Option Route := all.find? fun r => r.path = path

end Route

/-- The ids of the datasets to delete, which may be left out of the members of an object. -/
def Deletion.take (ids : Option (List String)) (key : String) (s : Json.Source) :
    Except Json.Fault (Option (List String)) :=
  if key = "ids" then Json.Decoder.field "ids" ids Json.Decoder.texts s
  else do
    Json.Decoder.skip s
    return ids

/-- The ids in the members of an object. -/
def Deletion.ofMembers (ms : List (Option String × Json.Source)) (ending : Json.Ending) :
    Except Json.Fault (List String) := do
  return (← Json.Decoder.members Deletion.take none ms ending).getD []

/-- The ids as the only item of a list. -/
def Deletion.ofItems (items : List Json.Source) (ending : Json.Ending) :
    Except Json.Fault (List String) := do
  let (ids, rest) ← Json.Decoder.takeItem Json.Decoder.texts ending items
  Json.Decoder.noMoreItems items.length ending rest
  return ids.getD []

/-- Read the ids of the datasets to delete. -/
def Deletion.decode : Json.Decoder (List String) :=
  Json.Decoder.record "DeleteRequest" Deletion.ofMembers Deletion.ofItems

namespace Request

/-- The call for the node that the query names. -/
def retrieval (r : Request) : Except Response Call :=
  match r.field? "id" with
  | some id => .ok (.retrieve id)
  | none => .error (.bare 400)

/-- The call of a body. -/
def bodyCall {α : Type} (r : Request) (d : Json.Decoder α) (call : α → Call) :
    Except Response Call :=
  (r.read d).map call

/-- The call of a request at a route, or the response if there is none. -/
def callAt (r : Request) : Route → Method → Except Response Call
  | .root, .get | .root, .head => .ok .health
  | .ingestDocument, .post => r.bodyCall Json.Decoder.value .ingestDocument
  | .ingestGraph, .post => r.bodyCall Graph.decode .ingestGraph
  | .validate, .post => r.bodyCall Graph.decode .validate
  | .metadata, .get | .metadata, .head => r.retrieval
  | .metadata, .post => r.bodyCall Query.decode .query
  | .update, .post => r.bodyCall Graph.decode .update
  | .delete, .post => r.bodyCall Deletion.decode .delete
  | _, _ => .error (.bare 405)

/-- The call of a request, or the response if there is none. -/
def call (r : Request) : Except Response Call :=
  if r.method = .options then .error (.bare 200)
  else
    match Route.ofPath? r.path with
    | some route => r.callAt route r.method
    | none => .error (.bare 404)

end Request

/-! ## From answers to responses -/

/-- The status of an error. -/
def statusOf : ServiceError → Nat
  | .schemaViolation _ => 422
  | .store .unreadable => 500
  | _ => 400

namespace Response

/-- The response to a call. -/
def ofAnswer : Except ServiceError Answer → Response
  | .ok a => ⟨200, some a.toJson⟩
  | .error e => ⟨statusOf e, some e.toJson⟩

/-- The response to a request with the given method. -/
def answering (r : Response) (m : Method) : Response := if m = .head then .bare r.status else r

end Response

/-- Answer a request. -/
def handle {σ : Type} [Backend σ] (s : Service σ) (r : Request) : Response × Service σ :=
  match r.call with
  | .error response => (response.answering r.method, s)
  | .ok call =>
    let (answer, s) := s.perform call
    ((Response.ofAnswer answer).answering r.method, s)

/-- Answer requests one after the other. -/
def handleAll {σ : Type} [Backend σ] : Service σ → List Request → List Response × Service σ
  | s, [] => ([], s)
  | s, r :: rs =>
    let (response, s) := handle s r
    let (responses, s) := handleAll s rs
    (response :: responses, s)

end DatasetGraph.Http
