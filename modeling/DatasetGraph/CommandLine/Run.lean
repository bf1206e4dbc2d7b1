import DatasetGraph.CommandLine.Command
import DatasetGraph.CommandLine.DatabaseFile
import DatasetGraph.Query.Page
import DatasetGraph.Store.Lifecycle
import DatasetGraph.Text.Quoted

/-!
# Running commands

A command first reads and checks what it was given; only then, if it has to, it opens its database
and does its job there.  What was passed over in the conversion of a document is reported as
warnings, even when the job fails.

The outcome is at most one value to print, lines for the standard error, and an exit code: 0 for
success, 1 for a bad input, 2 for a graph that does not meet the schema, 3 for a file or a store
that fails.
-/

namespace DatasetGraph.CommandLine

/-! ## Failures -/

/-- Why a job on a database fails. -/
inductive JobFault where
  | store (error : StoreError)
  /-- It asks for a change of a database that is only read. -/
  | readOnly
  /-- It asks for a table that is not there. -/
  | noTable (name : String)
deriving DecidableEq

/-- The wording of the fault. -/
def JobFault.message : JobFault → String
  | .store e => e.message
  | .readOnly => "sqlite error: " ++ DatabaseFault.readOnly.message
  | .noTable name => "sqlite error: no such table: " ++ name

/-- Why a command fails. -/
inductive Failure where
  | unreadable (path : String) (fault : FileFault)
  | notJson (path : String)
  | malformed (form : Form) (fault : Json.Fault)
  | nothingToStore
  /-- A graph was to be stored that does not meet the schema. -/
  | schemaViolation (report : Report)
  /-- A graph was to be checked that does not meet the schema, which its report says. -/
  | notValid
  | unopenable (name : String) (fault : OpeningFault)
  | notStored (fault : JobFault)
  | filterNotJson
  | malformedFilter (fault : Json.Fault)
  | refusedFilter (fault : QueryFault)
  | notAnswered (fault : JobFault)
  | noIds
  | notDeleted (fault : JobFault)
deriving DecidableEq

namespace Failure

/-- The exit code. -/
def code : Failure → Nat
  | .notJson _ | .malformed _ _ | .nothingToStore | .filterNotJson | .malformedFilter _
  | .refusedFilter _ | .noIds => 1
  | .schemaViolation _ | .notValid => 2
  | .unreadable _ _ | .unopenable _ _ | .notStored _ | .notAnswered _ | .notDeleted _ => 3

/-- The lines of a report that is not accepted. -/
def reportLines (r : Report) : List String :=
  "Schema validation failed:" ::
    (r.invalidNodes.map fun f => "  - " ++ f.id ++ ": no node kind matches " ++
      Text.quotedList f.labels) ++
    (r.unknownLabels.map fun f => "  - " ++ f.id ++ ": unknown labels in " ++
      Text.quotedList f.labels) ++
    r.nodesWithoutLabels.map fun id => "  - " ++ id ++ ": no labels"

/-- The lines that report the failure. -/
def lines : Failure → List String
  | .unreadable path fault => ["Error: failed to read '" ++ path ++ "': " ++ fault.message]
  | .notJson path => ["Error: '" ++ path ++ "' is not valid JSON"]
  | .malformed form fault => ["Error: " ++ form.faultMessage fault]
  | .nothingToStore => ["Error: nothing to ingest (missing dataset identifier?)"]
  | .schemaViolation report => reportLines report
  | .notValid => []
  | .unopenable name fault =>
    ["Error: failed to open database '" ++ name ++ "': " ++ fault.message name]
  | .notStored fault => ["Error: ingest failed: " ++ fault.message]
  | .filterNotJson => ["Error: invalid filter"]
  | .malformedFilter fault => ["Error: invalid filter: " ++ fault.message]
  | .refusedFilter fault => ["Error: invalid filter: " ++ fault.message]
  | .notAnswered fault => ["Error: query failed: " ++ fault.message]
  | .noIds => ["Error: no dataset ids given (pass --all to delete every dataset)"]
  | .notDeleted fault => ["Error: delete failed: " ++ fault.message]

/-- The failure of a query. -/
def ofQuery : QueryError → Failure
  | .refused fault => .refusedFilter fault
  | .store e => .notAnswered (.store e)

end Failure

/-! ## Outcomes -/

/-- What a command does besides changing its database. -/
structure Outcome where
  warnings : List Issue := []
  output : Option Json := none
  failure : Option Failure := none
deriving DecidableEq

namespace Outcome

/-- A value to print. -/
def printed (v : Json) : Outcome := { output := some v }

/-- A failure. -/
def failed (f : Failure) : Outcome := { failure := some f }

/-- A value to print or a failure. -/
def ofResult : Except Failure Json → Outcome
  | .ok v => printed v
  | .error f => failed f

/-- The exit code. -/
def code (o : Outcome) : Nat := (o.failure.map Failure.code).getD 0

/-- The text for the standard output. -/
def text (o : Outcome) : String :=
  match o.output with
  | some v => v.pretty ++ "\n"
  | none => ""

/-- The lines for the standard error. -/
def lines (o : Outcome) : List String :=
  (o.warnings.map fun i => "warning: " ++ i.toJson.compact) ++
    (o.failure.map Failure.lines).getD []

end Outcome

/-! ## Before the database is opened -/

/-- What is done with a database. -/
inductive Job where
  | ingest (submission : Submission)
  | query (query : Query)
  | delete (ids : List String)
deriving DecidableEq

/-- What a command comes to once its input has been read. -/
inductive Plan where
  | finished (outcome : Outcome)
  | onDatabase (name : String) (job : Job)
deriving DecidableEq

/-- What is reported before the database is opened. -/
def Job.warnings : Job → List Issue
  | .ingest s => s.issues
  | .query _ | .delete _ => []

/-- The value in an input that was read. -/
def valueOfInput (input : String) : Except FileFault String → Except Failure Json
  | .error fault => .error (.unreadable input fault)
  | .ok text =>
    match Json.parse? text with
    | some v => .ok v
    | none => .error (.notJson input)

/-- The submission that a value is. -/
def submissionOf (form : Form) (v : Json) : Except Failure Submission :=
  match Submission.ofJson form v with
  | .ok s => .ok s
  | .error fault => .error (.malformed form fault)

/-- What is printed of a conversion. -/
def conversionJson (s : Submission) (withIssues : Bool) : Json :=
  if withIssues then
    Json.sortKeys (.obj [("graph", s.graph.toJson), ("issues", .arr (s.issues.map Issue.toJson))])
  else s.graph.toJson

/-- The outcome of a validation. -/
def validation (s : Submission) (strict : Bool) : Outcome :=
  match s.check strict with
  | .ok report => .printed report.toJson
  | .error report => { output := some report.toJson, failure := some .notValid }

/-- The plan for a submission that is to be stored. -/
def planIngest (database : String) (s : Submission) (strict : Bool) : Plan :=
  if s.graph.isEmpty then .finished (.failed .nothingToStore)
  else
    match s.check strict with
    | .ok _ => .onDatabase database (.ingest s)
    | .error report =>
      .finished { warnings := s.issues, failure := some (.schemaViolation report) }

/-- The query of a text. -/
def queryOf (filter : String) : Except Failure Query :=
  match Query.ofText filter with
  | .ok q => .ok q
  | .error fault =>
    if (Json.parse? filter).isSome then .error (.malformedFilter fault) else .error .filterNotJson

/-- The plan of a command, for which `read` reads files. -/
def Command.plan (read : String → Except FileFault String) : Command → Plan
  | .convert input withIssues =>
    match valueOfInput input (read input) >>= submissionOf .document with
    | .ok s => .finished (.printed (conversionJson s withIssues))
    | .error f => .finished (.failed f)
  | .validate input strict =>
    match valueOfInput input (read input) >>= submissionOf .graph with
    | .ok s => .finished (validation s strict)
    | .error f => .finished (.failed f)
  | .ingest database input form strict =>
    match valueOfInput input (read input) >>= submissionOf form with
    | .ok s => planIngest database s strict
    | .error f => .finished (.failed f)
  | .query database filter =>
    match queryOf filter with
    | .ok q => .onDatabase database (.query q)
    | .error f => .finished (.failed f)
  | .delete database ids all =>
    if ids.isEmpty && !all then .finished (.failed .noIds)
    else .onDatabase database (.delete ids)

/-! ## On the database -/

/-- Do a job on a store. -/
def Job.run {σ : Type} [Backend σ] (s : σ) : Job → Except Failure Json × σ
  | .ingest submission =>
    match submission.store s with
    | (.ok status, s) => (.ok status.toJson, s)
    | (.error e, s) => (.error (.notStored (.store e)), s)
  | .query q =>
    match Store.query s q with
    | .ok page => (.ok page.toJson, s)
    | .error e => (.error (.ofQuery e), s)
  | .delete ids =>
    match Store.cascadeDelete s ids with
    | .ok (status, s) => (.ok status.toJson, s)
    | .error e => (.error (.notDeleted (.store e)), s)

/-- The failure of a job that asks for a change of a database that is only read. -/
def Job.refusal : Job → Failure
  | .ingest _ => .notStored .readOnly
  | .query _ => .notAnswered .readOnly
  | .delete _ => .notDeleted .readOnly

/-- Do a job on a store that is only read. -/
def Job.runReadOnly {σ : Type} [Backend σ] (s : σ) (j : Job) : Except Failure Json :=
  let (result, s) := j.run (⟨s, false⟩ : ReadOnly σ)
  if s.refused then .error j.refusal else result

/-- Whether a job asks for a change of a store. -/
def Job.changes {σ : Type} [Backend σ] (s : σ) (j : Job) : Bool :=
  (j.run (⟨s, false⟩ : ReadOnly σ)).2.refused

/-- Do a job without tables.  Nodes are looked for in the table of nodes, and all datasets in the
table of labels. -/
def Job.runBare : Job → Except Failure Json
  | .ingest submission => do
    let refused := fun e => Failure.notStored (.store e)
    let none : TableStore := Backend.empty
    let (nodes, _) ← (Store.upsertNodes none submission.graph).mapError refused
    if nodes.written ≠ 0 then throw (.notStored (.noTable "nodes"))
    let (edges, _) ← (Store.upsertEdges none submission.graph).mapError refused
    if submission.graph.edges.any fun e => !e.labels.isEmpty then
      throw (.notStored (.noTable "nodes"))
    return (IngestStatus.mk nodes edges).toJson
  | .query q =>
    match q.criteria with
    | .error fault => .error (.refusedFilter fault)
    | .ok _ => .error (.notAnswered (.noTable "node_labels"))
  | .delete ids => .error (.notDeleted (.noTable (if ids.isEmpty then "node_labels" else "nodes")))

/-- Do a job in a session. -/
def Session.run (j : Job) : Session → Except Failure Json × Session
  | .fleeting s => (j.run s).map id .fleeting
  | .kept l logged journaled s => (j.run s).map id (.kept l logged (journaled && j.changes s))
  | .readOnly s => (j.runReadOnly s, .readOnly s)
  | .bare => (j.runBare, .bare)

/-- The outcome of a job. -/
def Job.outcome (j : Job) (result : Except Failure Json) : Outcome :=
  { Outcome.ofResult result with warnings := j.warnings }

/-- Read a file or the standard input, which is also named by a hyphen. -/
def Workspace.readInput (w : Workspace) (stdin input : String) : Except FileFault String :=
  if input = "-" || (w.locate input).toOption.any Location.isStandardInput then .ok stdin
  else w.read input

/-- Run a command. -/
def Workspace.run (w : Workspace) (stdin : String) (c : Command) : Outcome × Workspace :=
  match c.plan (w.readInput stdin) with
  | .finished outcome => (outcome, w)
  | .onDatabase name job =>
    match w.openNamed name with
    | (.error fault, w) => (job.outcome (.error (.unopenable name fault)), w)
    | (.ok session, w) =>
      let (result, session) := session.run job
      (job.outcome result, w.close session)

end DatasetGraph.CommandLine
