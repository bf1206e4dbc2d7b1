import DatasetGraph.Conversion
import DatasetGraph.Document.Decode
import DatasetGraph.Graph.Decode
import DatasetGraph.Schema
import DatasetGraph.Store.Exchange

/-!
# Submissions

What is given to be stored is a graph: one that was written as such, or one that a document was
converted to.  Before it is stored it is checked against the schema of labels, and refused if the
report is not valid.
-/

namespace DatasetGraph

/-- How a submission is written. -/
inductive Form where
  /-- As a document, which has to be converted. -/
  | document
  /-- As the graph itself. -/
  | graph
deriving DecidableEq

/-- How a submission that cannot be read is reported. -/
def Form.faultMessage : Form → Json.Fault → String
  | .document => Document.faultMessage
  | .graph => Graph.faultMessage

/-- A graph to be stored. -/
structure Submission where
  graph : Graph
  /-- What was passed over when a document was converted to the graph. -/
  issues : List Issue
deriving DecidableEq

namespace Submission

/-- The submission of a document. -/
def ofDocument (d : Document) : Submission := ⟨d.graph, d.issues⟩

/-- The submission of a graph. -/
def ofGraph (g : Graph) : Submission := ⟨g, []⟩

/-- The submission of a value. -/
def ofJson : Form → Json → Except Json.Fault Submission
  | .document, v => (Document.ofJson v).map ofDocument
  | .graph, v => (Graph.ofJson v).map ofGraph

/-- Check the graph: its report, as an error if it is not valid. -/
def check (s : Submission) (strict : Bool) : Except Report Report :=
  let report := s.graph.validate strict
  if report.isValid then .ok report else .error report

/-- Write the graph to a store. -/
def store {σ : Type} [Backend σ] (s : Submission) (into : σ) :
    Except StoreError IngestStatus × σ := Store.ingest into s.graph

theorem check_eq_ok_iff {s : Submission} {strict : Bool} {r : Report} :
    s.check strict = .ok r ↔ s.graph.validate strict = r ∧ r.isValid = true := by
  simp only [check]
  constructor
  · split
    · rintro ⟨⟩
      exact ⟨rfl, by assumption⟩
    · rintro ⟨⟩
  · rintro ⟨rfl, h⟩
    rw [if_pos h]

end Submission

end DatasetGraph
