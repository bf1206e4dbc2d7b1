/-!
# Labels

A node says what it is by its labels.  Twenty labels are registered; a label of a node is *allowed*
if it is the token of a registered one, or such a token behind the name of a known vocabulary and a
colon, as in `cr:FileObject`.  Any text can be a label of a node, so labels of nodes stay texts and
`Label` is the register they are checked against.
-/

namespace DatasetGraph

/-- The registered labels. -/
inductive Label where
  | dataset
  | data
  | dataPart
  | fileSet
  | fileObject
  | databaseConnection
  | relationalDatabase
  | textSet
  | imageSet
  | csv
  | table
  | field
  | column
  | pdf
  | recordSet
  | statistics
  | user
  | task
  | analyticalPattern
  | operator
deriving DecidableEq

namespace Label

/-- Every registered label, in the order of the register. -/
def all : List Label :=
  [.dataset, .data, .dataPart, .fileSet, .fileObject, .databaseConnection, .relationalDatabase,
    .textSet, .imageSet, .csv, .table, .field, .column, .pdf, .recordSet, .statistics, .user,
    .task, .analyticalPattern, .operator]

/-- How a graph spells the label. -/
def token : Label → String
  | .dataset => "Dataset"
  | .data => "Data"
  | .dataPart => "DataPart"
  | .fileSet => "FileSet"
  | .fileObject => "FileObject"
  | .databaseConnection => "DatabaseConnection"
  | .relationalDatabase => "RelationalDatabase"
  | .textSet => "TextSet"
  | .imageSet => "ImageSet"
  | .csv => "CSV"
  | .table => "Table"
  | .field => "Field"
  | .column => "Column"
  | .pdf => "PDF"
  | .recordSet => "RecordSet"
  | .statistics => "Statistics"
  | .user => "User"
  | .task => "Task"
  | .analyticalPattern => "Analytical_Pattern"
  | .operator => "Operator"

/-- The vocabularies whose name may stand before a token. -/
def vocabularies : List String := ["sc", "cr", "schema"]

/-- The label of a token. -/
def parse? (token : String) : Option Label := all.find? fun l => l.token = token

/-- What stands before the first colon and after it, if there is one. -/
def splitAtColon? (text : String) : Option (String × String) :=
  match text.toList.dropWhile (· ≠ ':') with
  | _ :: after => some (String.ofList (text.toList.takeWhile (· ≠ ':')), String.ofList after)
  | [] => none

/-- The label of a token behind the name of a known vocabulary. -/
def parseQualified? (text : String) : Option Label :=
  match splitAtColon? text with
  | some (vocabulary, token) => if vocabulary ∈ vocabularies then parse? token else none
  | none => none

/-- The label that a text names, with or without a vocabulary. -/
def resolve? (text : String) : Option Label :=
  match parse? text with
  | some l => some l
  | none => parseQualified? text

/-- Whether a text may be a label of a node. -/
def isAllowed (text : String) : Bool := (resolve? text).isSome

theorem mem_all (l : Label) : l ∈ all := by cases l <;> decide

theorem token_injective {l m : Label} (h : l.token = m.token) : l = m := by
  revert h
  cases l <;> cases m <;> decide

@[simp] theorem parse?_token (l : Label) : parse? l.token = some l := by cases l <;> decide

theorem parse?_eq_some_iff {s : String} {l : Label} : parse? s = some l ↔ s = l.token := by
  constructor
  · intro h
    have := List.find?_some h
    exact (of_decide_eq_true this).symm
  · rintro rfl
    exact parse?_token l

end Label

end DatasetGraph
