import DatasetGraph.CommandLine.Arguments
import DatasetGraph.Submission

/-!
# Commands

The first argument names the command, the others are its arguments.  Documents and graphs are read
from a file or, if its name is a hyphen, from the standard input.
-/

namespace DatasetGraph.CommandLine

/-- What the program can be asked to do. -/
inductive Command where
  /-- Print the graph of a document. -/
  | convert (input : String) (withIssues : Bool)
  /-- Print the report on a graph. -/
  | validate (input : String) (strict : Bool)
  /-- Store a document or a graph. -/
  | ingest (database input : String) (form : Form) (strict : Bool)
  /-- Print a page of datasets. -/
  | query (database filter : String)
  /-- Delete the datasets with the given ids, or `all` of them. -/
  | delete (database : String) (ids : List String) (all : Bool)
deriving DecidableEq

namespace Command

/-- The file that the command reads. -/
def input? : Command → Option String
  | .convert input _ | .validate input _ | .ingest _ input _ _ => some input
  | .query _ _ | .delete _ _ _ => none

/-- The option that names the database. -/
def databaseFlag : Flag := ⟨"db", some 'd', true⟩

/-- The database that is used if none is named. -/
def defaultDatabase : String := "moma.db"

/-- The option that accepts unknown labels. -/
def lenientFlag : Flag := ⟨"lenient", none, false⟩

/-- Read the arguments of `convert`. -/
def readConvert (args : List String) : Except Refusal Command := do
  let a ← Arguments.read ⟨[⟨"issues", none, false⟩], some 1⟩ args
  return .convert (← a.operand) (a.has "issues")

/-- Read the arguments of `validate`. -/
def readValidate (args : List String) : Except Refusal Command := do
  let a ← Arguments.read ⟨[lenientFlag], some 1⟩ args
  return .validate (← a.operand) (!a.has "lenient")

/-- Read the arguments of `ingest`. -/
def readIngest (args : List String) : Except Refusal Command := do
  let a ← Arguments.read
    ⟨[databaseFlag, lenientFlag, ⟨"pg-json", none, false⟩], some 1⟩ args
  return .ingest (a.value "db" defaultDatabase) (← a.operand)
    (if a.has "pg-json" then .graph else .document) (!a.has "lenient")

/-- Read the arguments of `query`. -/
def readQuery (args : List String) : Except Refusal Command := do
  let a ← Arguments.read ⟨[databaseFlag, ⟨"filter", some 'f', true⟩], some 0⟩ args
  return .query (a.value "db" defaultDatabase) (a.value "filter" "\x7b\x7d")

/-- Read the arguments of `delete`. -/
def readDelete (args : List String) : Except Refusal Command := do
  let a ← Arguments.read ⟨[databaseFlag, ⟨"all", none, false⟩], none⟩ args
  return .delete (a.value "db" defaultDatabase) a.operands (a.has "all")

/-- The names of the commands, and how the arguments of each are read. -/
def readers : List (String × (List String → Except Refusal Command)) :=
  [("convert", readConvert), ("validate", readValidate), ("ingest", readIngest),
    ("query", readQuery), ("delete", readDelete)]

/-- Why help is not given, or that it is: it is asked for a command or for nothing in particular. -/
def helpOn : List String → Refusal
  | [] => .help
  | [name] => if name = "help" ∨ (readers.lookup name).isSome then .help else .usage
  | _ => .usage

/-- Why a first argument that names no command is not carried out. -/
def refusalOf (name : String) : Refusal :=
  match Arguments.none.add ⟨[], none⟩ name (Word.of name) with
  | .error refusal => refusal
  | .ok _ => .usage

/-- The command of the arguments of the program. -/
def ofArguments : List String → Except Refusal Command
  | [] => .error .usage
  | name :: args =>
    match readers.lookup name with
    | some read => read args
    | none => .error (if name = "help" then helpOn args else refusalOf name)

example : ofArguments ["convert", "a", "b", "--help"] = .error .usage := by cbv
example : ofArguments ["convert", "a", "--help", "b"] = .error .help := by cbv
example : (ofArguments ["delete", "a", "-d=x", "--", "-b"]).toOption =
    some (.delete "x" ["a", "-b"] false) := by decide +kernel

end Command

end DatasetGraph.CommandLine
