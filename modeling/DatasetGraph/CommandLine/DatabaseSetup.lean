import DatasetGraph.CommandLine.DatabaseName
import DatasetGraph.Text.Quoted

/-!
# Setting up a database

A database that is new has no tables.  It gets them by a script of definitions, which are carried out
one after the other, and is then marked with the number of its setup.  A database that is marked with
a greater number than the only one there is was set up by a later program.

A definition cannot be carried out if there is something of its name.  Otherwise it changes the
database, so that the first of them fails if the database cannot be changed.
-/

namespace DatasetGraph.CommandLine

/-! ## Trouble with files -/

/-- What is wrong with the files of a database. -/
inductive DatabaseFault where
  /-- A file that belongs beside it cannot be opened. -/
  | unaccompanied
  /-- The file holds something else. -/
  | notDatabase
  /-- It would have to be changed and is only read. -/
  | readOnly
  /-- What is there has no content to be read or written. -/
  | contentless
  /-- The file starts as a database does and does not go on as one. -/
  | malformed
  /-- It is written in a way that is not known. -/
  | unsupported
  /-- Someone else has locked it. -/
  | locked
  /-- Its log cannot be shared. -/
  | unshared
deriving DecidableEq

namespace DatabaseFault

/-- The wording of the fault. -/
def message : DatabaseFault → String
  | .unaccompanied => "unable to open database file"
  | .notDatabase => "file is not a database"
  | .readOnly => "attempt to write a readonly database"
  | .contentless => "disk I/O error"
  | .malformed => "database disk image is malformed"
  | .unsupported => "unsupported file format"
  | .locked => "database is locked"
  | .unshared => "locking protocol"

/-- The name and the number of the fault. -/
def code : DatabaseFault → String × Nat
  | .unaccompanied => ("CannotOpen", 14)
  | .notDatabase => ("NotADatabase", 26)
  | .readOnly => ("ReadOnly", 8)
  | .contentless => ("SystemIoFailure", 1034)
  | .malformed => ("DatabaseCorrupt", 11)
  | .unsupported => ("Unknown", 1)
  | .locked => ("DatabaseBusy", 5)
  | .unshared => ("FileLockingProtocolFailed", 15)

end DatabaseFault

/-! ## The script -/

/-- The kinds of things that are defined in a database. -/
inductive ObjectKind where
  | table
  | view
  | index
deriving DecidableEq

/-- The word for a kind. -/
def ObjectKind.word : ObjectKind → String
  | .table => "table"
  | .view => "view"
  | .index => "index"

/-- A thing that is defined in a database. -/
structure SchemaObject where
  kind : ObjectKind
  name : String
deriving DecidableEq

/-- A definition in the script: what stands before the name, the thing, and what stands behind it. -/
structure Definition where
  before : String
  object : SchemaObject
  after : String
deriving DecidableEq

/-- The text of a definition. -/
def Definition.text (d : Definition) : String := d.before ++ d.object.name ++ d.after

/-- The definitions that set up a database. -/
def setupScript : List Definition :=
  [{ before :=
      "-- Label-typed property graph.\n--\n-- Node identity is the external id. " ++
      "Labels and relationship types hold\n-- sanitized identifiers; " ++
      "properties are JSON objects.\n\nCREATE TABLE "
     object := ⟨.table, "nodes"⟩
     after := " (\n    id TEXT PRIMARY KEY NOT NULL,\n" ++
      "    properties_json TEXT NOT NULL DEFAULT '\x7b\x7d'\n);" },
    { before := "\n\nCREATE TABLE "
      object := ⟨.table, "node_labels"⟩
      after := " (\n    node_id TEXT NOT NULL REFERENCES nodes(id) ON DELETE CASCADE,\n" ++
        "    label TEXT NOT NULL,\n    PRIMARY KEY (node_id, label)\n);" },
    { before := "\n\nCREATE INDEX "
      object := ⟨.index, "idx_node_labels_label"⟩
      after := " ON node_labels(label);" },
    { before := "\n\nCREATE TABLE "
      object := ⟨.table, "edges"⟩
      after := " (\n    source_id TEXT NOT NULL REFERENCES nodes(id) ON DELETE CASCADE,\n" ++
        "    target_id TEXT NOT NULL REFERENCES nodes(id) ON DELETE CASCADE,\n" ++
        "    rel_type TEXT NOT NULL,\n" ++
        "    properties_json TEXT NOT NULL DEFAULT '\x7b\x7d',\n" ++
        "    PRIMARY KEY (source_id, target_id, rel_type)\n);" },
    { before := "\n\nCREATE INDEX "
      object := ⟨.index, "idx_edges_target"⟩
      after := " ON edges(target_id);" }]

/-- The text of definitions, which ends with a line. -/
def scriptText (ds : List Definition) : String := String.join (ds.map Definition.text) ++ "\n"

/-! ## What cannot be set up -/

/-- Something that has a name which is to be given. -/
structure Clash where
  /-- What is there. -/
  present : SchemaObject
  /-- What was to be defined. -/
  wanted : Definition
  /-- The definitions after that. -/
  rest : List Definition
deriving DecidableEq

/-- Why a database cannot be set up. -/
inductive SetupFault where
  /-- A step before or after the script fails. -/
  | aside (fault : DatabaseFault)
  /-- The script cannot be carried out. -/
  | unchanged (fault : DatabaseFault)
  | clash (clash : Clash)
  /-- It was set up by a later program. -/
  | ahead
deriving DecidableEq

namespace Clash

/-- What stands in the way of the first definition that cannot be carried out, with what has been
defined before. -/
def find? (present : List SchemaObject) : List Definition → Option Clash
  | [] => none
  | d :: ds =>
    match present.find? fun o => o.name.map Char.toLower = d.object.name with
    | some o => some ⟨o, d, ds⟩
    | none => find? (d.object :: present) ds

/-- An empty database has nothing that is in the way. -/
example : find? [] setupScript = none := by decide +kernel

/-- The wording of the clash. -/
def message (c : Clash) : String :=
  let name := c.wanted.object.name
  match c.present.kind, c.wanted.object.kind with
  | .index, .index => "index " ++ name ++ " already exists"
  | .index, _ => "there is already an index named " ++ name
  | _, .index => "there is already a table named " ++ name
  | kind, _ => kind.word ++ " " ++ name ++ " already exists"

/-- Whether the clash is reported with the place of the name in the script. -/
def isPlaced (c : Clash) : Bool := c.present.kind ≠ .index && c.wanted.object.kind ≠ .index

end Clash

namespace SetupFault

/-- A field of a record as it is shown. -/
def field (name value : String) : String := name ++ ": " ++ value

/-- A record as it is shown. -/
def record (name : String) (fields : List String) : String :=
  name ++ " \x7b " ++ ", ".intercalate fields ++ " \x7d"

/-- A fault as it is shown. -/
def codeText (code : String × Nat) : String :=
  record "Error" [field "code" code.1, field "extended_code" (toString code.2)]

/-- A failure with its message as it is shown. -/
def failureText (code : String × Nat) (message : String) : String :=
  "SqliteFailure(" ++ codeText code ++ ", Some(" ++ Text.quoted message ++ "))"

/-- A fault of a database as it is shown. -/
def databaseText (fault : DatabaseFault) : String := failureText fault.code fault.message

/-- A clash as it is shown. -/
def clashText (c : Clash) : String :=
  let code := ("Unknown", 1)
  if c.isPlaced then
    record "SqlInputError"
      [field "error" (codeText code), field "msg" (Text.quoted c.message),
        field "sql" (Text.quoted (scriptText (c.wanted :: c.rest))),
        field "offset" (toString c.wanted.before.utf8ByteSize)]
  else failureText code c.message

/-- A step that failed, with its part of the script, as it is shown. -/
def stepText (script error : String) : String :=
  record "RusqliteError" [field "query" (Text.quoted script), field "err" error]

/-- The wording of the fault. -/
def message (fault : SetupFault) : String :=
  "rusqlite_migrate error: " ++
    match fault with
    | .aside fault => stepText "" (databaseText fault)
    | .unchanged fault => stepText (scriptText setupScript) (databaseText fault)
    | .clash c => stepText (scriptText setupScript) (clashText c)
    | .ahead => "MigrationDefinition(DatabaseTooFarAhead)"

end SetupFault

end DatasetGraph.CommandLine
