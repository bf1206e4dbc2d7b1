import DatasetGraph.Json.Basic

/-!
# Documents that describe datasets

A document describes one dataset: its physical distributions, which may be contained in each other,
and its record sets with their fields.  Entities have optional ids and types; whatever a document
says beyond the fields named here is kept as attributes.

`Document.toJson` writes a document back with every field of its own in place, absent ones as
`null`.
-/

namespace DatasetGraph

/-- A mention of another entity by its id. -/
structure Reference where
  id : Option String
deriving DecidableEq

/-- One reference or a list of them. -/
inductive References where
  | one (reference : Reference)
  | many (references : List Reference)
deriving DecidableEq

/-- A file, a set of files or a database. -/
structure Distribution where
  id : Option String
  type : Option String
  encodingFormat : Option String
  containedIn : Option References
  attributes : KeyMap Json
deriving DecidableEq

/-- Where in a source the values of a field are found. -/
structure Extract where
  column : Option Json
deriving DecidableEq

/-- Where the values of a field come from. -/
structure FieldSource where
  fileObject : Option Reference
  fileSet : Option Reference
  extract : Option Extract
deriving DecidableEq

/-- Statistics of the values of a field. -/
structure Statistics where
  id : Option String
  type : Option String
  values : KeyMap Json
deriving DecidableEq

/-- A field of a record set. -/
structure Field where
  id : Option String
  type : Option String
  source : Option FieldSource
  statistics : Option Statistics
  attributes : KeyMap Json
deriving DecidableEq

/-- A set of records. -/
structure RecordSet where
  id : Option String
  type : Option String
  fields : List Field
  attributes : KeyMap Json
deriving DecidableEq

/-- A document. -/
structure Document where
  id : Option String
  type : Option String
  distributions : List Distribution
  recordSets : List RecordSet
  metadata : KeyMap Json
deriving DecidableEq

/-- An id that identifies: one that is there and is not empty. -/
def identifier? (id : Option String) : Option String := id.filter (· ≠ "")

namespace References

/-- The references in order. -/
def toList : References → List Reference
  | .one r => [r]
  | .many rs => rs

/-- The ids that identify, in order. -/
def ids (rs : References) : List String := rs.toList.filterMap fun r => identifier? r.id

end References

namespace Distribution

/-- The ids of what the distribution is contained in. -/
def parents (d : Distribution) : List String :=
  match d.containedIn with
  | some rs => rs.ids
  | none => []

/-- Whether a type says that it is a set of files. -/
def isFileSetType (type : String) : Bool := "FileSet".toList.isSuffixOf type.toList

/-- Whether the distribution holds several files. -/
def isCollection (d : Distribution) : Bool :=
  d.type.any isFileSetType || d.attributes.contains "includes"

end Distribution

/-! ## Writing documents back -/

/-- A value or `null`. -/
def Json.ofOption (v : Option Json) : Json := v.getD .null

/-- A reference, as it is written. -/
def Reference.toJson (r : Reference) : Json := .obj [("@id", .ofText? r.id)]

/-- References, as they are written. -/
def References.toJson : References → Json
  | .one r => r.toJson
  | .many rs => .arr (rs.map Reference.toJson)

/-- A distribution, as it is written. -/
def Distribution.toJson (d : Distribution) : Json :=
  .obj ([("@id", .ofText? d.id), ("@type", .ofText? d.type),
    ("encodingFormat", .ofText? d.encodingFormat),
    ("containedIn", .ofOption (d.containedIn.map References.toJson))] ++ d.attributes.entries)

/-- An extract, as it is written. -/
def Extract.toJson (e : Extract) : Json := .obj [("column", .ofOption e.column)]

/-- The source of a field, as it is written. -/
def FieldSource.toJson (s : FieldSource) : Json :=
  .obj [("fileObject", .ofOption (s.fileObject.map Reference.toJson)),
    ("fileSet", .ofOption (s.fileSet.map Reference.toJson)),
    ("extract", .ofOption (s.extract.map Extract.toJson))]

/-- Statistics, as they are written. -/
def Statistics.toJson (s : Statistics) : Json :=
  .obj ([("@id", .ofText? s.id), ("@type", .ofText? s.type)] ++ s.values.entries)

/-- A field, as it is written. -/
def Field.toJson (f : Field) : Json :=
  .obj ([("@id", .ofText? f.id), ("@type", .ofText? f.type),
    ("source", .ofOption (f.source.map FieldSource.toJson)),
    ("statistics", .ofOption (f.statistics.map Statistics.toJson))] ++ f.attributes.entries)

/-- A record set, as it is written. -/
def RecordSet.toJson (r : RecordSet) : Json :=
  .obj ([("@id", .ofText? r.id), ("@type", .ofText? r.type),
    ("field", .arr (r.fields.map Field.toJson))] ++ r.attributes.entries)

/-- A document, as it is written. -/
def Document.toJson (d : Document) : Json :=
  .obj ([("@id", .ofText? d.id), ("@type", .ofText? d.type),
    ("distribution", .arr (d.distributions.map Distribution.toJson)),
    ("recordSet", .arr (d.recordSets.map RecordSet.toJson))] ++ d.metadata.entries)

end DatasetGraph
