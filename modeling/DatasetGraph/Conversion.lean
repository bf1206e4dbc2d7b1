import DatasetGraph.Document.Basic
import DatasetGraph.Encoding
import DatasetGraph.Graph.Merge

/-!
# From documents to graphs

A document becomes a graph: a root for the dataset, a node for each distribution, record set and
field, a node for the statistics of a field if they say anything, and edges for how they belong
together.  The kind of a distribution follows from its encoding, that of a field from where its
values come from.

Conversion never fails.  An entity without an id is left out with all that is below it, and a
distribution of unknown encoding is given a general kind; both are reported as issues.

`Document.elements` lists the nodes and edges in the order in which the document mentions them and
`Document.issues` lists the issues; `Document.graph` merges elements that come more than once.
-/

namespace DatasetGraph

/-! ## Relationships and issues -/

/-- How two nodes of a converted document are related. -/
inductive Relationship where
  /-- From a dataset to a distribution. -/
  | distribution
  /-- From a distribution to what contains it. -/
  | containedIn
  /-- From a dataset to a record set. -/
  | recordSet
  /-- From a record set to a field. -/
  | field
  /-- From a field to its statistics. -/
  | statistics
  /-- From a field to the file its values come from. -/
  | sourceFileObject
  /-- From a field to the set of files its values come from. -/
  | sourceFileSet
deriving DecidableEq

/-- The label of the edge. -/
def Relationship.token : Relationship → String
  | .distribution => "distribution"
  | .containedIn => "containedIn"
  | .recordSet => "recordSet"
  | .field => "field"
  | .statistics => "statistics"
  | .sourceFileObject => "source/fileObject"
  | .sourceFileSet => "source/fileSet"

/-- Every relationship. -/
def Relationship.all : List Relationship :=
  [.distribution, .containedIn, .recordSet, .field, .statistics, .sourceFileObject,
    .sourceFileSet]

/-- The entities of a document. -/
inductive EntityKind where
  | dataset
  | distribution
  | recordSet
  | field
  | statistics
deriving DecidableEq

/-- The name of the kind of entity. -/
def EntityKind.name : EntityKind → String
  | .dataset => "dataset"
  | .distribution => "distribution"
  | .recordSet => "recordSet"
  | .field => "field"
  | .statistics => "statistics"

/-- What was passed over in a conversion. -/
inductive Issue where
  /-- An entity without an id, below the entity `parent`. -/
  | missingIdentifier (entity : EntityKind) (parent : Option String)
  /-- A distribution whose encoding is not in the table. -/
  | unknownEncoding (distribution : String) (encoding : Option String)
deriving DecidableEq

/-- The issue as it is written. -/
def Issue.toJson : Issue → Json
  | .missingIdentifier entity parent =>
    .obj [("issue", .str "missingIdentifier"), ("entity", .str entity.name),
      ("parent", .ofText? parent)]
  | .unknownEncoding distribution encoding =>
    .obj [("issue", .str "unknownEncoding"), ("distribution", .str distribution),
      ("encoding", .ofText? encoding)]

/-! ## Properties -/

namespace Properties

/-- Add a text if there is one. -/
def withText? (p : Properties) (key : String) : Option String → Properties
  | some s => p.insert key (.str s)
  | none => p

/-- Add a value if there is one and it is not `null`. -/
def withValue? (p : Properties) (key : String) : Option Json → Properties
  | some v => if v.isNull then p else p.insert key v
  | none => p

/-- Copy what some attributes say under the given keys. -/
def withKeys (p : Properties) (attributes : KeyMap Json) (keys : List String) : Properties :=
  keys.foldl (fun p k => p.withValue? k (attributes.get? k)) p

/-- The properties that every entity starts from: its type. -/
def ofType (type : Option String) : Properties := withText? KeyMap.empty "type" type

end Properties

/-- The metadata of a dataset that is kept. -/
def Document.keys : List String :=
  ["name", "archivedAt", "description", "conformsTo", "license", "url", "version", "headline",
    "keywords", "fieldOfScience", "inLanguage", "country", "datePublished", "status"]

/-- The attributes of a distribution that are kept, whatever its encoding. -/
def Distribution.keys : List String := ["name", "description", "contentSize", "contentUrl"]

/-- The attributes of a record set that are kept. -/
def RecordSet.keys : List String := ["name", "description", "examples"]

/-- The attributes that are kept of a field whose values come from a file. -/
def Field.columnKeys : List String := ["name", "description", "dataType", "sample"]

/-- The attributes that are kept of any other field. -/
def Field.textKeys : List String := ["name", "file_size_bytes", "keywords", "summary"]

/-- A node of a converted document. -/
def nodeOf (id : String) (labels : TaggedKind) (properties : Properties) : Element :=
  .node ⟨id, labels.labels, properties⟩

/-- An edge of a converted document. -/
def edgeOf (source target : String) (r : Relationship) : Element :=
  .edge (.plain source target r.token)

/-! ## Distributions -/

namespace Distribution

/-- The row of the encoding. -/
def encoding? (d : Distribution) : Option Encoding := d.encodingFormat.bind Encoding.lookup?

/-- What the distribution is. -/
def classification (d : Distribution) : Classification :=
  match d.encoding? with
  | some e => e.classify (!d.parents.isEmpty)
  | none => Encoding.fallback d.isCollection

/-- The labels of its node. -/
def labels (d : Distribution) : TaggedKind :=
  (((TaggedKind.plain d.classification.kind).withTag Label.data.token).withTag
    d.classification.structural.token).withTag? d.type

/-- The properties of its node. -/
def properties (d : Distribution) : Properties :=
  let common :=
    ((Properties.ofType d.type).withText? "encodingFormat" d.encodingFormat).withKeys d.attributes
      keys
  match d.encoding? with
  | some e => common.withKeys d.attributes e.extra
  | none => common

/-- Its node, the edge from the dataset and the edges to what contains it. -/
def elements (dataset : String) (d : Distribution) : List Element :=
  match identifier? d.id with
  | none => []
  | some id =>
    nodeOf id d.labels d.properties :: edgeOf dataset id .distribution ::
      d.parents.map fun parent => edgeOf id parent .containedIn

/-- What is passed over in it. -/
def issues (dataset : String) (d : Distribution) : List Issue :=
  match identifier? d.id, d.encoding? with
  | none, _ => [.missingIdentifier .distribution dataset]
  | some id, none => [.unknownEncoding id d.encodingFormat]
  | some _, some _ => []

end Distribution

/-! ## Statistics -/

namespace Statistics

/-- The properties of the node. -/
def properties (s : Statistics) : Properties := s.values.filter fun _ v => !v.isNull

/-- The node and the edge from the field, if the statistics say anything. -/
def elements (field : String) (s : Statistics) : List Element :=
  match identifier? s.id with
  | none => []
  | some id =>
    if s.properties.isEmpty then []
    else [nodeOf id ((TaggedKind.plain .statistics).withTag? s.type) s.properties,
      edgeOf field id .statistics]

/-- What is passed over: statistics that say something and have no id. -/
def issues (field : String) (s : Statistics) : List Issue :=
  if s.properties.isEmpty then []
  else match identifier? s.id with
    | none => [.missingIdentifier .statistics field]
    | some _ => []

end Statistics

/-! ## Fields -/

namespace Field

/-- The file that the values come from. -/
def fileObject? (f : Field) : Option String :=
  (f.source.bind (·.fileObject)).bind fun r => identifier? r.id

/-- The set of files that the values come from. -/
def fileSet? (f : Field) : Option String :=
  (f.source.bind (·.fileSet)).bind fun r => identifier? r.id

/-- The column of the file in which the values stand. -/
def column? (f : Field) : Option Json := (f.source.bind (·.extract)).bind (·.column)

/-- What the field is: a column if its values come from a file, else a part of a text. -/
def kind (f : Field) : Kind := if f.fileObject?.isSome then .column else .pdf

/-- The properties of its node. -/
def properties (f : Field) : Properties :=
  let start := Properties.ofType f.type
  if f.fileObject?.isSome then
    (start.withKeys f.attributes columnKeys).withValue? "column" f.column?
  else start.withKeys f.attributes textKeys

/-- The edge to where its values come from. -/
def sourceElements (id : String) (f : Field) : List Element :=
  match f.fileObject?, f.fileSet? with
  | some object, _ => [edgeOf id object .sourceFileObject]
  | none, some set => [edgeOf id set .sourceFileSet]
  | none, none => []

/-- Its node, its statistics, the edge to its source and the edge from the record set. -/
def elements (recordSet : String) (f : Field) : List Element :=
  match identifier? f.id with
  | none => []
  | some id =>
    nodeOf id ((TaggedKind.plain f.kind).withTag? f.type) f.properties ::
      (f.statistics.toList.flatMap (·.elements id) ++ f.sourceElements id ++
        [edgeOf recordSet id .field])

/-- What is passed over in it. -/
def issues (recordSet : String) (f : Field) : List Issue :=
  match identifier? f.id with
  | none => [.missingIdentifier .field recordSet]
  | some id => f.statistics.toList.flatMap (·.issues id)

end Field

/-! ## Record sets -/

namespace RecordSet

/-- The properties of its node. -/
def properties (r : RecordSet) : Properties :=
  (Properties.ofType r.type).withKeys r.attributes keys

/-- Its node, the edge from the dataset and its fields. -/
def elements (dataset : String) (r : RecordSet) : List Element :=
  match identifier? r.id with
  | none => []
  | some id =>
    nodeOf id ((TaggedKind.plain .recordSet).withTag? r.type) r.properties ::
      edgeOf dataset id .recordSet :: r.fields.flatMap (·.elements id)

/-- What is passed over in it. -/
def issues (dataset : String) (r : RecordSet) : List Issue :=
  match identifier? r.id with
  | none => [.missingIdentifier .recordSet dataset]
  | some id => r.fields.flatMap (·.issues id)

end RecordSet

/-! ## Documents -/

namespace Document

/-- The properties of the root. -/
def properties (d : Document) : Properties :=
  (Properties.ofType d.type).withKeys d.metadata keys

/-- The nodes and edges of the document; none if the dataset has no id. -/
def elements (d : Document) : List Element :=
  match identifier? d.id with
  | none => []
  | some id =>
    nodeOf id ((TaggedKind.plain .dataset).withTag? d.type) d.properties ::
      (d.distributions.flatMap (·.elements id) ++ d.recordSets.flatMap (·.elements id))

/-- What is passed over in the document. -/
def issues (d : Document) : List Issue :=
  match identifier? d.id with
  | none => [.missingIdentifier .dataset none]
  | some id => d.distributions.flatMap (·.issues id) ++ d.recordSets.flatMap (·.issues id)

/-- The graph of the document. -/
def graph (d : Document) : Graph := .ofElements d.elements

end Document

end DatasetGraph
