import DatasetGraph.Document.Basic
import DatasetGraph.Json.Decode

/-!
# Reading documents

The entities of a document are read from JSON objects.  `@id` and `@type` may also be called `id`
and `type`.  Members that are no field of an entity become its attributes, of which the last one for
a key counts.  References, sources and extracts have no attributes: their other members are passed
over, and they may be given as the list of their fields.
-/

namespace DatasetGraph

open Json (Source Fault Ending Decoder)
open Json.Decoder (field required skip takeItem noMoreItems)

/-- A text or nothing. -/
private abbrev textOrNull : Decoder (Option String) := Decoder.optional Decoder.text

/-- Whether a key names the id of an entity. -/
def isIdKey (key : String) : Bool := key = "@id" || key = "id"

/-- Whether a key names the type of an entity. -/
def isTypeKey (key : String) : Bool := key = "@type" || key = "type"

/-! ## References -/

namespace Reference

/-- Read one member of a reference. -/
def take (id : Option (Option String)) (key : String) (s : Source) :
    Except Fault (Option (Option String)) :=
  if isIdKey key then field "@id" id textOrNull s
  else do
    skip s
    return id

/-- The reference of an object. -/
def ofMembers (ms : List (Option String × Source)) (ending : Ending) :
    Except Fault Reference := do
  let id ← Decoder.members take none ms ending
  return ⟨id.getD none⟩

/-- The reference of a list of fields. -/
def ofItems (items : List Source) (ending : Ending) : Except Fault Reference := do
  let (id, rest) ← takeItem textOrNull ending items
  noMoreItems items.length ending rest
  return ⟨id.getD none⟩

/-- Read a reference. -/
def decode : Decoder Reference := Decoder.record "Reference" ofMembers ofItems

end Reference

/-- Read references: one if it can be read as one, else a list.  What has no value at all is a fault
of the text. -/
def References.decode : Decoder References := fun s => do
  let _ ← Decoder.value s
  match Reference.decode s, Decoder.list Reference.decode s with
  | .ok r, _ => return .one r
  | .error _, .ok rs => return .many rs
  | .error _, .error _ => throw .noReferences

/-! ## Distributions -/

namespace Distribution

/-- The fields of a distribution that have been read. -/
structure Fields where
  id : Option (Option String) := none
  type : Option (Option String) := none
  encodingFormat : Option (Option String) := none
  containedIn : Option (Option References) := none
  attributes : KeyMap Json := .empty

/-- Read one member of a distribution. -/
def Fields.take (f : Fields) (key : String) (s : Source) : Except Fault Fields :=
  if isIdKey key then return { f with id := ← field "@id" f.id textOrNull s }
  else if isTypeKey key then return { f with type := ← field "@type" f.type textOrNull s }
  else if key = "encodingFormat" then
    return { f with encodingFormat := ← field "encodingFormat" f.encodingFormat textOrNull s }
  else if key = "containedIn" then
    return { f with
      containedIn := ← field "containedIn" f.containedIn (Decoder.optional References.decode) s }
  else return { f with attributes := f.attributes.insert key (← Decoder.value s) }

/-- The distribution of an object. -/
def ofMembers (ms : List (Option String × Source)) (ending : Ending) :
    Except Fault Distribution := do
  let f ← Decoder.members Fields.take {} ms ending
  return ⟨f.id.getD none, f.type.getD none, f.encodingFormat.getD none, f.containedIn.getD none,
    f.attributes⟩

/-- Read a distribution. -/
def decode : Decoder Distribution := Decoder.objectRecord "DistributionEntry" ofMembers

end Distribution

/-! ## Fields -/

namespace Extract

/-- Read one member of an extract. -/
def take (column : Option (Option Json)) (key : String) (s : Source) :
    Except Fault (Option (Option Json)) :=
  if key = "column" then field "column" column (Decoder.optional Decoder.value) s
  else do
    skip s
    return column

/-- The extract of an object. -/
def ofMembers (ms : List (Option String × Source)) (ending : Ending) : Except Fault Extract := do
  let column ← Decoder.members take none ms ending
  return ⟨column.getD none⟩

/-- The extract of a list of fields. -/
def ofItems (items : List Source) (ending : Ending) : Except Fault Extract := do
  let (column, rest) ← takeItem (Decoder.optional Decoder.value) ending items
  noMoreItems items.length ending rest
  return ⟨column.getD none⟩

/-- Read an extract. -/
def decode : Decoder Extract := Decoder.record "Extract" ofMembers ofItems

end Extract

namespace FieldSource

/-- The fields of a source that have been read. -/
structure Fields where
  fileObject : Option (Option Reference) := none
  fileSet : Option (Option Reference) := none
  extract : Option (Option Extract) := none

/-- Read one member of a source. -/
def Fields.take (f : Fields) (key : String) (s : Source) : Except Fault Fields :=
  if key = "fileObject" then
    return { f with
      fileObject := ← field "fileObject" f.fileObject (Decoder.optional Reference.decode) s }
  else if key = "fileSet" then
    return { f with fileSet := ← field "fileSet" f.fileSet (Decoder.optional Reference.decode) s }
  else if key = "extract" then
    return { f with extract := ← field "extract" f.extract (Decoder.optional Extract.decode) s }
  else do
    skip s
    return f

/-- The source of an object. -/
def ofMembers (ms : List (Option String × Source)) (ending : Ending) :
    Except Fault FieldSource := do
  let f ← Decoder.members Fields.take {} ms ending
  return ⟨f.fileObject.getD none, f.fileSet.getD none, f.extract.getD none⟩

/-- The source of a list of fields. -/
def ofItems (items : List Source) (ending : Ending) : Except Fault FieldSource := do
  let (fileObject, rest) ← takeItem (Decoder.optional Reference.decode) ending items
  let (fileSet, rest) ← takeItem (Decoder.optional Reference.decode) ending rest
  let (extract, rest) ← takeItem (Decoder.optional Extract.decode) ending rest
  noMoreItems items.length ending rest
  return ⟨fileObject.getD none, fileSet.getD none, extract.getD none⟩

/-- Read the source of a field. -/
def decode : Decoder FieldSource := Decoder.record "FieldSource" ofMembers ofItems

end FieldSource

namespace Statistics

/-- The fields of statistics that have been read. -/
structure Fields where
  id : Option (Option String) := none
  type : Option (Option String) := none
  values : KeyMap Json := .empty

/-- Read one member of statistics. -/
def Fields.take (f : Fields) (key : String) (s : Source) : Except Fault Fields :=
  if isIdKey key then return { f with id := ← field "@id" f.id textOrNull s }
  else if isTypeKey key then return { f with type := ← field "@type" f.type textOrNull s }
  else return { f with values := f.values.insert key (← Decoder.value s) }

/-- The statistics of an object. -/
def ofMembers (ms : List (Option String × Source)) (ending : Ending) :
    Except Fault Statistics := do
  let f ← Decoder.members Fields.take {} ms ending
  return ⟨f.id.getD none, f.type.getD none, f.values⟩

/-- Read statistics. -/
def decode : Decoder Statistics := Decoder.objectRecord "StatisticsBlock" ofMembers

end Statistics

namespace Field

/-- The fields of a field that have been read. -/
structure Fields where
  id : Option (Option String) := none
  type : Option (Option String) := none
  source : Option (Option FieldSource) := none
  statistics : Option (Option Statistics) := none
  attributes : KeyMap Json := .empty

/-- Read one member of a field. -/
def Fields.take (f : Fields) (key : String) (s : Source) : Except Fault Fields :=
  if isIdKey key then return { f with id := ← field "@id" f.id textOrNull s }
  else if isTypeKey key then return { f with type := ← field "@type" f.type textOrNull s }
  else if key = "source" then
    return { f with source := ← field "source" f.source (Decoder.optional FieldSource.decode) s }
  else if key = "statistics" then
    return { f with
      statistics := ← field "statistics" f.statistics (Decoder.optional Statistics.decode) s }
  else return { f with attributes := f.attributes.insert key (← Decoder.value s) }

/-- The field of an object. -/
def ofMembers (ms : List (Option String × Source)) (ending : Ending) : Except Fault Field := do
  let f ← Decoder.members Fields.take {} ms ending
  return ⟨f.id.getD none, f.type.getD none, f.source.getD none, f.statistics.getD none,
    f.attributes⟩

/-- Read a field. -/
def decode : Decoder Field := Decoder.objectRecord "FieldEntry" ofMembers

end Field

/-! ## Record sets and documents -/

namespace RecordSet

/-- The fields of a record set that have been read. -/
structure Fields where
  id : Option (Option String) := none
  type : Option (Option String) := none
  fields : Option (List Field) := none
  attributes : KeyMap Json := .empty

/-- Read one member of a record set. -/
def Fields.take (f : Fields) (key : String) (s : Source) : Except Fault Fields :=
  if isIdKey key then return { f with id := ← field "@id" f.id textOrNull s }
  else if isTypeKey key then return { f with type := ← field "@type" f.type textOrNull s }
  else if key = "field" then
    return { f with fields := ← field "field" f.fields (Decoder.list Field.decode) s }
  else return { f with attributes := f.attributes.insert key (← Decoder.value s) }

/-- The record set of an object. -/
def ofMembers (ms : List (Option String × Source)) (ending : Ending) :
    Except Fault RecordSet := do
  let f ← Decoder.members Fields.take {} ms ending
  return ⟨f.id.getD none, f.type.getD none, f.fields.getD [], f.attributes⟩

/-- Read a record set. -/
def decode : Decoder RecordSet := Decoder.objectRecord "RecordSetEntry" ofMembers

end RecordSet

namespace Document

/-- The fields of a document that have been read. -/
structure Fields where
  id : Option (Option String) := none
  type : Option (Option String) := none
  distributions : Option (List Distribution) := none
  recordSets : Option (List RecordSet) := none
  metadata : KeyMap Json := .empty

/-- Read one member of a document. -/
def Fields.take (f : Fields) (key : String) (s : Source) : Except Fault Fields :=
  if isIdKey key then return { f with id := ← field "@id" f.id textOrNull s }
  else if isTypeKey key then return { f with type := ← field "@type" f.type textOrNull s }
  else if key = "distribution" then
    return { f with
      distributions := ← field "distribution" f.distributions
        (Decoder.list Distribution.decode) s }
  else if key = "recordSet" then
    return { f with
      recordSets := ← field "recordSet" f.recordSets (Decoder.list RecordSet.decode) s }
  else return { f with metadata := f.metadata.insert key (← Decoder.value s) }

/-- The document of an object. -/
def ofMembers (ms : List (Option String × Source)) (ending : Ending) : Except Fault Document := do
  let f ← Decoder.members Fields.take {} ms ending
  return ⟨f.id.getD none, f.type.getD none, f.distributions.getD [], f.recordSets.getD [],
    f.metadata⟩

/-- Read a document. -/
def decode : Decoder Document := Decoder.objectRecord "DatasetDocument" ofMembers

/-- The document of a value. -/
def ofJson (v : Json) : Except Fault Document := decode (.ofJson v)

/-- The document of a text. -/
def ofText (text : String) : Except Fault Document := Decoder.ofText decode text

/-- How a document that cannot be read is reported. -/
def faultMessage (fault : Fault) : String := "malformed document: " ++ fault.message

end Document

end DatasetGraph
