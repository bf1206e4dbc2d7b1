import DatasetGraph.Json.Reader
import DatasetGraph.Store.Table
import DatasetGraph.Text.Digits

/-!
# Snapshots

A store in tables can be written as one JSON value and read back: the three tables, each row as a
list of its columns, under a mark that tells a snapshot from other files.  Properties are a column of
text, so they may be nested as deep as a text of their own.

The text of a double is not always read back as the same double.  So a snapshot writes a double as a
text, by its sign and its rank, and a text with a mark in front of it.
-/

namespace DatasetGraph

/-- What marks a snapshot. -/
def snapshotMark : String := "dataset graph 1"

namespace TableStore

/-! ## Writing -/

/-- What stands in front of a text. -/
def textMark : Char := '='

/-- The sign of a double. -/
def signMark (negative : Bool) : Char := if negative then '-' else '+'

mutual

/-- A value as a snapshot writes it. -/
def packed : Json → Json
  | .str s => .str (.ofList (textMark :: s.toList))
  | .num (.double x) => .str (.ofList (signMark x.negative :: Nat.toDigits 10 x.rank))
  | .arr items => .arr (packedItems items)
  | .obj members => .obj (packedMembers members)
  | v => v

/-- The items of a list as a snapshot writes them. -/
def packedItems : List Json → List Json
  | [] => []
  | v :: vs => packed v :: packedItems vs

/-- The members of an object as a snapshot writes them. -/
def packedMembers : List (String × Json) → List (String × Json)
  | [] => []
  | (k, v) :: ms => (k, packed v) :: packedMembers ms

end

/-- Properties as a snapshot writes them. -/
def packedProperties (p : Properties) : Json :=
  .str (Json.obj (packedMembers p.entries)).compact

/-- The store as a value. -/
def toJson (s : TableStore) : Json :=
  .obj [("snapshot", .str snapshotMark),
    ("nodes", .arr (s.nodes.map fun r => .arr [.str r.id, packedProperties r.properties])),
    ("labels", .arr (s.labels.map fun r => .arr [.str r.id, .str r.label.text])),
    ("edges", .arr (s.edges.map fun e =>
      .arr [.str e.source, .str e.target, .str e.type.text, packedProperties e.properties]))]

/-- The snapshot of a store. -/
def snapshot (s : TableStore) : String := s.toJson.compact

/-! ## Reading -/

/-- The double that is written after its sign. -/
def double? (negative : Bool) (rank : List Char) : Option Json :=
  (Text.Digits.value? rank).map fun r => .num (.double (.ofRank negative r))

/-- The value that a text of a snapshot stands for. -/
def unpackedText? : List Char → Option Json
  | '=' :: cs => some (.str (.ofList cs))
  | '-' :: cs => double? true cs
  | '+' :: cs => double? false cs
  | _ => none

mutual

/-- The value that a snapshot writes so. -/
def unpacked? : Json → Option Json
  | .str s => unpackedText? s.toList
  | .arr items => (unpackedItems? items).map .arr
  | .obj members => (unpackedMembers? members).map .obj
  | v => some v

/-- The items that a snapshot writes so. -/
def unpackedItems? : List Json → Option (List Json)
  | [] => some []
  | v :: vs => do return (← unpacked? v) :: (← unpackedItems? vs)

/-- The members that a snapshot writes so. -/
def unpackedMembers? : List (String × Json) → Option (List (String × Json))
  | [] => some []
  | (k, v) :: ms => do return (k, ← unpacked? v) :: (← unpackedMembers? ms)

end

/-- The properties that a snapshot writes so. -/
def unpackedProperties? (text : String) : Option Properties :=
  match Json.parse? text with
  | some (.obj ms) => (unpackedMembers? ms).map .ofList
  | _ => none

/-- The row of a node. -/
def nodeRow? : Json → Option NodeRow
  | .arr [.str id, .str text] => do return ⟨id, ← unpackedProperties? text⟩
  | _ => none

/-- The row of a label. -/
def labelRow? : Json → Option LabelRow
  | .arr [.str id, .str label] => some ⟨id, ⟨label⟩⟩
  | _ => none

/-- The row of a relationship. -/
def edgeRow? : Json → Option StoredEdge
  | .arr [.str source, .str target, .str type, .str text] =>
    do return ⟨source, target, ⟨type⟩, ← unpackedProperties? text⟩
  | _ => none

/-- The rows of a table. -/
def rows? {α : Type} (row? : Json → Option α) (v : Json) (table : String) : Option (List α) :=
  match v.get? table with
  | some (.arr rows) => rows.mapM row?
  | _ => none

/-- The store of a value. -/
def ofJson? (v : Json) : Option TableStore :=
  if v.get? "snapshot" = some (.str snapshotMark) then do
    return ⟨← rows? nodeRow? v "nodes", ← rows? labelRow? v "labels", ← rows? edgeRow? v "edges"⟩
  else none

/-- The store of a snapshot. -/
def ofSnapshot? (text : String) : Option TableStore := (Json.parse? text).bind ofJson?

end TableStore

end DatasetGraph
