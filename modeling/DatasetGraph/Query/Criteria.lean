import DatasetGraph.Date
import DatasetGraph.Graph.Basic
import DatasetGraph.Query.Basic
import DatasetGraph.Text.Quoted

/-!
# The criteria of a query

Before a query is run, its types and encodings are resolved to labels and its dates are read; one
that names something unknown is refused.  The result says which roots match, which nodes make a
dataset qualify, and what is returned.

A dataset counts as published on the day that the first ten bytes of its date say, so a time may
follow the day.  One without a readable date is outside every range.
-/

namespace DatasetGraph

/-- Why a query is refused. -/
inductive QueryFault where
  | unknownType (text : String)
  | unknownEncoding (text : String)
  | badDate (text : String) (fault : DateFault)
  | emptyRange (first last : Date)
deriving DecidableEq

/-- The wording of the refusal. -/
def QueryFault.message : QueryFault → String
  | .unknownType text => "unknown type label " ++ Text.quoted text
  | .unknownEncoding text => "unknown MIME type " ++ Text.quoted text
  | .badDate text fault => "bad date " ++ Text.quoted text ++ ": " ++ fault.message
  | .emptyRange first last => "publication range is empty: " ++ first.text ++ " > " ++ last.text

/-- A query with its names resolved. -/
structure Criteria where
  ids : List String
  /-- Without repeats. -/
  typeLabels : List Label
  publishedFrom : Option Date
  publishedTo : Option Date
  status : List String
  properties : List String
  orderBy : List String
  direction : Direction
deriving DecidableEq

/-! ## Resolving -/

namespace Query

/-- The label that a type names. -/
def typeLabel (text : String) : Except QueryFault Label :=
  match Label.resolve? text with
  | some l => .ok l
  | none => .error (.unknownType text)

/-- The labels that an encoding stands for. -/
def encodingLabels (text : String) : Except QueryFault (List Label) :=
  match Encoding.labels? text with
  | some ls => .ok ls
  | none => .error (.unknownEncoding text)

/-- The day that a bound names. -/
def bound (text : String) : Except QueryFault Date :=
  match Date.ofChars (Text.trimChars text.toList) with
  | .ok d => .ok d
  | .error e => .error (.badDate text e)

/-- The day that a bound names, if there is one. -/
def bound? : Option String → Except QueryFault (Option Date)
  | some text => (bound text).map some
  | none => .ok none

/-- Refuse a range that ends before it starts. -/
def checkRange : Option Date → Option Date → Except QueryFault Unit
  | some first, some last =>
    if first.compare last = .gt then .error (.emptyRange first last) else .ok ()
  | _, _ => .ok ()

/-- Resolve the names of a query: its types, its encodings, its dates and their range, in that
order. -/
def criteria (q : Query) : Except QueryFault Criteria := do
  let types ← q.types.mapM typeLabel
  let encodings ← q.mimeTypes.mapM encodingLabels
  let first ← bound? q.publishedFrom
  let last ← bound? q.publishedTo
  checkRange first last
  return {
    ids := q.nodeIds
    typeLabels := distinct (types ++ encodings.flatten)
    publishedFrom := first
    publishedTo := last
    status := q.status
    properties := q.properties
    orderBy := q.orderBy
    direction := q.direction }

end Query

/-! ## Dates of datasets -/

/-- The first characters that make up exactly `n` bytes, if there are such. -/
def Text.bytes? : Nat → List Char → Option (List Char)
  | 0, _ => some []
  | _ + 1, [] => none
  | n + 1, c :: cs =>
    if c.utf8Size ≤ n + 1 then (Text.bytes? (n + 1 - c.utf8Size) cs).map (c :: ·) else none

/-- The day on which a dataset with such a date was published. -/
def publicationDay? (v : Json) : Option Date := do
  let cs := Text.trimChars (← v.text?).toList
  (Date.ofChars ((Text.bytes? 10 cs).getD cs)).toOption

/-! ## What matches and what is returned -/

namespace Criteria

/-- Whether something of a given label has to hang off the dataset. -/
def restrictsTypes (c : Criteria) : Bool := !c.typeLabels.isEmpty

/-- Whether the id is among those asked for. -/
def acceptsId (c : Criteria) (id : String) : Bool := c.ids.isEmpty || c.ids.contains id

/-- Whether a day lies in the range. -/
def acceptsDay (c : Criteria) (d : Date) : Bool :=
  c.publishedFrom.all (fun first => d.compare first ≠ .lt) &&
    c.publishedTo.all fun last => d.compare last ≠ .gt

/-- Whether the date of publication lies in the range. -/
def acceptsDate (c : Criteria) (p : Properties) : Bool :=
  if c.publishedFrom.isSome || c.publishedTo.isSome then
    ((p.get? "datePublished").bind publicationDay?).any c.acceptsDay
  else true

/-- Whether the status is among those asked for. -/
def acceptsStatus (c : Criteria) (p : Properties) : Bool :=
  c.status.isEmpty || ((p.get? "status").bind Json.text?).any c.status.contains

/-- Whether a root is asked for by its id, date and status. -/
def matchesRoot (c : Criteria) (root : Node) : Bool :=
  c.acceptsId root.id && c.acceptsDate root.properties && c.acceptsStatus root.properties

/-- Whether a node makes the dataset that it hangs off qualify. -/
def qualifies (c : Criteria) (n : Node) : Bool :=
  !c.restrictsTypes || c.typeLabels.any fun l => n.labels.contains l.token

/-- Whether the family is asked for. -/
def asksFor (c : Criteria) (f : Family) : Bool := c.properties.contains f.grouping

/-- Whether a node is returned with the dataset that it hangs off. -/
def includes (c : Criteria) (n : Node) : Bool :=
  c.properties.isEmpty || (Family.of? n.labels).any c.asksFor

/-- A root with the properties that are asked for. -/
def project (c : Criteria) (root : Node) : Node :=
  if c.properties.isEmpty then root
  else { root with properties := root.properties.filter fun k _ => c.properties.contains k }

end Criteria

end DatasetGraph
