import DatasetGraph.Query.Order
import DatasetGraph.Store.Walk

/-!
# Answering queries

The datasets that match are counted, sorted and cut to the page; each of the page is returned with
what hangs off it.  Roots are cut to the properties asked for, and nodes of families that are not
asked for are left out, with the edges that lead to them.  What hangs off several datasets is
returned once.
-/

namespace DatasetGraph

/-- A page of datasets. -/
structure Page where
  nodes : List Node
  edges : List Edge
  offset : Nat
  count : Nat
  /-- How many datasets match, on this page or not. -/
  total : Nat
deriving DecidableEq

/-- The page as it is written. -/
def Page.toJson (p : Page) : Json :=
  .obj [("nodes", .arr (p.nodes.map Node.toJson)), ("edges", .arr (p.edges.map Edge.toJson)),
    ("offset", .ofNat p.offset), ("count", .ofNat p.count), ("total", .ofNat p.total)]

/-- Why a query has no answer. -/
inductive QueryError where
  | refused (fault : QueryFault)
  | store (error : StoreError)
deriving DecidableEq

/-! ## Repeats -/

/-- The first node of each id. -/
def distinctNodes (ns : List Node) : List Node := distinctOn Node.id ns

/-- What makes an edge a repeat of another: its key and the text of its properties. -/
def Edge.fingerprint (e : Edge) : EdgeKey × String := (e.key, e.properties.text)

/-- The first edge of each fingerprint. -/
def distinctEdges (es : List Edge) : List Edge := distinctOn Edge.fingerprint es

/-! ## What is returned of one dataset -/

namespace Criteria

/-- Whether a neighborhood makes its root qualify. -/
def hasQualifying (c : Criteria) (hood : Neighborhood) : Bool :=
  !c.restrictsTypes || hood.nodes.any fun e => c.qualifies e.1

/-- The nodes that are returned with a root. -/
def included (c : Criteria) (hood : Neighborhood) : List Node :=
  (hood.nodes.map Prod.fst).filter c.includes

/-- The edges whose two ends are returned. -/
def includedEdges (c : Criteria) (root : Node) (hood : Neighborhood) : List Edge :=
  let ids := root.id :: (c.included hood).map Node.id
  hood.edges.filter fun e => ids.contains e.source && ids.contains e.target

end Criteria

namespace Store

variable {σ : Type} [Backend σ]

/-- What hangs off a root. -/
def dependents (s : σ) (root : String) : Except StoreError Neighborhood := do
  return (← walk s root maxHops Node.isDependent).getD ⟨root, [], []⟩

/-- Whether a root matches, by itself and by what hangs off it. -/
def isMatch (s : σ) (c : Criteria) (root : Node) : Except StoreError Bool :=
  if !c.matchesRoot root then .ok false
  else if !c.restrictsTypes then .ok true
  else do return c.hasQualifying (← dependents s root.id)

/-- The roots that match, in order of their ids. -/
def matching (s : σ) (c : Criteria) : Except StoreError (List Node) := do
  (← datasetRoots s).filterM (isMatch s c)

/-- A root with what is returned of it; nothing if it does not qualify. -/
def expand (s : σ) (c : Criteria) (root : Node) :
    Except StoreError (List Node × List Edge) := do
  let hood ← dependents s root.id
  if c.hasQualifying hood then
    return (c.project root :: c.included hood, c.includedEdges root hood)
  else return ([], [])

/-- The page of a query whose names are resolved. -/
def page (s : σ) (c : Criteria) (offset count : Nat) : Except StoreError Page := do
  let roots ← matching s c
  let selected := ((c.sortRoots roots).drop offset).take count
  let parts ← selected.mapM (expand s c)
  return {
    nodes := distinctNodes (parts.flatMap Prod.fst)
    edges := distinctEdges (parts.flatMap Prod.snd)
    offset := offset
    count := count
    total := roots.length }

/-- Answer a query. -/
def query (s : σ) (q : Query) : Except QueryError Page :=
  match q.criteria with
  | .error fault => .error (.refused fault)
  | .ok c =>
    match page s c q.offset q.count with
    | .error e => .error (.store e)
    | .ok p => .ok p

end Store

end DatasetGraph
