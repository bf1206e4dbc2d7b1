import DatasetGraph.Store.Walk

/-!
# Updating and deleting

Properties of stored nodes are changed in batches.  Datasets are deleted with what hangs off them:
the dependent nodes within the hop bound, found by a walk that passes through nodes of any kind but
stops at other datasets.  What the walk passes through and is not dependent stays.
-/

namespace DatasetGraph

/-- What a deletion did. -/
structure DeleteStatus where
  deleted : Nat
  /-- The roots from which it started. -/
  roots : List String
deriving DecidableEq

/-- The status as it is written. -/
def DeleteStatus.toJson (s : DeleteStatus) : Json :=
  .obj [("deletedCount", .ofNat s.deleted), ("roots", .ofTexts s.roots)]

namespace Store

variable {σ : Type} [Backend σ]

/-- The updates that the nodes of a graph ask for. -/
def updatesOf (g : Graph) : List PropertyUpdate :=
  (g.nodes.filter fun n => n.id ≠ "").map fun n => ⟨n.id, n.properties.mark⟩

/-- Change the properties of stored nodes; the number is that of updates of stored nodes. -/
def updateProperties (s : σ) (g : Graph) : Except StoreError (Nat × σ) :=
  Backend.updateNodes s (updatesOf g)

/-- The datasets to delete: those with the given ids, in that order, or all of them. -/
def rootsToDelete (s : σ) (ids : List String) : Except StoreError (List String) := do
  if ids.isEmpty then return (← datasetRoots s).map Node.id
  else return ((← readNodes s ids).filter Node.isDataset).map Node.id

/-- A dataset and what is deleted with it. -/
def doomedBy (s : σ) (root : String) : Except StoreError (List String) := do
  match ← walk s root maxHops fun n => !n.isDataset with
  | none => return []
  | some hood =>
    return root :: ((hood.nodes.map Prod.fst).filter Node.isDependent).map Node.id

/-- Delete datasets and what hangs off them. -/
def cascadeDelete (s : σ) (ids : List String) :
    Except StoreError (DeleteStatus × σ) := do
  let roots ← rootsToDelete s ids
  let doomed ← roots.mapM (doomedBy s)
  let (deleted, s) := Backend.deleteNodes s (distinct doomed.flatten)
  return (⟨deleted, roots⟩, s)

end Store

end DatasetGraph
