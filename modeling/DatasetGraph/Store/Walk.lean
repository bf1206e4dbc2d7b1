import DatasetGraph.Store.Exchange

/-!
# Walks

A walk starts at a stored node and follows edges in both directions, for at most a given number of
hops.  It enters a node if a predicate lets it pass, and the root always; it goes on from nodes that
it entered.  It visits nodes by their distance, and within one distance in the order in which they
were found.

Each node is judged once.  An edge belongs to the walk if it was met and leads to a node that was
entered; edges are met from every node that lies less than the bound away, so an edge between two
nodes at the bound is not met.
-/

namespace DatasetGraph

/-- The hop bound of queries and deletions. -/
def maxHops : Nat := 4

/-- What a walk found. -/
structure Neighborhood where
  root : String
  /-- The nodes that were entered, with their distance, without the root. -/
  nodes : List (Node × Nat)
  edges : List Edge
deriving DecidableEq

namespace Walk

/-- How far a walk has come. -/
structure Progress where
  /-- The nodes that were met, with whether they were entered, the latest first. -/
  judged : List (String × Bool)
  /-- The nodes that were entered, with their distance. -/
  nodes : List (Node × Nat)
  edges : List Edge

variable {σ : Type} [Backend σ]

/-- Judge the node `id`, met at the given distance. -/
def judge (s : σ) (pass : Node → Bool) (distance : Nat) (p : Progress) (id : String) :
    Except StoreError (Bool × Progress) :=
  match p.judged.lookup id with
  | some verdict => .ok (verdict, p)
  | none => do
    match ← Store.readNodes s [id] with
    | n :: _ =>
      if pass n then
        return (true, { p with
          judged := (id, true) :: p.judged, nodes := p.nodes ++ [(n, distance)] })
      else return (false, { p with judged := (id, false) :: p.judged })
    | [] => return (false, { p with judged := (id, false) :: p.judged })

/-- Meet an edge from the node `id`, which lies at distance `distance - 1`. -/
def meet (s : σ) (pass : Node → Bool) (distance : Nat) (id : String) (p : Progress) (e : Edge) :
    Except StoreError Progress := do
  let (entered, p) ← judge s pass distance p (e.otherEnd id)
  if entered && !p.edges.any (fun f => f.key = e.key) then
    return { p with edges := p.edges ++ [e] }
  else return p

/-- Meet the edges of one node. -/
def visit (s : σ) (pass : Node → Bool) (distance : Nat) (p : Progress) (id : String) :
    Except StoreError Progress := do
  (← Store.incidentEdges s [id]).foldlM (meet s pass distance id) p

/-- The nodes that were entered at a distance. -/
def Progress.frontier (p : Progress) (distance : Nat) : List String :=
  (p.nodes.filter fun e => e.2 = distance).map fun e => e.1.id

/-- Walk on from the nodes at distance `distance - 1` for the given number of hops. -/
def goOn (s : σ) (pass : Node → Bool) :
    (hops distance : Nat) → List String → Progress → Except StoreError Progress
  | 0, _, _, p => .ok p
  | hops + 1, distance, frontier, p =>
    if frontier.isEmpty then .ok p
    else do
      let p ← frontier.foldlM (visit s pass distance) p
      goOn s pass hops (distance + 1) (p.frontier distance) p

end Walk

/-- Walk from a root; `none` if it is not stored. -/
def Store.walk {σ : Type} [Backend σ] (s : σ) (root : String) (hops : Nat) (pass : Node → Bool) :
    Except StoreError (Option Neighborhood) := do
  if (← Store.readNodes s [root]).isEmpty then return none
  else
    let p ← Walk.goOn s pass hops 1 [root] ⟨[(root, true)], [], []⟩
    return some ⟨root, p.nodes, p.edges⟩

end DatasetGraph
