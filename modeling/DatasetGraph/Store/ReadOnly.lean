import DatasetGraph.Store.Basic

/-!
# Stores that are only read

A store that is only read answers as the store in it does.  It refuses every change, and remembers
that it has done so.  A change that is refused fails at once, so nothing is read for what would have
been written after it.
-/

namespace DatasetGraph

/-- A store that refuses changes. -/
structure ReadOnly (σ : Type) where
  store : σ
  /-- Whether a change has been asked for. -/
  refused : Bool := false

namespace ReadOnly

variable {σ : Type}

/-- Refuse a change. -/
def refuse (s : ReadOnly σ) : ReadOnly σ := { s with refused := true }

instance [Backend σ] : Backend (ReadOnly σ) where
  empty := ⟨Backend.empty, false⟩
  legible := Backend.legible σ
  node? s id := if s.refused then none else Backend.node? s.store id
  edge? s k := if s.refused then none else Backend.edge? s.store k
  labelled s := Backend.labelled s.store
  incidentAll s := Backend.incidentAll s.store
  mergeNode s _ := s.refuse
  mergeEdge s _ := s.refuse
  updateNode s _ := s.refuse
  deleteNode s _ := s.refuse

@[simp] theorem store_refuse (s : ReadOnly σ) : s.refuse.store = s.store := rfl

@[simp] theorem refused_refuse (s : ReadOnly σ) : s.refuse.refused = true := rfl

end ReadOnly

end DatasetGraph
