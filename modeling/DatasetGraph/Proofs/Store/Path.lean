import DatasetGraph.Proofs.Store.Reading
import Mathlib.Data.Nat.Find

/-!
# Paths

Nodes are joined by paths of stored edges, each followed in either direction.  All nodes of a path
but the first, its *root*, have to pass a test.  The length of a shortest path to a node is its
distance, and before a node of some distance there is one of each smaller distance
(`Distance.exists_of_le`).
-/

namespace DatasetGraph

namespace Contents

section

variable (c : Contents) (pass : Node → Bool) (root : String)

/-- There is a path of a given length from the root to a node. -/
inductive Path : Nat → String → Prop where
  | start : Path 0 root
  | step {k : Nat} {a b : String} {n : Node} (h : Path k a) (joined : c.Joined a b)
      (read : c.read? b = some n) (passes : pass n = true) : Path (k + 1) b

/-- The shortest paths from the root to a node have a given length. -/
def Distance (k : Nat) (id : String) : Prop :=
  c.Path pass root k id ∧ ∀ j, c.Path pass root j id → k ≤ j

/-- There is a path to the node of at most a given length. -/
def Within (k : Nat) (id : String) : Prop := ∃ j ≤ k, c.Path pass root j id

end

variable {c : Contents} {pass : Node → Bool} {root : String}

theorem path_zero_iff {id : String} : c.Path pass root 0 id ↔ id = root := by
  constructor
  · intro h
    cases h
    rfl
  · rintro rfl
    exact .start

theorem path_succ_iff {k : Nat} {b : String} :
    c.Path pass root (k + 1) b ↔
      ∃ a n, c.Path pass root k a ∧ c.Joined a b ∧ c.read? b = some n ∧ pass n = true := by
  constructor
  · intro hx
    rcases hx with _ | ⟨h, joined, read, passes⟩
    exact ⟨_, _, h, joined, read, passes⟩
  · intro hx
    obtain ⟨a, n, h, joined, read, passes⟩ := hx
    exact .step h joined read passes

/-- A path stays one when more nodes pass. -/
theorem Path.imp {pass' : Node → Bool} {k : Nat} {id : String} (h : c.Path pass root k id)
    (himp : ∀ n, pass n = true → pass' n = true) : c.Path pass' root k id := by
  induction h with
  | start => exact .start
  | step _ joined read passes ih => exact .step ih joined read (himp _ passes)

/-- All nodes of a path but its root can be read, and they pass. -/
theorem Path.read {k : Nat} {id : String} (h : c.Path pass root k id) :
    id = root ∨ ∃ n, c.read? id = some n ∧ pass n = true := by
  cases h with
  | start => exact .inl rfl
  | step _ _ read passes => exact .inr ⟨_, read, passes⟩

/-! ## Distances -/

theorem distance_root : c.Distance pass root 0 root := ⟨.start, fun _ _ => Nat.zero_le _⟩

theorem Path.exists_distance {k : Nat} {id : String} (h : c.Path pass root k id) :
    ∃ j ≤ k, c.Distance pass root j id := by
  classical
  have hex : ∃ j, c.Path pass root j id := ⟨k, h⟩
  exact ⟨Nat.find hex, Nat.find_min' hex h, Nat.find_spec hex, fun _ hj => Nat.find_min' hex hj⟩

theorem Distance.unique {j k : Nat} {id : String} (hj : c.Distance pass root j id)
    (hk : c.Distance pass root k id) : j = k :=
  Nat.le_antisymm (hj.2 k hk.1) (hk.2 j hj.1)

theorem Distance.ne_root {k : Nat} {id : String} (h : c.Distance pass root k id) (hk : 1 ≤ k) :
    id ≠ root := by
  rintro rfl
  exact absurd (h.2 0 .start) (Nat.not_le_of_gt hk)

/-- A shortest path is shortest to the node before its end. -/
theorem Distance.exists_pred {k : Nat} {id : String} (h : c.Distance pass root (k + 1) id) :
    ∃ a, c.Distance pass root k a ∧ c.Joined a id := by
  obtain ⟨a, n, ha, joined, read, passes⟩ := path_succ_iff.1 h.1
  refine ⟨a, ⟨ha, fun j hj => ?_⟩, joined⟩
  exact Nat.le_of_succ_le_succ (h.2 (j + 1) (.step hj joined read passes))

theorem Distance.exists_of_le {j k : Nat} {id : String} (h : c.Distance pass root k id)
    (hjk : j ≤ k) : ∃ a, c.Distance pass root j a := by
  induction hjk using Nat.decreasingInduction with
  | self => exact ⟨id, h⟩
  | of_succ i _ ih =>
    obtain ⟨b, hb⟩ := ih
    obtain ⟨a, ha, _⟩ := hb.exists_pred
    exact ⟨a, ha⟩

theorem within_iff {k : Nat} {id : String} :
    c.Within pass root k id ↔ ∃ j ≤ k, c.Distance pass root j id := by
  constructor
  · intro hx
    obtain ⟨i, hi, h⟩ := hx
    obtain ⟨j, hj, hd⟩ := h.exists_distance
    exact ⟨j, hj.trans hi, hd⟩
  · intro hx
    obtain ⟨j, hj, hd⟩ := hx
    exact ⟨j, hj, hd.1⟩

end Contents

end DatasetGraph
