/-!
# Decimal digits

Reading a natural number from its ASCII digits.  Leading zeros are read and do not matter.
-/

namespace DatasetGraph.Text.Digits

/-- The number that digits stand for. -/
def value (ds : List Char) : Nat := ds.foldl (fun n c => 10 * n + (c.toNat - 48)) 0

/-- The number of a text of at least one digit and nothing else. -/
def value? (cs : List Char) : Option Nat :=
  if !cs.isEmpty && cs.all Char.isDigit then some (value cs) else none

@[simp] theorem value_nil : value [] = 0 := rfl

@[simp] theorem value_append_singleton (ds : List Char) (c : Char) :
    value (ds ++ [c]) = 10 * value ds + (c.toNat - 48) := by
  simp [value]

@[simp] theorem value?_nil : value? [] = none := rfl

end DatasetGraph.Text.Digits
