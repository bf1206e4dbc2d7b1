import DatasetGraph.Double.Basic

/-!
# Doubles from decimal digits

A decimal numeral is read into a double in two steps.  Its digits are gathered into a significand
that has to stay below `2^64`, the digits that no longer fit being left out; then the significand,
rounded to a double, is multiplied or divided by a power of ten, itself rounded to a double.  Each
step rounds on its own, so the result can be a neighbour of the double nearest to the numeral; this
is part of what reading a numeral means here, and `ofDecimal` states it.
-/

namespace DatasetGraph.Double

/-- Significands stay below this bound. -/
def significandBound : Nat := 0x10000000000000000

/-- The largest power of ten that is a finite double. -/
def maxPowerOfTen : Nat := 308

/-- The rank of a power of ten. -/
def powerOfTen (k : Nat) : Nat := rankOf (Nat.pow 10 k) 1

/-- Divide by `10^k`, in steps of at most the largest power of ten. -/
def divideByTens (rank k : Nat) : Nat :=
  if k ≤ maxPowerOfTen then overRank rank (powerOfTen k)
  else if rank = 0 then 0
  else divideByTens (overRank rank (powerOfTen maxPowerOfTen)) (k - maxPowerOfTen)
termination_by k
decreasing_by simp only [maxPowerOfTen] at *; omega

/-- Multiply by `10^k`; `none` when the result is too large for a double. -/
def multiplyByTens? (rank k : Nat) : Option Nat :=
  if k ≤ maxPowerOfTen then
    let r := timesRank rank (powerOfTen k)
    if r < top then some r else none
  else if rank = 0 then some 0
  else none

/-- The double for `significand · 10^exponent`; `none` when it is too large. -/
def ofDecimal (negative : Bool) (significand : Nat) (exponent : Int) : Option Double :=
  let rank := rankOf significand 1
  match exponent with
  | .ofNat k => (multiplyByTens? rank k).map (ofRank negative)
  | .negSucc k => some (ofRank negative (divideByTens rank (k + 1)))

/-- Append decimal digits to a significand as long as it stays below the bound; the second
component counts the digits that were taken. -/
def gather (significand : Nat) : List Nat → Nat × Nat
  | [] => (significand, 0)
  | d :: ds =>
    let next := significand * 10 + d
    if next < significandBound then
      let (s, n) := gather next ds
      (s, n + 1)
    else (significand, 0)

/-- The double for a numeral with the given digits before and after the point and the given
exponent.  Digits before the point that find no room count as powers of ten; those after it are
dropped. -/
def ofDigits (negative : Bool) (whole fraction : List Nat) (exponent : Int) : Option Double :=
  let (s, taken) := gather 0 whole
  let (s, taken') := gather s fraction
  ofDecimal negative s ((whole.length - taken : Nat) - (taken' : Int) + exponent)

theorem gather_le (s : Nat) (ds : List Nat) : (gather s ds).2 ≤ ds.length := by
  induction ds generalizing s with
  | nil => simp [gather]
  | cons d ds ih =>
    rw [gather]
    split
    · exact Nat.succ_le_succ (ih _)
    · exact Nat.zero_le _

end DatasetGraph.Double
