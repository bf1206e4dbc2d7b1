/-!
# Finite doubles

A number of a document that is no machine integer is a double: a sign and one of the finitely many
magnitudes that a 64-bit binary number can have.  The magnitudes are counted from zero upwards, and
a double holds the *rank* of its magnitude in that count.  So the order of doubles is the order of
their ranks (`Double.compare`), two doubles are equal exactly when sign and rank are, and there is
no infinity and no NaN to exclude.

The magnitude itself is a whole number of *units*, a unit being the least positive double, `2^-1074`
(`units`).  Rounding and arithmetic work on units, in exact natural numbers; `rankOf` is the one
place where rounding happens, to the nearest magnitude and from half way to the even rank.
-/

namespace DatasetGraph

/-- How many magnitudes there are from one power of two to the next, `2^52`. -/
def Double.perOctave : Nat := 0x10000000000000

/-- The rank of the first magnitude that is too large for a double. -/
def Double.top : Nat := 2047 * Double.perOctave

/-- A finite double: a sign and the rank of its magnitude among the finite magnitudes. -/
structure Double where
  /-- Whether the sign is minus; zero has both signs. -/
  negative : Bool
  /-- The number of magnitudes below this one. -/
  rank : Nat
  rank_lt : rank < Double.top := by decide
deriving DecidableEq

namespace Double

/-! ## Magnitudes -/

/-- The power of two by which the mantissa of a magnitude is scaled. -/
def scale (rank : Nat) : Nat := rank / perOctave - 1

/-- The digits of a magnitude in base two, as a number. -/
def mantissa (rank : Nat) : Nat :=
  if rank < perOctave then rank else perOctave + rank % perOctave

/-- The magnitude of a rank, counted in units of `2^-1074`. -/
def units (rank : Nat) : Nat := mantissa rank * Nat.pow 2 (scale rank)

/-- How many units make one. -/
def unitsPerOne : Nat := Nat.pow 2 1074

/-- The quotient rounded to the nearest whole number, from half way to the even one. -/
def divRound (num den : Nat) : Nat :=
  let q := num / den
  let r := num % den
  if 2 * r < den ∨ (2 * r = den ∧ q % 2 = 0) then q else q + 1

/-- The rank of the magnitude nearest to `num / den`; it may be `top` or more, when that is too
large for a double. -/
def rankOf (num den : Nat) : Nat :=
  let inUnits := num * unitsPerOne
  let e := (inUnits / den).log2 - 52
  e * perOctave + divRound inUnits (den * Nat.pow 2 e)

/-- The product of two magnitudes, rounded. -/
def timesRank (a b : Nat) : Nat := rankOf (units a * units b) (unitsPerOne * unitsPerOne)

/-- The quotient of two magnitudes, rounded. -/
def overRank (a b : Nat) : Nat := rankOf (units a) (units b)

/-! ## Doubles -/

/-- The double of a given sign and rank; a rank that is too large becomes the largest one. -/
def ofRank (negative : Bool) (rank : Nat) : Double :=
  if h : rank < top then ⟨negative, rank, h⟩ else ⟨negative, top - 1, by decide⟩

/-- The double nearest to a whole number. -/
def ofInt (n : Int) : Double := ofRank (n < 0) (rankOf n.natAbs 1)

/-- The place of a double in the order of values, in which both zeros are one. -/
def key (x : Double) : Int := if x.negative then -(x.rank : Int) else x.rank

/-- Compare two doubles as numbers. -/
def compare (x y : Double) : Ordering := Ord.compare x.key y.key

@[simp] theorem key_mk_false (r : Nat) (h : r < top) : key ⟨false, r, h⟩ = r := rfl

@[simp] theorem key_mk_true (r : Nat) (h : r < top) : key ⟨true, r, h⟩ = -(r : Int) := rfl

example : units 1 = 1 := by decide
example : (ofInt 1).rank = 1023 * perOctave := by decide +kernel
example : compare ⟨true, 0, by decide⟩ ⟨false, 0, by decide⟩ = .eq := by decide

end Double

end DatasetGraph
