import DatasetGraph.Double.Decimal

/-!
# The shortest decimal text of a double

A double is written with the fewest decimal digits that still single it out.  The reals that round
to it form an interval around its magnitude, ends included exactly when its rank is even; among the
decimals with one digit, then two, and so on, the first that has a member in the interval is taken,
and of two members the nearer one, from half way the even one.

Everything is compared exactly, in half units of `2^-1075`: the ends of the interval are half way
to the neighbouring ranks, so in half units they are sums of two neighbouring magnitudes.
-/

namespace DatasetGraph.Double

/-- A decimal: `digits · 10^exponent`. -/
structure Decimal where
  digits : Nat
  exponent : Int
deriving DecidableEq, Repr

/-- The number of decimal digits of `n`, at least one. -/
def digitCount (n : Nat) : Nat := (Nat.toDigits 10 n).length

/-- The exponent of the leading decimal digit of a positive magnitude.  Every positive magnitude is
above `10^-324`, so scaling by `10^324` leaves a positive whole part whose digits can be counted. -/
def leadingExponent (rank : Nat) : Int :=
  (digitCount (units rank * Nat.pow 10 324 / unitsPerOne) : Int) - 325

/-- Whether the decimal `d · 10^up / 10^down` rounds to the magnitude of the rank.  The decimal and
both ends of the interval are in half units, all scaled by `10^down`. -/
def readsBack (rank d up down : Nat) : Bool :=
  let point := d * Nat.pow 10 up * (2 * unitsPerOne)
  let low := (units (rank - 1) + units rank) * Nat.pow 10 down
  let high := (units rank + units (rank + 1)) * Nat.pow 10 down
  if rank % 2 = 0 then low ≤ point && point ≤ high else low < point && point < high

/-- The decimal with the step `10^up / 10^down` that rounds to the magnitude and is nearest to it,
if there is one. -/
def onGrid? (rank up down : Nat) : Option Nat :=
  let num := units rank * Nat.pow 10 down
  let den := Nat.pow 10 up * unitsPerOne
  let d := num / den
  let near := divRound num den
  let far := if near = d then d + 1 else d
  if readsBack rank near up down then some near
  else if readsBack rank far up down then some far
  else none

/-- The same number without a final zero.  A grid can have one, when the magnitude lies just below
a power of ten and rounds up to it. -/
def Decimal.reduce (d : Decimal) : Decimal :=
  if d.digits % 10 = 0 then ⟨d.digits / 10, d.exponent + 1⟩ else d

/-- The decimal of the coarsest grid that has one, the grid of the leading digit coming first and
`n` finer ones after it. -/
def shortestFrom (rank : Nat) (lead : Int) : Nat → Decimal
  | 0 =>
    let step := lead - 16
    ⟨(onGrid? rank step.toNat (-step).toNat).getD 0, step⟩
  | n + 1 =>
    let step := lead - (16 - (n + 1 : Nat) : Int)
    match onGrid? rank step.toNat (-step).toNat with
    | some d => ⟨d, step⟩
    | none => shortestFrom rank lead n

/-- The shortest decimal of a positive magnitude: seventeen digits always suffice. -/
def shortest (rank : Nat) : Decimal := (shortestFrom rank (leadingExponent rank) 16).reduce

/-! ## Layout -/

/-- A numeral as it is written: the digits before and after the point, and the exponent if there is
one.  Without digits after it the point is not written. -/
structure Numeral where
  whole : List Nat
  fraction : List Nat
  exponent : Option Int := none
deriving DecidableEq, Repr

/-- The decimal digits of a number. -/
def digitsOf (n : Nat) : List Nat := (Nat.toDigits 10 n).map fun c => c.toNat - 48

/-- Positional notation starts at this exponent of the leading digit. -/
def plainFrom : Int := -5

/-- Positional notation ends before this exponent of the leading digit. -/
def plainBelow : Int := 16

/-- A decimal with the point in its place and at least one digit on either side of it. -/
def positional (digits : List Nat) (exponent : Int) : Numeral :=
  match exponent with
  | .ofNat k => { whole := digits ++ List.replicate k 0, fraction := [0] }
  | .negSucc k =>
    let before := digits.length - (k + 1)
    if k + 1 < digits.length then { whole := digits.take before, fraction := digits.drop before }
    else { whole := [0], fraction := List.replicate (k + 1 - digits.length) 0 ++ digits }

/-- A decimal with the point after its first digit and an exponent. -/
def exponential (digits : List Nat) (lead : Int) : Numeral :=
  { whole := digits.take 1, fraction := digits.drop 1, exponent := some lead }

/-- The numeral of a magnitude. -/
def numeral (rank : Nat) : Numeral :=
  if rank = 0 then { whole := [0], fraction := [0] } else
    let d := shortest rank
    let digits := digitsOf d.digits
    let lead := d.exponent + (digits.length : Int) - 1
    if plainFrom ≤ lead ∧ lead < plainBelow then positional digits d.exponent
    else exponential digits lead

/-- The text of an exponent, with its sign. -/
def exponentText (e : Int) : List Char :=
  'e' :: (if e < 0 then '-' else '+') :: Nat.toDigits 10 e.natAbs

/-- The text of a numeral. -/
def Numeral.text (n : Numeral) : List Char :=
  let fraction := if n.fraction.isEmpty then [] else '.' :: n.fraction.map Nat.digitChar
  n.whole.map Nat.digitChar ++ fraction ++ (n.exponent.map exponentText).getD []

/-- The text of a double: a minus sign if it has one, zero included, and its magnitude. -/
def text (x : Double) : List Char :=
  let magnitude := (numeral x.rank).text
  if x.negative then '-' :: magnitude else magnitude

/-- The double that is read from the text of `x`.  It can be a neighbour of `x`, since reading
rounds twice and counts the zeros that the layout adds among the digits. -/
def reread (x : Double) : Double :=
  let n := numeral x.rank
  (ofDigits x.negative n.whole n.fraction (n.exponent.getD 0)).getD x

end DatasetGraph.Double
