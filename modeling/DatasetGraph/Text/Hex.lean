/-!
# Hexadecimal digits

Escapes in texts and identifiers name a code point in base sixteen.  `upper n k` writes the last
`k` digits of `n`; `value?` reads one digit in either case and `ofDigits` a run of them.
-/

namespace DatasetGraph.Text.Hex

/-- The upper-case digit for a number below sixteen. -/
def digit (n : Nat) : Char :=
  if n < 10 then Char.ofNat (48 + n) else Char.ofNat (55 + n)

/-- The number a digit of either case stands for. -/
def value? (c : Char) : Option Nat :=
  let n := c.toNat
  if 48 ≤ n && n ≤ 57 then some (n - 48)
  else if 65 ≤ n && n ≤ 70 then some (n - 55)
  else if 97 ≤ n && n ≤ 102 then some (n - 87)
  else none

/-- Whether `c` is a hexadecimal digit. -/
def isDigit (c : Char) : Bool := (value? c).isSome

/-- The last `k` digits of `n`, upper case. -/
def upper (n : Nat) : Nat → List Char
  | 0 => []
  | k + 1 => upper (n / 16) k ++ [digit (n % 16)]

/-- How many digits a code point needs. -/
def width (n : Nat) : Nat :=
  if n < 0x10 then 1 else if n < 0x100 then 2 else if n < 0x1000 then 3
  else if n < 0x10000 then 4 else if n < 0x100000 then 5 else 6

/-- The last `k` digits of `n`, lower case. -/
def lower (n k : Nat) : List Char := (upper n k).map Char.toLower

/-- The number a run of digits stands for, `none` if one of them is no digit.  The empty run
stands for zero. -/
def ofDigits (ds : List Char) : Option Nat :=
  ds.foldlM (fun n c => (value? c).map (16 * n + ·)) 0

@[simp] theorem length_upper (n k : Nat) : (upper n k).length = k := by
  induction k generalizing n with
  | zero => rfl
  | succ k ih => simp [upper, ih]

end DatasetGraph.Text.Hex
