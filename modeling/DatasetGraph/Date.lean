import DatasetGraph.Text.Blank
import DatasetGraph.Text.Digits

/-!
# Calendar dates

Days of the Gregorian calendar, written as year, month and day with hyphens between them.

Reading is lenient in some points.  White space may stand before each of the three numbers.  A year
without a sign has at most four digits, one with a sign any number; month and day have one or two.
Two faults are told apart by when they show: a month or day that no year has is out of range as soon
as it is read, a day that this month does not have only once the whole text is read.
-/

namespace DatasetGraph

/-- A day. -/
structure Date where
  year : Int
  month : Nat
  day : Nat
deriving DecidableEq

/-- Why a text is no date. -/
inductive DateFault where
  /-- The text ends too early. -/
  | premature
  /-- A character that is not due. -/
  | invalid
  /-- The text goes on after the date. -/
  | trailing
  /-- A number that is too small or too large. -/
  | outOfRange
deriving DecidableEq

/-- The wording of the fault. -/
def DateFault.message : DateFault → String
  | .premature => "premature end of input"
  | .invalid => "input contains invalid characters"
  | .trailing => "trailing input"
  | .outOfRange => "input is out of range"

namespace Date

/-! ## The calendar -/

/-- Whether the year has a 29th of February. -/
def isLeap (year : Int) : Bool :=
  year % 4 = 0 && (year % 100 ≠ 0 || year % 400 = 0)

/-- The number of days of a month. -/
def daysIn (year : Int) (month : Nat) : Nat :=
  if month = 2 then (if isLeap year then 29 else 28)
  else if month = 4 ∨ month = 6 ∨ month = 9 ∨ month = 11 then 30
  else 31

/-- The first and the last year of the calendar. -/
def isYear (year : Int) : Bool := -262143 ≤ year && year ≤ 262142

/-- The order of days. -/
def compare (a b : Date) : Ordering :=
  (Ord.compare a.year b.year).then <|
    (Ord.compare a.month b.month).then (Ord.compare a.day b.day)

/-! ## Reading -/

/-- The number at the front of a text, of at least one digit, and what follows it. -/
def number (digits : List Char → List Char) (cs : List Char) :
    Except DateFault (Nat × List Char) :=
  match cs, digits cs with
  | [], _ => .error .premature
  | _, [] => .error .invalid
  | _, ds => .ok (Text.Digits.value ds, cs.drop ds.length)

/-- Any number of digits. -/
def allDigits (cs : List Char) : List Char := cs.takeWhile Char.isDigit

/-- At most `n` digits. -/
def upToDigits (n : Nat) (cs : List Char) : List Char := (cs.take n).takeWhile Char.isDigit

/-- The year, which has to be a 32-bit integer. -/
def readYear (cs : List Char) : Except DateFault (Int × List Char) :=
  match Text.dropBlanks cs with
  | '-' :: cs => do
    let (n, rest) ← number allDigits cs
    if n ≤ 0x80000000 then return (-(n : Int), rest) else throw .outOfRange
  | '+' :: cs => do
    let (n, rest) ← number allDigits cs
    if n < 0x80000000 then return (n, rest) else throw .outOfRange
  | cs => do
    let (n, rest) ← number (upToDigits 4) cs
    return (n, rest)

/-- A month or a day, which lies between one and the given bound. -/
def readPart (bound : Nat) (cs : List Char) : Except DateFault (Nat × List Char) := do
  let (n, rest) ← number (upToDigits 2) (Text.dropBlanks cs)
  if 1 ≤ n ∧ n ≤ bound then return (n, rest) else throw .outOfRange

/-- A hyphen. -/
def readHyphen : List Char → Except DateFault (List Char)
  | [] => .error .premature
  | c :: rest => if c = '-' then .ok rest else .error .invalid

/-- The date of a text. -/
def ofChars (cs : List Char) : Except DateFault Date := do
  let (year, rest) ← readYear cs
  let rest ← readHyphen rest
  let (month, rest) ← readPart 12 rest
  let rest ← readHyphen rest
  let (day, rest) ← readPart 31 rest
  if !rest.isEmpty then throw .trailing
  if isYear year && day ≤ daysIn year month then return ⟨year, month, day⟩ else throw .outOfRange

/-! ## Writing -/

/-- A number in at least `width` digits. -/
def padded (width n : Nat) : List Char :=
  let ds := Nat.toDigits 10 n
  List.replicate (width - ds.length) '0' ++ ds

/-- A year, with a sign unless it has at most four digits and is not negative. -/
def yearChars (year : Int) : List Char :=
  if 0 ≤ year ∧ year ≤ 9999 then padded 4 year.toNat
  else (if year < 0 then '-' else '+') :: padded 4 year.natAbs

/-- The text of a date. -/
def text (d : Date) : String :=
  String.ofList (yearChars d.year ++ '-' :: padded 2 d.month ++ '-' :: padded 2 d.day)

end Date

end DatasetGraph
