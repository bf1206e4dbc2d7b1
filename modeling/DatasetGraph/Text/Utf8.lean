/-!
# Octets as text

Reading UTF-8 that may be broken.  Each longest run of octets that starts a character and does not
finish it becomes one U+FFFD, and so does each octet that cannot start one; everything else is read
as the character it encodes.

The reader goes over the octets once.  Between two of them it knows how many are still owed, which
ones may come next, and what the ones before contribute to the code point.
-/

namespace DatasetGraph.Text.Utf8

/-- The octets of characters. -/
def encode (cs : List Char) : List UInt8 := cs.flatMap String.utf8EncodeChar

/-- What stands for octets that are no character. -/
def replacement : Char := '\ufffd'

/-- A character of which some octets have been read. -/
structure Pending where
  /-- How many octets are owed after the next one. -/
  later : Nat
  /-- The code point so far. -/
  value : Nat
  /-- The least octet that may come next. -/
  low : Nat := 0x80
  /-- The greatest octet that may come next. -/
  high : Nat := 0xbf

/-- Start a character: the characters that are finished by it, and what is pending. -/
def start (b : UInt8) : List Char × Option Pending :=
  let n := b.toNat
  if n < 0x80 then ([Char.ofNat n], none)
  else if 0xc2 ≤ n ∧ n ≤ 0xdf then ([], some { later := 0, value := n - 0xc0 })
  else if n = 0xe0 then ([], some { later := 1, value := 0, low := 0xa0 })
  else if n = 0xed then ([], some { later := 1, value := 0xd, high := 0x9f })
  else if 0xe1 ≤ n ∧ n ≤ 0xef then ([], some { later := 1, value := n - 0xe0 })
  else if n = 0xf0 then ([], some { later := 2, value := 0, low := 0x90 })
  else if n = 0xf4 then ([], some { later := 2, value := 4, high := 0x8f })
  else if 0xf1 ≤ n ∧ n ≤ 0xf3 then ([], some { later := 2, value := n - 0xf0 })
  else ([replacement], none)

/-- Read an octet. -/
def step : Option Pending → UInt8 → List Char × Option Pending
  | none, b => start b
  | some p, b =>
    if p.low ≤ b.toNat ∧ b.toNat ≤ p.high then
      let value := 0x40 * p.value + (b.toNat - 0x80)
      match p.later with
      | 0 => ([Char.ofNat value], none)
      | later + 1 => ([], some { later, value })
    else
      let (cs, next) := start b
      (replacement :: cs, next)

/-- Read octets on from what is pending. -/
def decodeFrom : Option Pending → List UInt8 → List Char
  | none, [] => []
  | some _, [] => [replacement]
  | p, b :: bs =>
    let (cs, next) := step p b
    cs ++ decodeFrom next bs

/-- The characters of octets. -/
def decode (bs : List UInt8) : List Char := decodeFrom none bs

@[simp] theorem decode_nil : decode [] = [] := rfl

example : decode (encode "aé€😀".toList) = "aé€😀".toList := by decide
example :
    decode [0xf0, 0x9f, 0x41, 0xed, 0xa0, 0x80, 0xc3] =
      "\ufffdA\ufffd\ufffd\ufffd\ufffd".toList := by decide

end DatasetGraph.Text.Utf8
