import DatasetGraph.Json.Basic
import DatasetGraph.Text.Hex

/-!
# Writing JSON

Two layouts of one format.  `compact` has no white space at all; it is what values are compared by,
what a store keeps and what a message is sent as.  `pretty` puts each item and each member on a line
of its own, indented by two blanks a level, and writes an empty list or object as two brackets.

Of the characters of a text only the double quote, the backslash and the control characters below
the blank are escaped, five of them by a letter.
-/

namespace DatasetGraph.Json

/-! ## Scalars -/

/-- One character inside a JSON text. -/
def escapedChar (c : Char) : List Char :=
  if c = '"' then ['\\', '"']
  else if c = '\\' then ['\\', '\\']
  else if c = '\n' then ['\\', 'n']
  else if c = '\r' then ['\\', 'r']
  else if c = '\t' then ['\\', 't']
  else if c = '\x08' then ['\\', 'b']
  else if c = '\x0c' then ['\\', 'f']
  else if c.toNat < 0x20 then '\\' :: 'u' :: Text.Hex.lower c.toNat 4
  else [c]

/-- A text between double quotes. -/
def textChars (s : String) : List Char := '"' :: s.toList.flatMap escapedChar ++ ['"']

/-- A whole number in base ten. -/
def intChars (n : Int) : List Char :=
  if n < 0 then '-' :: Nat.toDigits 10 n.natAbs else Nat.toDigits 10 n.natAbs

/-- A number. -/
def numberChars : Number → List Char
  | .int n => intChars n
  | .double x => x.text

/-! ## Without white space -/

mutual

/-- The characters of a value, without white space. -/
def compactChars : Json → List Char
  | .null => ['n', 'u', 'l', 'l']
  | .bool true => ['t', 'r', 'u', 'e']
  | .bool false => ['f', 'a', 'l', 's', 'e']
  | .num n => numberChars n
  | .str s => textChars s
  | .arr [] => ['[', ']']
  | .arr (v :: vs) => '[' :: (compactChars v ++ compactItems vs)
  | .obj [] => ['{', '}']
  | .obj ((k, v) :: ms) => '{' :: (textChars k ++ ':' :: (compactChars v ++ compactMembers ms))

/-- The items of a list after its first, and the bracket that closes it. -/
def compactItems : List Json → List Char
  | [] => [']']
  | v :: vs => ',' :: (compactChars v ++ compactItems vs)

/-- The members of an object after its first, and the brace that closes it. -/
def compactMembers : List (String × Json) → List Char
  | [] => ['}']
  | (k, v) :: ms => ',' :: (textChars k ++ ':' :: (compactChars v ++ compactMembers ms))

end

/-- The value on one line, without white space. -/
def compact (v : Json) : String := String.ofList v.compactChars

/-! ## One line for each item -/

/-- A new line, indented. -/
def lineBreak (depth : Nat) : List Char := '\n' :: List.replicate (2 * depth) ' '

mutual

/-- The characters of a value whose own line is indented by `depth` levels. -/
def prettyChars (depth : Nat) : Json → List Char
  | .arr [] => ['[', ']']
  | .arr (v :: vs) =>
    '[' :: (lineBreak (depth + 1) ++ (prettyChars (depth + 1) v ++ prettyItems depth vs))
  | .obj [] => ['{', '}']
  | .obj ((k, v) :: ms) =>
    '{' :: (lineBreak (depth + 1) ++ (textChars k ++ ':' :: ' ' ::
      (prettyChars (depth + 1) v ++ prettyMembers depth ms)))
  | v => compactChars v

/-- The items of a list after its first, and the bracket that closes it. -/
def prettyItems (depth : Nat) : List Json → List Char
  | [] => lineBreak depth ++ [']']
  | v :: vs => ',' :: (lineBreak (depth + 1) ++ (prettyChars (depth + 1) v ++ prettyItems depth vs))

/-- The members of an object after its first, and the brace that closes it. -/
def prettyMembers (depth : Nat) : List (String × Json) → List Char
  | [] => lineBreak depth ++ ['}']
  | (k, v) :: ms =>
    ',' :: (lineBreak (depth + 1) ++ (textChars k ++ ':' :: ' ' ::
      (prettyChars (depth + 1) v ++ prettyMembers depth ms)))

end

/-- The value with one line for each item and each member. -/
def pretty (v : Json) : String := String.ofList (prettyChars 0 v)

end DatasetGraph.Json
