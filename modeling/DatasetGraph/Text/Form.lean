import DatasetGraph.Text.Percent
import DatasetGraph.Text.Utf8

/-!
# Form-encoded text

The encoding of names and values in the query of an address: pairs stand between ampersands, and an
equals sign ends the name.  A plus sign is a space and `%` with two hexadecimal digits is an octet;
a `%` that is not followed by two digits is itself.  The octets are read as UTF-8.
-/

namespace DatasetGraph.Text.Form

/-- What a character stands for before escapes are read. -/
def plain (c : Char) : Char := if c = '+' then ' ' else c

/-- The text that characters stand for. -/
def unescape (cs : List Char) : String :=
  String.ofList (Utf8.decode (Percent.octets (cs.map plain)))

/-- The stretches between the characters that equal `separator`. -/
def split (separator : Char) : List Char → List (List Char)
  | [] => [[]]
  | c :: cs =>
    if c = separator then [] :: split separator cs
    else
      match split separator cs with
      | first :: rest => (c :: first) :: rest
      | [] => [[c]]

/-- A name and its value, which is empty if there is no equals sign. -/
def pair (cs : List Char) : String × String :=
  (unescape (cs.takeWhile (· ≠ '=')), unescape ((cs.dropWhile (· ≠ '=')).drop 1))

/-- The names of a form with their values. -/
def pairs (cs : List Char) : List (String × String) :=
  ((split '&' cs).filter fun part => !part.isEmpty).map pair

example : pairs "a=b%20c+d&&e&f=%zz=%e2%82%ac%ff".toList =
    [("a", "b c d"), ("e", ""), ("f", "%zz=€\ufffd")] := by decide +kernel

end DatasetGraph.Text.Form
