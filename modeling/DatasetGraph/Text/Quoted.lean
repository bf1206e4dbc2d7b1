import DatasetGraph.Text.Hex
import DatasetGraph.Text.Unprintable

/-!
# Quoted texts in messages

A message shows a text of the user between double quotes, so that its limits and its invisible
characters can be seen: a quote and a backslash are escaped by a backslash, the four common control
characters have a letter, and every other unprintable character is written by its code point.
-/

namespace DatasetGraph.Text

/-- One character as it stands inside the quotes. -/
def quotedChar (c : Char) : List Char :=
  if c = '"' then ['\\', '"']
  else if c = '\\' then ['\\', '\\']
  else if c = '\n' then ['\\', 'n']
  else if c = '\r' then ['\\', 'r']
  else if c = '\t' then ['\\', 't']
  else if c = '\x00' then ['\\', '0']
  else if isUnprintable c then
    ['\\', 'u', '{'] ++ Hex.lower c.toNat (Hex.width c.toNat) ++ ['}']
  else [c]

/-- The text between double quotes, with its invisible characters spelt out. -/
def quoted (s : String) : String :=
  String.ofList (['"'] ++ s.toList.flatMap quotedChar ++ ['"'])

/-- A list of texts, each quoted, between square brackets. -/
def quotedList (ss : List String) : String :=
  "[" ++ ", ".intercalate (ss.map quoted) ++ "]"

example : quoted "a\"\n" = "\"a\\\"\\n\"" := by decide +kernel
example : quotedList ["x", "y"] = "[\"x\", \"y\"]" := by decide +kernel

end DatasetGraph.Text
