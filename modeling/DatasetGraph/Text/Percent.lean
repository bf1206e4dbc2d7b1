import DatasetGraph.Text.Hex

/-!
# Percent escapes

In an address an octet can be written as `%` and its two hexadecimal digits.  A `%` that is not
followed by two digits is itself, and every other character stands for its octets in UTF-8.
-/

namespace DatasetGraph.Text.Percent

/-- The octet of two hexadecimal digits. -/
def octet? (a b : Char) : Option UInt8 := do
  return UInt8.ofNat (16 * (← Hex.value? a) + (← Hex.value? b))

/-- The octets that characters stand for. -/
def octets : List Char → List UInt8
  | [] => []
  | '%' :: a :: b :: rest =>
    match octet? a b with
    | some n => n :: octets rest
    | none => String.utf8EncodeChar '%' ++ octets (a :: b :: rest)
  | c :: rest => String.utf8EncodeChar c ++ octets rest

example : octets "a%2fb%2".toList = "a/b%2".toList.flatMap String.utf8EncodeChar := by decide

end DatasetGraph.Text.Percent
