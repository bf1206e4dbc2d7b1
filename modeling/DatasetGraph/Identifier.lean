import DatasetGraph.Label
import DatasetGraph.Text.Hex
import DatasetGraph.Text.Quoted

/-!
# Identifiers

A store spells labels and relationships with ASCII letters, digits and underscores only, no digit
first.  `escape` turns any token into such an identifier and `unescape` gives the token back:

* an underscore is written twice;
* a letter, and a digit that is not first, stands for itself;
* any other character is written as its code point in at least four hexadecimal digits between
  `_u` and `_`.

`unescape` reads somewhat more than `escape` writes: digits of either case, any number of leading
zeros, and every character but the underscore as itself.
-/

namespace DatasetGraph

/-- Why a text is no identifier, or a token has none. -/
inductive IdentifierFault where
  | emptyToken
  /-- An escape with something else than digits before its end, or without an end. -/
  | unterminatedEscape
  /-- An escape without digits, or with more than 32 bits. -/
  | emptyEscape
  /-- An escape whose number is no character. -/
  | noCharacter
  /-- An underscore that starts nothing. -/
  | danglingUnderscore
deriving DecidableEq

/-- The wording of the reason. -/
def IdentifierFault.reason : IdentifierFault → String
  | .emptyToken => "empty token"
  | .unterminatedEscape => "unterminated escape"
  | .emptyEscape => "empty escape"
  | .noCharacter => "escape is not a character"
  | .danglingUnderscore => "dangling underscore"

/-- A text that is no identifier, or a token that has none. -/
structure InvalidIdentifier where
  text : String
  fault : IdentifierFault
deriving DecidableEq

/-- How it is reported. -/
def InvalidIdentifier.message (e : InvalidIdentifier) : String :=
  "invalid identifier " ++ Text.quoted e.text ++ ": " ++ e.fault.reason

/-- The spelling of a label or a relationship in a store. -/
structure Identifier where
  text : String
deriving DecidableEq

namespace Identifier

/-! ## Writing -/

/-- The escape of a character. -/
def escapeCode (c : Char) : List Char :=
  '_' :: 'u' :: Text.Hex.upper c.toNat (max 4 (Text.Hex.width c.toNat)) ++ ['_']

/-- A character after the first. -/
def escapeChar (c : Char) : List Char :=
  if c = '_' then ['_', '_'] else if c.isAlphanum then [c] else escapeCode c

/-- The first character. -/
def escapeFirst (c : Char) : List Char := if c.isDigit then escapeCode c else escapeChar c

/-- The characters of the identifier of a token. -/
def escapeChars : List Char → List Char
  | [] => []
  | c :: cs => escapeFirst c ++ cs.flatMap escapeChar

/-- The identifier of a token, empty for the empty one. -/
def escape (token : String) : String := String.ofList (escapeChars token.toList)

/-! ## Reading -/

/-- The character of an escape with the given digits. -/
def charOfDigits (ds : List Char) : Except IdentifierFault Char :=
  match ds, Text.Hex.ofDigits ds with
  | [], _ => .error .emptyEscape
  | _, none => .error .emptyEscape
  | _, some n =>
    if 0xffffffff < n then .error .emptyEscape
    else if n.isValidChar then .ok (Char.ofNat n)
    else .error .noCharacter

/-- Where a reader stands: between characters, behind an underscore, or behind some digits of an
escape. -/
inductive Place where
  | between
  | underscore
  | escaping (digits : List Char)

/-- The token of the characters of an identifier, read on from a place. -/
def unescapeChars : Place → List Char → Except IdentifierFault (List Char)
  | .between, [] => .ok []
  | .between, c :: cs =>
    if c = '_' then unescapeChars .underscore cs else (unescapeChars .between cs).map (c :: ·)
  | .underscore, [] => .error .danglingUnderscore
  | .underscore, c :: cs =>
    if c = '_' then (unescapeChars .between cs).map ('_' :: ·)
    else if c = 'u' then unescapeChars (.escaping []) cs
    else .error .danglingUnderscore
  | .escaping _, [] => .error .unterminatedEscape
  | .escaping ds, c :: cs =>
    if c = '_' then
      match charOfDigits ds with
      | .ok d => (unescapeChars .between cs).map (d :: ·)
      | .error e => .error e
    else if Text.Hex.isDigit c then unescapeChars (.escaping (ds ++ [c])) cs
    else .error .unterminatedEscape

/-- The token of an identifier. -/
def unescape (text : String) : Except InvalidIdentifier String :=
  match unescapeChars .between text.toList with
  | .ok cs => .ok (String.ofList cs)
  | .error e => .error ⟨text, e⟩

/-! ## Identifiers of tokens -/

/-- The identifier of a token, which must not be empty. -/
def ofToken (token : String) : Except InvalidIdentifier Identifier :=
  if token = "" then .error ⟨"", .emptyToken⟩ else .ok ⟨escape token⟩

/-- The identifier of a registered label. -/
def ofLabel (l : Label) : Identifier := ⟨escape l.token⟩

/-- The token of the identifier. -/
def token (i : Identifier) : Except InvalidIdentifier String := unescape i.text

end Identifier

end DatasetGraph
