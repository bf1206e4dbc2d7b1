/-!
# Media types

What the content of a body is, as its sender declares it: a type and a subtype, and parameters that
say more.  Case does not matter.  A subtype with a plus sign ends with the structure that it is
based on, so a body is JSON if its type is `application/json` or ends in `+json`.  A declaration
that does not follow the grammar declares nothing.
-/

namespace DatasetGraph

/-- A declared type, in lower case and without its parameters. -/
structure MediaType where
  type : String
  subtype : String
  /-- The structure that the subtype is based on. -/
  base : Option String
deriving DecidableEq

namespace MediaType

/-! ## The grammar -/

/-- Whether a character may stand in a name. -/
def isNameChar (c : Char) : Bool := c.isAlphanum || "!#$%&\x27*+-.^_\x60|~".toList.contains c

/-- Whether a character may stand between quotes. -/
def isQuotable (c : Char) : Bool := 32 ≤ c.toNat && c.toNat ≤ 126

/-- Where a reader of parameters stands. -/
inductive Place where
  /-- Where a name may start. -/
  | outside
  /-- In a name. -/
  | name
  /-- Behind the equals sign. -/
  | equals
  /-- In a value. -/
  | value
  /-- Behind the quote that opens a value. -/
  | opened
  /-- In a quoted value. -/
  | quoted
  /-- Behind the quote that closes a value. -/
  | closed

/-- The place behind a character, if the character may stand there. -/
def Place.next? : Place → Char → Option Place
  | .outside, c => if c = ' ' then some .outside else if isNameChar c then some .name else none
  | .name, c => if c = '=' then some .equals else if isNameChar c then some .name else none
  | .equals, c => if c = '"' then some .opened else if isNameChar c then some .value else none
  | .value, c => if c = ';' then some .outside else if isNameChar c then some .value else none
  | .opened, c => if isQuotable c then some .quoted else none
  | .quoted, c => if c = '"' then some .closed else if isQuotable c then some .quoted else none
  | .closed, c => if c = ';' then some .outside else if c = ' ' then some .closed else none

/-- Whether parameters may end there. -/
def Place.isEnd : Place → Bool
  | .outside | .equals | .value | .closed => true
  | .name | .opened | .quoted => false

/-- Whether characters are parameters. -/
def areParameters (cs : List Char) : Bool := (cs.foldlM Place.next? .outside).any Place.isEnd

/-- Whether characters may follow the subtype. -/
def mayFollow : List Char → Bool
  | [] => true
  | c :: rest => c = ';' && areParameters rest

/-- What stands behind the last plus sign, unless that comes first. -/
def base? (subtype : List Char) : Option (List Char) :=
  match subtype.reverse.span (· ≠ '+') with
  | (_, []) | (_, [_]) => none
  | (after, _) => some after.reverse

/-- What stands before the last plus sign, unless that comes first. -/
def own (subtype : List Char) : List Char :=
  match base? subtype with
  | some after => subtype.take (subtype.length - after.length - 1)
  | none => subtype

/-- The declared type. -/
def parse? (declared : String) : Option MediaType :=
  match (declared.toList.map Char.toLower).span isNameChar with
  | (type, '/' :: rest) =>
    let (subtype, rest) := rest.span isNameChar
    if type.isEmpty || subtype.isEmpty || !mayFollow rest then none
    else some
      { type := .ofList type
        subtype := .ofList (own subtype)
        base := (base? subtype).map .ofList }
  | _ => none

/-! ## JSON -/

/-- Whether the content is JSON. -/
def isJson (m : MediaType) : Bool :=
  m.type = "application" && (m.subtype = "json" || m.base = some "json")

/-- Whether JSON is declared. -/
def declaresJson (declared : String) : Bool := (parse? declared).any isJson

example : declaresJson "Application/LD+JSON; charset=\"utf 8\" ; x=" = true := by decide +kernel
example : declaresJson "application/json ;x=y" = false := by decide +kernel
example : declaresJson "application/jsonx" = false := by decide +kernel
example : declaresJson "text/json" = false := by decide +kernel

end MediaType

end DatasetGraph
