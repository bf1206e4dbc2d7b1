import DatasetGraph.Json.Basic

/-!
# What a decoder reads

A decoder reads its input from left to right and stops at the first fault it meets.  The fault can
lie in the shape (a number where a text is due) or in the text itself, which may break off anywhere;
which of two faults is reported depends on which comes first.  A `Source` keeps that order: it is
the part of a value that can be read, in the order of the text, with repeated keys still there, and
with a leaf wherever something could not be read.

A JSON value is a source too (`Source.ofJson`), one without such leaves.  Its lists and objects are
`known`: their number of items can be told.  Those of a text are `closed` when their bracket came,
or `cut` when the text broke before it.
-/

namespace DatasetGraph.Json

/-- How a list or an object ends. -/
inductive Ending where
  /-- It is the list or object of a value. -/
  | known
  /-- Its closing bracket was read. -/
  | closed
  /-- The text broke off inside it. -/
  | cut
deriving DecidableEq

/-- A value as it is met. -/
inductive Source where
  | null
  | bool (b : Bool)
  | num (n : Number)
  | str (s : String)
  /-- A well-formed part of a text that has no value. -/
  | valueless
  /-- The text breaks off here. -/
  | cut
  | arr (items : List Source) (ending : Ending)
  /-- An object; a key is absent when it has no value. -/
  | obj (members : List (Option String × Source)) (ending : Ending)

namespace Source

instance : Inhabited Source := ⟨.cut⟩

/-! ## From a value -/

mutual

/-- A value as a source. -/
def ofJson : Json → Source
  | .null => .null
  | .bool b => .bool b
  | .num n => .num n
  | .str s => .str s
  | .arr items => .arr (ofItems items) .known
  | .obj members => .obj (ofMembers members) .known

/-- Values as sources. -/
def ofItems : List Json → List Source
  | [] => []
  | v :: vs => ofJson v :: ofItems vs

/-- Members as sources. -/
def ofMembers : List (String × Json) → List (Option String × Source)
  | [] => []
  | (k, v) :: ms => (some k, ofJson v) :: ofMembers ms

end

/-! ## To a value -/

mutual

/-- The value of a source, the members of its objects in order and the last one for a key winning;
`none` if some part of it has no value. -/
def read? : Source → Option Json
  | .null => some .null
  | .bool b => some (.bool b)
  | .num n => some (.num n)
  | .str s => some (.str s)
  | .valueless => none
  | .cut => none
  | .arr items ending =>
    if ending = .cut then none else (readItems? items).map .arr
  | .obj members ending =>
    if ending = .cut then none
    else (readMembers? members).map fun ms => .obj (KeyMap.ofList ms).entries

/-- The values of a list. -/
def readItems? : List Source → Option (List Json)
  | [] => some []
  | s :: ss =>
    match s.read?, readItems? ss with
    | some v, some vs => some (v :: vs)
    | _, _ => none

/-- The members of an object, in the order in which they come. -/
def readMembers? : List (Option String × Source) → Option (List (String × Json))
  | [] => some []
  | (k, s) :: ms =>
    match k, s.read?, readMembers? ms with
    | some k, some v, some vs => some ((k, v) :: vs)
    | _, _, _ => none

end

end Source

end DatasetGraph.Json
