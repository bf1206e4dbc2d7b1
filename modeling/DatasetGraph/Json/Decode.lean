import DatasetGraph.Json.Printer
import DatasetGraph.Json.Reader
import DatasetGraph.Text.Quoted

/-!
# Decoding

A decoder turns a source into a domain value or says what is wrong with it.  The faults are few: the
text is not JSON as far as it was read, a value has the wrong shape, a field is missing or comes
twice, a list of fields has the wrong length, a name is not among the known ones.  `Fault.message`
words each of them.

A record is decoded from an object, whose members are met in order, so that the first faulty one is
reported and a missing field only after all of them; a key that is no field is passed over.  Most
records can also be given as the list of their fields in order.  `field` and `takeItem` are the
steps of the two forms.
-/

namespace DatasetGraph.Json

/-! ## Faults -/

/-- What was found. -/
inductive Found where
  | null
  | bool (b : Bool)
  | num (n : Number)
  | str (s : String)
  | arr
  | obj
deriving DecidableEq

/-- What was due. -/
inductive Shape where
  | text
  | list
  | map
  | size
  | unit
  /-- One of several names. -/
  | choice
  | record (name : String)
deriving DecidableEq

/-- Where a text stops being the text of what is decoded. -/
inductive TextFault where
  /-- It is not JSON there. -/
  | notJson
  /-- A list goes on after the last field. -/
  | extraItems
  /-- No name stands where one is due. -/
  | noChoice
deriving DecidableEq

/-- What is wrong with a source. -/
inductive Fault where
  | text (fault : TextFault)
  | wrongShape (found : Found) (due : Shape)
  | wrongSize (n : Int)
  | missingField (name : String)
  | duplicateField (name : String)
  /-- A list of fields that ends before a required one. -/
  | tooFewItems (length : Nat) (record : String) (fields : Nat)
  /-- A list with more items than there are fields. -/
  | tooManyItems (length : Nat)
  /-- An object in place of a name that has not exactly one member. -/
  | notOneMember
  | unknownName (name : String) (known : List String)
  /-- Neither one reference nor a list of them. -/
  | noReferences
deriving DecidableEq

/-- A word between back quotes. -/
def backQuoted (s : String) : String := "\x60" ++ s ++ "\x60"

/-- How a message names what was found. -/
def Found.describe : Found → String
  | .null => "null"
  | .bool b => "boolean " ++ backQuoted (if b then "true" else "false")
  | .num (.int n) => "integer " ++ backQuoted (String.ofList (intChars n))
  | .num (.double x) => "floating point " ++ backQuoted (String.ofList x.text)
  | .str s => "string " ++ Text.quoted s
  | .arr => "sequence"
  | .obj => "map"

/-- How a message names what was due. -/
def Shape.describe : Shape → String
  | .text => "a string"
  | .list => "a sequence"
  | .map => "a map"
  | .size => "usize"
  | .unit => "unit"
  | .choice => "string or map"
  | .record name => "struct " ++ name

/-- The wording of a fault. -/
def Fault.message : Fault → String
  | .text .notJson => "invalid JSON"
  | .text .extraItems => "trailing characters"
  | .text .noChoice => "expected value"
  | .wrongShape found due => "invalid type: " ++ found.describe ++ ", expected " ++ due.describe
  | .wrongSize n =>
    "invalid value: " ++ (Found.num (.int n)).describe ++ ", expected " ++ Shape.size.describe
  | .missingField name => "missing field " ++ backQuoted name
  | .duplicateField name => "duplicate field " ++ backQuoted name
  | .tooFewItems n record fields =>
    "invalid length " ++ toString n ++ ", expected struct " ++ record ++ " with " ++
      toString fields ++ " element" ++ (if fields = 1 then "" else "s")
  | .tooManyItems n => "invalid length " ++ toString n ++ ", expected fewer elements in array"
  | .notOneMember => "invalid value: map, expected map with a single key"
  | .unknownName name known =>
    "unknown variant " ++ backQuoted name ++ ", expected one of " ++
      ", ".intercalate (known.map backQuoted)
  | .noReferences => "data did not match any variant of untagged enum References"

/-- Whether the fault lies in the text rather than in the shape of what it says. -/
def Fault.isText : Fault → Bool
  | .text _ => true
  | _ => false

/-! ## Decoders -/

/-- Reads a source. -/
abbrev Decoder (α : Type) := Source → Except Fault α

namespace Decoder

variable {α : Type}

/-- The fault of a source that is not what was due. -/
def mismatch (due : Shape) : Source → Fault
  | .null => .wrongShape .null due
  | .bool b => .wrongShape (.bool b) due
  | .num n => .wrongShape (.num n) due
  | .str s => .wrongShape (.str s) due
  | .arr _ _ => .wrongShape .arr due
  | .obj _ _ => .wrongShape .obj due
  | .valueless => .text .notJson
  | .cut => .text .notJson

/-- Any value. -/
def value : Decoder Json := fun s =>
  match s.read? with
  | some v => .ok v
  | none => .error (.text .notJson)

/-- A text. -/
def text : Decoder String
  | .str s => .ok s
  | s => .error (mismatch .text s)

/-- A natural number below `2^64`. -/
def size : Decoder Nat
  | .num (.int n) => if 0 ≤ n then .ok n.toNat else .error (.wrongSize n)
  | s => .error (mismatch .size s)

/-- Nothing or what `d` reads; `null` is nothing. -/
def optional (d : Decoder α) : Decoder (Option α)
  | .null => .ok none
  | s => (d s).map some

/-- Check that a list or object of a text was closed. -/
def checkClosed (ending : Ending) : Except Fault Unit :=
  if ending = .cut then .error (.text .notJson) else .ok ()

/-- A list of what `d` reads. -/
def list (d : Decoder α) : Decoder (List α)
  | .arr items ending => do
    let vs ← items.mapM d
    checkClosed ending
    return vs
  | s => .error (mismatch .list s)

/-- A list of texts. -/
def texts : Decoder (List String) := list text

/-- Go through the members of an object in order. -/
def members (take : α → String → Source → Except Fault α) (init : α) :
    List (Option String × Source) → Ending → Except Fault α
  | [], ending => do
    checkClosed ending
    return init
  | (none, _) :: _, _ => .error (.text .notJson)
  | (some k, s) :: rest, ending => do
    let next ← take init k s
    members take next rest ending

/-- A map from texts to values, of which the last one for a key wins. -/
def map : Decoder (KeyMap Json)
  | .obj ms ending => members (fun m k s => return m.insert k (← value s)) .empty ms ending
  | s => .error (mismatch .map s)

/-! ### Records -/

/-- Read a field into its place, which has to be free. -/
def field (name : String) (old : Option α) (d : Decoder α) (s : Source) :
    Except Fault (Option α) :=
  match old with
  | some _ => .error (.duplicateField name)
  | none => (d s).map some

/-- A field that has to be there. -/
def required (name : String) : Option α → Except Fault α
  | some v => .ok v
  | none => .error (.missingField name)

/-- Pass over a member, which has to be well formed. -/
def skip : Source → Except Fault Unit
  | .cut => .error (.text .notJson)
  | .arr _ .cut => .error (.text .notJson)
  | .obj _ .cut => .error (.text .notJson)
  | _ => .ok ()

/-- Read the next item of a list of fields, if there is one. -/
def takeItem (d : Decoder α) (ending : Ending) :
    List Source → Except Fault (Option α × List Source)
  | [] => do
    checkClosed ending
    return (none, [])
  | s :: rest => do
    let v ← d s
    return (some v, rest)

/-- Check that no item is left of a list of fields of the given length. -/
def noMoreItems (length : Nat) (ending : Ending) (rest : List Source) : Except Fault Unit :=
  match rest, ending with
  | [], ending => checkClosed ending
  | _ :: _, .known => .error (.tooManyItems length)
  | _ :: _, _ => .error (.text .extraItems)

/-- A record that is an object or the list of its fields. -/
def record (name : String)
    (ofMembers : List (Option String × Source) → Ending → Except Fault α)
    (ofItems : List Source → Ending → Except Fault α) : Decoder α
  | .obj ms ending => ofMembers ms ending
  | .arr items ending => ofItems items ending
  | s => .error (mismatch (.record name) s)

/-- A record that can only be an object. -/
def objectRecord (name : String)
    (ofMembers : List (Option String × Source) → Ending → Except Fault α) : Decoder α
  | .obj ms ending => ofMembers ms ending
  | s => .error (mismatch (.record name) s)

/-! ### Names -/

/-- The content that may come with a name in an object. -/
def noContent : Decoder Unit
  | .null => .ok ()
  | s => .error (mismatch .unit s)

/-- Look a name up. -/
def lookUp (known : List String) (find : String → Option α) (s : String) : Except Fault α :=
  match find s with
  | some v => .ok v
  | none => .error (.unknownName s known)

/-- A name given as the only key of an object of a value. -/
def onlyKey (known : List String) (find : String → Option α) :
    List (Option String × Source) → Except Fault α
  | [(some k, s)] => do
    let v ← lookUp known find k
    noContent s
    return v
  | _ => .error .notOneMember

/-- A name given as the only key of an object of a text. -/
def firstKey (known : List String) (find : String → Option α) (ending : Ending) :
    List (Option String × Source) → Except Fault α
  | [] => .error (.text .noChoice)
  | (none, _) :: _ => .error (.text .notJson)
  | (some k, s) :: rest => do
    let v ← lookUp known find k
    noContent s
    checkClosed ending
    if rest.isEmpty then return v else .error (.text .noChoice)

/-- One of the names that `find` knows: a text, or an object with the name as its only key.  In a
text, anything else is a fault of the text; `within` is the ending of the record around the name,
which tells a text from a value. -/
def name (known : List String) (find : String → Option α) (within : Ending) : Decoder α
  | .str s => lookUp known find s
  | .obj ms ending =>
    if within = .known then onlyKey known find ms else firstKey known find ending ms
  | s => .error (if within = .known then mismatch .choice s else .text .noChoice)

/-! ### Texts -/

/-- Read the whole of a text. -/
def ofText (d : Decoder α) (text : String) : Except Fault α := do
  let r := Reading.ofText text
  let v ← d r.source
  if r.trailing then .error (.text .notJson) else return v

end Decoder

end DatasetGraph.Json
