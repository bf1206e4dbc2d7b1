import DatasetGraph.Text.Blank
import DatasetGraph.Text.Digits
import DatasetGraph.Text.Quoted

/-!
# Settings of the service

Where the database is, where the service listens, and whether it is strict about labels.  Each
setting comes from a variable of the environment, or is the default if there is no such variable.
Paths and hosts are taken as they are; numbers and flags are read without the white space around
them.
-/

namespace DatasetGraph

/-- How the service is set up. -/
structure Settings where
  database : String := "moma.db"
  host : String := "0.0.0.0"
  /-- Where on its host the service listens. -/
  portNumber : UInt16 := 8000
  /-- Whether a graph with unknown labels is refused. -/
  strict : Bool := true
deriving DecidableEq

/-- A variable whose value is not understood. -/
inductive SettingsError where
  | invalidPort (text : String)
  | invalidFlag (text : String)
deriving DecidableEq

/-- The wording of the error. -/
def SettingsError.message : SettingsError → String
  | .invalidPort text => "invalid MOMA_PORT value " ++ Text.quoted text
  | .invalidFlag text => "invalid MOMA_STRICT_SCHEMA value " ++ Text.quoted text

namespace Settings

/-! ## Values of variables -/

/-- A number without the plus sign that may stand before it. -/
def dropPlus : List Char → List Char
  | '+' :: cs => cs
  | cs => cs

/-- The number on a host that a text names. -/
def portNumber? (text : String) : Option UInt16 :=
  match Text.Digits.value? (dropPlus (Text.trimChars text.toList)) with
  | some n => if n ≤ 0xffff then some (UInt16.ofNat n) else none
  | none => none

/-- The words for a flag that is set. -/
def yesWords : List String := ["true", "1", "yes", "on"]

/-- The words for a flag that is not set. -/
def noWords : List String := ["false", "0", "no", "off"]

/-- What a flag says, in ASCII letters of either case. -/
def flag? (text : String) : Option Bool :=
  let word := String.ofList ((Text.trimChars text.toList).map Char.toLower)
  if word ∈ yesWords then some true else if word ∈ noWords then some false else none

/-! ## The environment -/

/-- Where on its host the service of an environment listens. -/
def portNumberOf : Option String → Except SettingsError UInt16
  | none => .ok ({} : Settings).portNumber
  | some text =>
    match portNumber? text with
    | some p => .ok p
    | none => .error (.invalidPort text)

/-- The strictness of an environment. -/
def strictOf : Option String → Except SettingsError Bool
  | none => .ok ({} : Settings).strict
  | some text =>
    match flag? text with
    | some b => .ok b
    | none => .error (.invalidFlag text)

/-- The settings of an environment, whose variables `lookUp` knows. -/
def ofEnvironment (lookUp : String → Option String) : Except SettingsError Settings := do
  let portNumber ← portNumberOf (lookUp "MOMA_PORT")
  let strict ← strictOf (lookUp "MOMA_STRICT_SCHEMA")
  return {
    database := (lookUp "MOMA_DB_PATH").getD ({} : Settings).database
    host := (lookUp "MOMA_HOST").getD ({} : Settings).host
    portNumber := portNumber
    strict := strict }

/-- Where the service listens. -/
def address (s : Settings) : String := s.host ++ ":" ++ toString s.portNumber.toNat

end Settings

end DatasetGraph
