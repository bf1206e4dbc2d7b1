import DatasetGraph.Double.Shortest
import DatasetGraph.KeyMap

/-!
# JSON values

The values that documents, graphs, properties and answers are made of.  An object holds its members
in a list: the objects that are read have theirs in increasing order of their keys, and an answer
lists them in the order in which they are to be written.

Integers and doubles are different values even when they are equal as numbers, so `1` and `1.0` are
told apart wherever values are compared or written.  The two zeros are different values as well, since
they are written differently; but they compare as equal.
-/

namespace DatasetGraph

/-- A number of a document. -/
inductive Number where
  | int (n : Int)
  | double (x : Double)
deriving DecidableEq

/-- A JSON value. -/
inductive Json where
  | null
  | bool (b : Bool)
  | num (n : Number)
  | str (s : String)
  | arr (items : List Json)
  | obj (members : List (String × Json))

/-- The nearest double. -/
def Number.asDouble : Number → Double
  | .int n => .ofInt n
  | .double x => x

/-- The number that is read from the text of a number. -/
def Number.reread : Number → Number
  | .int n => .int n
  | .double x => .double x.reread

namespace Json

instance : Inhabited Json := ⟨.null⟩

/-! ## Equality -/

mutual

/-- Whether two values are the same, the signs of their zeros included. -/
def same : Json → Json → Bool
  | .null, .null => true
  | .bool a, .bool b => a = b
  | .num a, .num b => a = b
  | .str a, .str b => a = b
  | .arr a, .arr b => sameItems a b
  | .obj a, .obj b => sameMembers a b
  | _, _ => false

/-- Whether two lists of values are the same. -/
def sameItems : List Json → List Json → Bool
  | [], [] => true
  | a :: as, b :: bs => same a b && sameItems as bs
  | _, _ => false

/-- Whether two lists of members are the same. -/
def sameMembers : List (String × Json) → List (String × Json) → Bool
  | [], [] => true
  | (j, a) :: as, (k, b) :: bs => j = k && same a b && sameMembers as bs
  | _, _ => false

end

mutual

theorem same_iff : (a b : Json) → (same a b = true ↔ a = b)
  | .null, b => by cases b <;> simp [same]
  | .bool a, b => by cases b <;> simp [same]
  | .num a, b => by cases b <;> simp [same]
  | .str a, b => by cases b <;> simp [same]
  | .arr a, b => by
    cases b with
    | arr b => simp [same, sameItems_iff a b]
    | _ => simp [same]
  | .obj a, b => by
    cases b with
    | obj b => simp [same, sameMembers_iff a b]
    | _ => simp [same]

theorem sameItems_iff : (a b : List Json) → (sameItems a b = true ↔ a = b)
  | [], b => by cases b <;> simp [sameItems]
  | a :: as, b => by
    cases b with
    | nil => simp [sameItems]
    | cons b bs => simp [sameItems, same_iff a b, sameItems_iff as bs]

theorem sameMembers_iff : (a b : List (String × Json)) → (sameMembers a b = true ↔ a = b)
  | [], b => by cases b <;> simp [sameMembers]
  | (j, a) :: as, b => by
    cases b with
    | nil => simp [sameMembers]
    | cons b bs => simp [sameMembers, Prod.ext_iff, same_iff a b.2, sameMembers_iff as bs]

end

instance : DecidableEq Json := fun a b => decidable_of_iff (same a b = true) (same_iff a b)

/-! ## Looking into a value -/

/-- Whether the value is `null`. -/
def isNull : Json → Bool
  | .null => true
  | _ => false

/-- The text, if the value is one. -/
def text? : Json → Option String
  | .str s => some s
  | _ => none

/-- The member under a key, if the value is an object that has one. -/
def get? : Json → String → Option Json
  | .obj members, k => members.lookup k
  | _, _ => none

/-! ## Nesting -/

mutual

/-- How deep lists and objects are nested in a value. -/
def depth : Json → Nat
  | .arr items => depthItems items + 1
  | .obj members => depthMembers members + 1
  | _ => 0

/-- How deep the values of a list are nested. -/
def depthItems : List Json → Nat
  | [] => 0
  | v :: vs => max v.depth (depthItems vs)

/-- How deep the members of an object are nested. -/
def depthMembers : List (String × Json) → Nat
  | [] => 0
  | (_, v) :: ms => max v.depth (depthMembers ms)

end

/-! ## Making values -/

/-- The value of a natural number. -/
def ofNat (n : Nat) : Json := .num (.int n)

/-- A text or `null`. -/
def ofText? : Option String → Json
  | some s => .str s
  | none => .null

/-- A list of texts. -/
def ofTexts (ss : List String) : Json := .arr (ss.map .str)

/-- The object of a map. -/
def ofMap (m : KeyMap Json) : Json := .obj m.entries

/-! ## Changing every part of a value -/

mutual

/-- The value that is read from the text of a value: its doubles are reread. -/
def reread : Json → Json
  | .num n => .num n.reread
  | .arr items => .arr (rereadItems items)
  | .obj members => .obj (rereadMembers members)
  | v => v

/-- Reread each value of a list. -/
def rereadItems : List Json → List Json
  | [] => []
  | v :: vs => v.reread :: rereadItems vs

/-- Reread each member of an object. -/
def rereadMembers : List (String × Json) → List (String × Json)
  | [] => []
  | (k, v) :: ms => (k, v.reread) :: rereadMembers ms

end

mutual

/-- The value with the members of every object in order of their keys. -/
def sortKeys : Json → Json
  | .arr items => .arr (sortKeysItems items)
  | .obj members => .obj (KeyMap.ofList (sortKeysMembers members)).entries
  | v => v

/-- Sort the keys in each value of a list. -/
def sortKeysItems : List Json → List Json
  | [] => []
  | v :: vs => v.sortKeys :: sortKeysItems vs

/-- Sort the keys in each member of an object. -/
def sortKeysMembers : List (String × Json) → List (String × Json)
  | [] => []
  | (k, v) :: ms => (k, v.sortKeys) :: sortKeysMembers ms

end

end Json

end DatasetGraph
