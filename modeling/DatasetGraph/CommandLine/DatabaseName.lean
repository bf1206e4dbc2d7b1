import DatasetGraph.Text.Digits
import DatasetGraph.Text.Form
import DatasetGraph.Text.Percent

/-!
# Names of databases

A database is named by the path of its file, or by an address that starts with `file:`.  An address
has a path, in which octets may be escaped, and may have a query that says how the file is used.
The empty path and `:memory:` name a new database that is not kept.

The query consists of names and values between ampersands.  An escaped zero octet ends the path, the
name or the value in which it stands, and names that are empty are passed over.  A query cannot ask
for more access than it has asked for before.
-/

namespace DatasetGraph.CommandLine

/-- What may be done with a database. -/
inductive Access where
  /-- It is there and is only read. -/
  | read
  /-- It is there. -/
  | write
  /-- It is made if it is not there. -/
  | create
  /-- It is not kept in a file. -/
  | memory
deriving DecidableEq

namespace Access

/-- The access that a query asks for. -/
def ofName? (name : String) : Option Access :=
  if name = "ro" then some .read
  else if name = "rw" then some .write
  else if name = "rwc" then some .create
  else if name = "memory" then some .memory
  else none

/-- How much is allowed. -/
def extent : Access → Nat
  | .read => 0
  | .write => 1
  | .create => 2
  | .memory => 3

/-- Whether one may go on to ask for another access. -/
def admits (current next : Access) : Bool := next = .memory || next.extent ≤ current.extent

end Access

/-- What keeps the files of databases. -/
inductive Keeper where
  /-- Files with locks, for several programs at a time. -/
  | shared
  /-- Files with locks, for one program at a time. -/
  | exclusive
  /-- Files without locks. -/
  | lockless
  /-- Files that are locked by a directory beside them. -/
  | dotted
  /-- No files. -/
  | memory
deriving DecidableEq

/-- The keepers by their names. -/
def Keeper.names : List (String × Keeper) :=
  [("unix", .shared), ("unix-excl", .exclusive), ("unix-none", .lockless),
    ("unix-dotfile", .dotted), ("memdb", .memory)]

/-- Why a text names no database. -/
inductive NameFault where
  /-- The address is on another host. -/
  | authority (name : String)
  | cacheMode (name : String)
  | accessMode (name : String)
  /-- The query asks for more access than before. -/
  | notAllowed (name : String)
  | keeper (name : String)
deriving DecidableEq

/-- The wording of the fault. -/
def NameFault.message : NameFault → String
  | .authority name => "invalid uri authority: " ++ name
  | .cacheMode name => "no such cache mode: " ++ name
  | .accessMode name => "no such access mode: " ++ name
  | .notAllowed name => "access mode not allowed: " ++ name
  | .keeper name => "no such vfs: " ++ name

/-- What a text says about a database. -/
structure DatabaseName where
  path : String
  access : Access := .create
  keeper : Keeper := .shared
  /-- Whether the file is used without locks. -/
  unlocked : Bool := false
  /-- Whether nothing is ever going to change the file. -/
  frozen : Bool := false
  /-- The path of a file whose permissions are given to a new file. -/
  pattern : Option String := none
deriving DecidableEq

namespace DatabaseName

/-! ## Values in a query -/

/-- The words that say yes. -/
def yesWords : List String := ["on", "yes", "true"]

/-- Whether a value says yes: by a word in either case, or by a number of at most 31 bits that it
starts with and whose last eight bits are not all zero. -/
def saysYes (value : String) : Bool :=
  match value.toList.takeWhile Char.isDigit with
  | [] => yesWords.contains (String.ofList (value.toList.map Char.toLower))
  | digits =>
    let n := Text.Digits.value digits
    n ≤ 0x7fffffff && n % 0x100 ≠ 0

/-- The names of a query with their values. -/
abbrev Parameters := List (String × String)

/-- Whether the first value of a name says yes. -/
def Parameters.isSet (q : Parameters) (name : String) : Bool := (q.lookup name).any saysYes

/-- The access after a parameter. -/
def accessAfter (current : Access) : String × String → Except NameFault Access
  | ("cache", value) =>
    if value = "shared" ∨ value = "private" then .ok current else .error (.cacheMode value)
  | ("mode", value) =>
    match Access.ofName? value with
    | none => .error (.accessMode value)
    | some next => if current.admits next then .ok next else .error (.notAllowed value)
  | _ => .ok current

/-- The keeper that a query asks for last. -/
def keeperOf (q : Parameters) : Except NameFault Keeper :=
  match (q.filter fun s => s.1 = "vfs").getLast? with
  | none => .ok .shared
  | some (_, value) =>
    match Keeper.names.lookup value with
    | some k => .ok k
    | none => .error (.keeper value)

/-! ## Addresses -/

/-- The text that escaped characters stand for, up to a zero octet. -/
def unescape (cs : List Char) : String :=
  String.ofList (Text.Utf8.decode ((Text.Percent.octets cs).takeWhile (· ≠ 0)))

/-- A name and its value, which is empty if there is no equals sign. -/
def parameter (cs : List Char) : String × String :=
  (unescape (cs.takeWhile (· ≠ '=')), unescape ((cs.dropWhile (· ≠ '=')).drop 1))

/-- The parameters of a query. -/
def parameters (cs : List Char) : Parameters :=
  ((Text.Form.split '&' cs).map parameter).filter fun s => s.1 ≠ ""

/-- The name that an address without host gives. -/
def ofAddress (cs : List Char) : Except NameFault DatabaseName := do
  let cs := cs.takeWhile (· ≠ '#')
  let q := parameters ((cs.dropWhile (· ≠ '?')).drop 1)
  let access ← q.foldlM accessAfter .create
  let keeper ← keeperOf q
  return {
    path := unescape (cs.takeWhile (· ≠ '?'))
    access
    keeper
    unlocked := q.isSet "nolock"
    frozen := q.isSet "immutable"
    pattern := q.lookup "modeof" }

/-- What a text names. -/
def ofText (text : String) : Except NameFault DatabaseName :=
  match text.toList with
  | 'f' :: 'i' :: 'l' :: 'e' :: ':' :: '/' :: '/' :: cs =>
    let authority := String.ofList (cs.takeWhile (· ≠ '/'))
    if authority = "" ∨ authority = "localhost" then ofAddress (cs.dropWhile (· ≠ '/'))
    else .error (.authority authority)
  | 'f' :: 'i' :: 'l' :: 'e' :: ':' :: cs => ofAddress cs
  | _ => .ok { path := text }

/-- Whether the database has no name under which it could be kept. -/
def isNameless (n : DatabaseName) : Bool :=
  n.path = "" || n.path = ":memory:" || n.access = .memory

/-- Whether the database is not kept. -/
def isPrivate (n : DatabaseName) : Bool := n.isNameless || n.keeper = .memory

/-- Whether a database that is not kept cannot be used, since it would have to be changed. -/
def isUnusable (n : DatabaseName) : Bool := n.access = .read || !n.isNameless && n.frozen

/-- Whether the database cannot be changed. -/
def isReadOnly (n : DatabaseName) : Bool := n.access = .read || n.frozen

/-- Whether there can be a log beside the database, which takes locks. -/
def canLog (n : DatabaseName) : Bool :=
  (n.keeper = .shared || n.keeper = .exclusive) && !n.unlocked && !n.frozen

/-- Whether the index of a log is in a file.  A program that has the file to itself can do without
one, but it has not if it only reads it. -/
def hasIndex (n : DatabaseName) : Bool := n.keeper ≠ .exclusive || n.access = .read

/-- Whether the file can be reserved for a change. -/
def canReserve (n : DatabaseName) : Bool :=
  n.access ≠ .read || n.unlocked || n.keeper = .lockless || n.keeper = .dotted

example : (ofText "file:x%2Fy%00z?a&mode=rw&=b&immutable=Yes#c").toOption =
    some { path := "x/y", access := .write, frozen := true } := by decide +kernel
example : (ofText "file:x?modeof=y&nolock=1&vfs=unix-excl").toOption =
    some { path := "x", keeper := .exclusive, unlocked := true, pattern := some "y" } := by
  decide +kernel
example : (ofText "file:x?mode=ro&mode=rw").toOption = none := by decide +kernel
example : (ofText "file://localhost?mode=ro").toOption = none := by decide +kernel

end DatabaseName

end DatasetGraph.CommandLine
